import AudioPipeline.Element.Api
import AudioPipeline.Element.Equiv.Handlers

/-!
# Rules for the control functions

One rule for each control function of an element, as for the functions of the task: what its
precondition comes down to, branch by branch.  `Awaits` is the precondition of a wait for a bit.
-/

namespace AudioPipeline

open Prog

/-! ### What the branches write -/

namespace Mem

variable (m : Mem)

/-- `audio_element_report_status`. -/
def reporting (st : AelStatus) : Mem :=
  { m with el := { m.el with reports := m.el.reports ++ [st] } }

/-- A command is put into the internal queue. -/
def sending (cmd : AelCmd) : Mem := { m with el := { m.el with queue := m.el.queue ++ [cmd] } }

/-- The internal queue is emptied. -/
def discarded : Mem := { m with el := { m.el with queue := [] } }

/-- `audio_thread_create` was called. -/
def spawned : Mem := { m with el := { m.el with threadCreated := true } }

/-- An element without a task is started. -/
def launched (taskRun : Bool) : Mem :=
  { m with
    el := { m.el with
      taskRun := taskRun, isRunning := true, state := .running
      reports := m.el.reports ++ [.stateRunning] } }

/-- An element without a task is halted in a state. -/
def haltedIn (st : AelState) : Mem :=
  { m with el := { m.el with isRunning := false, state := st } }

/-- An element without a task is ended. -/
def dismissed : Mem := { m with el := { m.el with taskRun := false, isRunning := false } }

/-- `audio_element_stop` has woken the task up, and says whether a stop is asked for. -/
def asking (waitTime : ℕ) (stopping : Bool) : Mem :=
  { m with el := { m.el with waitTime := waitTime, stopping := stopping } }

end Mem

section Rules

variable {R : Option (Callback × ℤ) → Mem → Mem → Prop} {P : Option Callback → Mem → Mem → Prop}
  {Q : ℤ → Bool → Mem → Mem → Prop} {b : Bool} {s₀ s : Mem}

/-- What must hold for a wait for a bit to end well: it is set already, or it is read once more when
the others have run. -/
def Awaits (R : Option (Callback × ℤ) → Mem → Mem → Prop) (P : Option Callback → Mem → Mem → Prop)
    (bit : StateBit) (K : Bool → Mem → Mem → Prop) (s₀ s : Mem) : Prop :=
  (s.el.stateEvent bit = true → K true s₀ s) ∧
    (s.el.stateEvent bit = false → P none s₀ s ∧ ∀ s', R none s s' → K (s'.el.stateEvent bit) s' s')

@[simp] theorem wp_waitBits {Q : Bool → Bool → Mem → Mem → Prop} (bit : StateBit) :
    wp R P Q (xEventGroupWaitBits bit) b s₀ s ↔
      commit R P (Awaits R P bit fun v => Q v true) b s₀ s := by
  simp only [xEventGroupWaitBits, wp_bind, wp_element, wp_sync, wp_pure, wp_ite, commit_true,
    Bool.not_eq_true]
  rfl

@[simp] theorem wp_cmdSend {Q : ℤ → Bool → Mem → Mem → Prop} (cmd : AelCmd) :
    wp R P Q (audioElementCmdSend cmd) b s₀ s ↔
      commit R P (fun s₀ s =>
        (s.el.queue.length < internalQueueSize → Q ESP_OK false s₀ (s.sending cmd)) ∧
        (¬s.el.queue.length < internalQueueSize → Q ESP_FAIL false s₀ s)) b s₀ s := by
  simp only [audioElementCmdSend, wp_bind, wp_element, wp_pure, wp_ite, wp_setEl, commit_false]
  rfl

/-- **`audio_element_run`** creates the thread of an element that has none. -/
theorem wp_elementRun
    (hthere : s.el.taskRun = true → Q ESP_OK false s₀ s)
    (hclear : s.el.taskRun = false → P none s₀ (s.discarded.withBit .taskCreated false))
    (hcreate : s.el.taskRun = false → ∀ s', R none (s.discarded.withBit .taskCreated false) s' →
      0 < s'.el.taskStack → Awaits R P .taskCreated (fun _ => Q ESP_OK true) s' s'.spawned)
    (htaskless : s.el.taskRun = false → ∀ s', R none (s.discarded.withBit .taskCreated false) s' →
      s'.el.taskStack ≤ 0 → Q ESP_OK false s' (s'.launched true)) :
    wp R P Q audioElementRun false s₀ s := by
  unfold audioElementRun
  rw [wp_bind, wp_element, commit_false, wp_ite]
  refine ⟨hthere, fun hoff => ?_⟩
  have hoff : s.el.taskRun = false := by simpa using hoff
  simp only [wp_bind, audioEventIfaceDiscard, wp_setEl, wp_clearBits, wp_element, commit_false,
    commit_true]
  refine ⟨hclear hoff, fun s' hR => ?_⟩
  rw [wp_ite]
  constructor
  · intro hstack
    rw [wp_bind, wp_setEl, commit_false, wp_bind, wp_waitBits]
    exact hcreate hoff s' hR hstack
  · intro hstack
    simp only [wp_bind, wp_setEl, wp_forceSetState, wp_reportStatus, commit_false]
    exact htaskless hoff s' hR (not_lt.mp hstack)

/-- **`audio_element_pause`** asks the task to pause. -/
theorem wp_elementPause (hfail : Q ESP_FAIL false s₀ s)
    (hlate : s.el.taskRun = true → AelState.paused.val ≤ s.el.state.val →
      Q ESP_OK false s₀ (s.inState .paused))
    (hclear : s.el.taskRun = true → P none s₀ (s.withBit .paused false))
    (htaskless : s.el.taskRun = true → ∀ s', R none (s.withBit .paused false) s' →
      s'.el.taskStack ≤ 0 → Q ESP_OK false s' (s'.haltedIn .paused))
    (hfull : s.el.taskRun = true → ∀ s', R none (s.withBit .paused false) s' →
      Q ESP_FAIL false s' s')
    (hsend : s.el.taskRun = true → ∀ s', R none (s.withBit .paused false) s' → 0 < s'.el.taskStack →
      Awaits R P .paused (fun v => Q (if v then ESP_OK else ESP_FAIL) true) s'
        (s'.sending .pause)) :
    wp R P Q audioElementPause false s₀ s := by
  unfold audioElementPause
  rw [wp_bind, wp_element, commit_false, wp_ite]
  refine ⟨fun _ => hfail, fun hon => ?_⟩
  have hon : s.el.taskRun = true := by simpa using hon
  rw [wp_ite]
  refine ⟨hlate hon, fun _ => ?_⟩
  rw [wp_bind, wp_clearBits, commit_false, wp_bind, wp_element, commit_true]
  refine ⟨hclear hon, fun s' hR => ?_⟩
  rw [wp_ite]
  constructor
  · exact htaskless hon s' hR
  · intro hstack
    rw [wp_bind, wp_cmdSend, commit_false]
    constructor
    · intro _
      rw [wp_ite]
      refine ⟨fun hne => absurd rfl hne, fun _ => ?_⟩
      rw [wp_bind, wp_waitBits, commit_false]
      exact hsend hon s' hR (not_le.mp hstack)
    · intro _
      rw [wp_ite]
      exact ⟨fun _ => hfull hon s' hR, fun heq => absurd heq (by decide)⟩

/-- `audio_element_resume` behind `RESUMED_BIT`. -/
def waitForThreshold (threshold : ℚ) (m : Mem) : ElProg ℤ :=
  match m.el.input with
  | .rb inputRb =>
    if threshold ≠ 0 then audioElementWaitForBuffer ⌊(m.rbGetSize inputRb : ℚ) * threshold⌋
    else pure ESP_OK
  | .cb _ => pure ESP_OK

/-- No threshold is given, so there is no wait for the buffer. -/
theorem waitForThreshold_zero (m : Mem) : waitForThreshold 0 m = pure ESP_OK := by
  unfold waitForThreshold
  split
  · exact if_neg (not_not.mpr rfl)
  · rfl

/-- **`audio_element_resume`** asks the task to resume, if there is something to resume. -/
theorem wp_elementResume {threshold : ℚ} (hfail : Q ESP_FAIL false s₀ s)
    (hreport : ∀ st, s.el.taskRun = true → Q ESP_OK false s₀ (s.reporting st))
    (htaskless : s.el.taskRun = true → s.el.taskStack ≤ 0 →
      Q ESP_OK false s₀ (s.launched s.el.taskRun))
    (hclear : s.el.taskRun = true → P none s₀ (s.withBit .resumed false))
    (hfull : s.el.taskRun = true → ∀ s', R none (s.withBit .resumed false) s' →
      Q ESP_FAIL false s' s')
    (hsend : s.el.taskRun = true → 0 < s.el.taskStack → ∀ s', R none (s.withBit .resumed false) s' →
      Awaits R P .resumed (fun v s₀ s => (v = false → Q ESP_FAIL true s₀ s) ∧
        (v = true → P none s₀ s ∧
          ∀ s', R none s s' → wp R P Q (waitForThreshold threshold s') false s' s'))
        s' (s'.sending .resume)) :
    wp R P Q (audioElementResume threshold) false s₀ s := by
  unfold audioElementResume
  rw [wp_bind, wp_element, commit_false, wp_ite]
  refine ⟨fun _ => hfail, fun hon => ?_⟩
  have hon : s.el.taskRun = true := by simpa using hon
  refine wp_ite.mpr ⟨fun _ => hreport .stateRunning hon, fun _ => ?_⟩
  refine wp_ite.mpr ⟨htaskless hon, fun htask => ?_⟩
  refine wp_ite.mpr ⟨fun _ => hfail, fun _ => ?_⟩
  refine wp_ite.mpr ⟨fun _ => hreport .stateFinished hon, fun _ => ?_⟩
  refine wp_ite.mpr ⟨fun _ => hfail, fun _ => ?_⟩
  rw [wp_bind, wp_clearBits, commit_false, wp_bind, wp_cmdSend, commit_true]
  refine ⟨hclear hon, fun s' hR => ⟨fun _ => ?_, fun _ => hfull hon s' hR⟩⟩
  obtain ⟨hset, hwait⟩ := hsend hon (not_le.mp htask) s' hR
  refine wp_ite.mpr ⟨fun heq => absurd heq (by decide), fun _ => ?_⟩
  rw [wp_bind, wp_waitBits, commit_false]
  constructor
  · intro hbit
    exact wp_ite.mpr ⟨fun heq => absurd heq (by decide), fun _ => (hset hbit).2 rfl⟩
  · intro hbit
    obtain ⟨hpoint, hbits⟩ := hwait hbit
    refine ⟨hpoint, fun s₁ hR₁ => wp_ite.mpr ⟨(hbits s₁ hR₁).1, fun hne => ?_⟩⟩
    exact (hbits s₁ hR₁).2 (by simpa using hne)

/-- What is left of `audio_element_stop` when it has aborted the ring buffers. -/
def afterAbort : ElProg ℤ := do
  let el ← element
  if el.taskStack ≤ 0 then
    setEl fun el => { el with isRunning := false }
    audioElementForceSetState .stopped
    xEventGroupSetBits .stopped
    audioElementReportStatus .stateStopped
    return ESP_OK
  else
    if el.state = .paused then
      audioEventIfaceSetCmdWaitingTimeout 0
    if el.stopping then
      return ESP_OK
    else
      setEl fun el => { el with stopping := true }
      let sent ← audioElementCmdSend .stop
      if sent ≠ ESP_OK then
        setEl fun el => { el with stopping := false }
        return ESP_FAIL
      else
        return ESP_OK

theorem wp_afterAbort
    (htaskless : s.el.taskStack ≤ 0 → P none s₀ ((s.haltedIn .stopped).withBit .stopped true) ∧
      ∀ s', R none ((s.haltedIn .stopped).withBit .stopped true) s' →
        Q ESP_OK false s' (s'.reporting .stateStopped))
    (hasked : 0 < s.el.taskStack → s.el.stopping = true → ∀ n, Q ESP_OK false s₀ (s.asking n true))
    (hsend : 0 < s.el.taskStack → s.el.stopping = false → ∀ n,
      Q ESP_OK false s₀ ((s.asking n true).sending .stop))
    (hfull : 0 < s.el.taskStack → s.el.stopping = false →
      ¬s.el.queue.length < internalQueueSize → ∀ n, Q ESP_FAIL false s₀ (s.asking n false)) :
    wp R P Q afterAbort false s₀ s := by
  -- `is_stopping` is set before the STOP is sent, and taken back if the queue is full
  have hstop : ∀ n, 0 < s.el.taskStack → s.el.stopping = false → wp R P Q (do
      setEl fun el => { el with stopping := true }
      let sent ← audioElementCmdSend .stop
      if sent ≠ ESP_OK then
        setEl fun el => { el with stopping := false }
        return ESP_FAIL
      else
        return ESP_OK : ElProg ℤ) false s₀ (s.asking n false) := by
    intro n hstack hstopping
    rw [wp_bind, wp_setEl, commit_false, wp_bind, wp_cmdSend, commit_false]
    constructor
    · intro _
      exact wp_ite.mpr ⟨fun hne => absurd rfl hne, fun _ => hsend hstack hstopping n⟩
    · intro hfull'
      refine wp_ite.mpr ⟨fun _ => ?_, fun heq => absurd heq (by decide)⟩
      rw [wp_bind, wp_setEl, commit_false]
      exact hfull hstack hstopping hfull' n
  unfold afterAbort
  rw [wp_bind, wp_element, commit_false, wp_ite]
  constructor
  · intro hstack
    simp only [wp_bind, wp_setEl, wp_forceSetState, wp_setBits, wp_reportStatus, commit_false,
      commit_true]
    -- no task would answer: the call stops the element itself
    exact htaskless hstack
  · intro hstack
    have hstack : 0 < s.el.taskStack := not_le.mp hstack
    have htail : ∀ n, wp R P Q (if s.el.stopping = true then pure ESP_OK else do
        setEl fun el => { el with stopping := true }
        let sent ← audioElementCmdSend .stop
        if sent ≠ ESP_OK then
          setEl fun el => { el with stopping := false }
          return ESP_FAIL
        else
          return ESP_OK : ElProg ℤ) false s₀ (s.asking n s.el.stopping) := by
      intro n
      cases hstopping : s.el.stopping with
      | false => exact hstop n hstack hstopping
      | true => exact hasked hstack hstopping n
    refine wp_ite.mpr ⟨fun _ => ?_, fun _ => ?_⟩
    · rw [wp_bind, wp_setWaiting, commit_false]
      exact htail 0
    · exact htail s.el.waitTime

/-- **`audio_element_stop`** asks a task that runs to stop. -/
theorem wp_elementStop (hfail : s.el.taskRun = false → Q ESP_FAIL false s₀ s)
    (hhalted : s.el.taskRun = true → s.el.isRunning = false →
      P none s₀ (s.withBit .stopped true) ∧ ∀ s', R none (s.withBit .stopped true) s' →
        Q ESP_OK false s' (s'.reporting .stateStopped))
    (hrunning : s.el.taskRun = true → s.el.isRunning = true → s.el.state = .running →
      P none s₀ (s.aborted.withBit .stopped false) ∧
        ∀ s', R none (s.aborted.withBit .stopped false) s' → wp R P Q afterAbort false s' s')
    (hother : s.el.taskRun = true → s.el.isRunning = true → s.el.state ≠ .running →
      wp R P Q afterAbort false s₀ s.aborted) :
    wp R P Q audioElementStop false s₀ s := by
  unfold audioElementStop
  rw [wp_bind, wp_element, commit_false, wp_ite]
  refine ⟨fun hoff => hfail hoff, fun hon => ?_⟩
  have hon : s.el.taskRun = true := by simpa using hon
  refine wp_ite.mpr ⟨fun hoff => ?_, fun hrun => ?_⟩
  · rw [wp_bind, wp_setBits, commit_false, wp_bind, wp_reportStatus, commit_true]
    exact hhalted hon hoff
  · have hrun : s.el.isRunning = true := by simpa using hrun
    rw [wp_bind, audioElementAbortOutputRingbuf, wp_onOutputs, commit_false, wp_bind,
      audioElementAbortInputRingbuf, wp_onInputs, commit_false, onRings_el, wp_bind, wp_element,
      commit_false]
    refine wp_ite.mpr ⟨fun hst => ?_, fun hst => ?_⟩
    · rw [onRings_el, onRings_el] at hst
      rw [wp_bind, wp_clearBits, commit_false]
      exact hrunning hon hrun hst
    · rw [onRings_el, onRings_el] at hst
      exact hother hon hrun hst

/-- **`audio_element_wait_for_stop_ms`** waits for a task that runs. -/
theorem wp_elementWaitForStopMs (hhalted : s.el.isRunning = false → Q ESP_OK false s₀ s)
    (hwait : s.el.isRunning = true →
      Awaits R P .stopped (fun v => Q (if v then ESP_OK else ESP_ERR_TIMEOUT) true) s₀ s) :
    wp R P Q audioElementWaitForStopMs false s₀ s := by
  unfold audioElementWaitForStopMs
  rw [wp_bind, wp_element, commit_false, wp_ite]
  refine ⟨hhalted, fun hon => ?_⟩
  rw [wp_bind, wp_waitBits, commit_false]
  exact hwait (by simpa using hon)

/-- **`audio_element_terminate`** asks the task to end. -/
theorem wp_elementTerminate (hgone : s.el.taskRun = false → Q ESP_OK false s₀ s)
    (htaskless : s.el.taskRun = true → s.el.taskStack ≤ 0 → Q ESP_OK false s₀ s.dismissed)
    (hclear : s.el.taskRun = true → 0 < s.el.taskStack → P none s₀ (s.withBit .taskDestroyed false))
    (hfull : s.el.taskRun = true → 0 < s.el.taskStack → ∀ s',
      R none (s.withBit .taskDestroyed false) s' → Q ESP_FAIL false s' s')
    (hsend : s.el.taskRun = true → 0 < s.el.taskStack → ∀ s',
      R none (s.withBit .taskDestroyed false) s' →
      Awaits R P .taskDestroyed (fun v => Q (if v then ESP_OK else ESP_FAIL) true) s'
        (s'.sending .destroy)) :
    wp R P Q audioElementTerminate false s₀ s := by
  unfold audioElementTerminate
  rw [wp_bind, wp_element, commit_false, wp_ite]
  refine ⟨hgone, fun hon => ?_⟩
  have hon : s.el.taskRun = true := by simpa using hon
  rw [wp_ite]
  refine ⟨htaskless hon, fun hstack => ?_⟩
  have hstack : 0 < s.el.taskStack := not_le.mp hstack
  rw [wp_bind, wp_clearBits, commit_false, wp_bind, wp_cmdSend, commit_true]
  refine ⟨hclear hon hstack, fun s' hR => ⟨fun _ => ?_, fun _ => ?_⟩⟩
  · refine wp_ite.mpr ⟨fun hne => absurd rfl hne, fun _ => ?_⟩
    rw [wp_bind, wp_waitBits, commit_false]
    exact hsend hon hstack s' hR
  · exact wp_ite.mpr ⟨fun _ => hfull hon hstack s' hR, fun heq => absurd heq (by decide)⟩

end Rules

end AudioPipeline
