import AudioPipeline.Element.Equiv.Rules

/-!
# Rules for the functions of the task

One rule for each function of `audio_element_task`: what its precondition comes down to, branch by
branch.  What a branch makes of the memory has a name (`Mem.stopped`, `Mem.finished` and so on), and
`Closing` is what must hold around a `close`, so that a proof about one of these functions states
one fact for each of its branches.
-/

namespace AudioPipeline

open Prog

/-! ### What the branches write -/

namespace Mem

variable (m : Mem)

/-- A bit of `state_event` is set or cleared. -/
def withBit (bit : StateBit) (v : Bool) : Mem :=
  { m with el := { m.el with stateEvent := Function.update m.el.stateEvent bit v } }

/-- `close` is called. -/
def closing : Mem := { m with hist := { m.hist with trace := m.hist.trace ++ [.close] } }

/-- The element is closed. -/
def closed : Mem := { m with el := { m.el with isOpen := false } }

/-- `audio_element_force_set_state`. -/
def inState (st : AelState) : Mem := { m with el := { m.el with state := st } }

/-- The `STOP` handler has closed the element. -/
def stopped : Mem :=
  { m with
    el := { m.el with
      state := .stopped, waitTime := portMAX_DELAY, reports := m.el.reports ++ [.stateStopped]
      isRunning := false, stopping := false
      stateEvent := Function.update m.el.stateEvent .stopped true } }

/-- The `STOP` handler has found the element stopped. -/
def stoppedBefore : Mem := { m with el := { m.el with stopping := false } }

/-- The `STOP` handler has found the element finished. -/
def stoppedAfter : Mem :=
  { m with
    el := { m.el with
      state := .stopped, isRunning := false, stopping := false
      reports := m.el.reports ++ [.stateStopped]
      stateEvent := Function.update m.el.stateEvent .stopped true } }

/-- The `FINISH` handler has closed the element. -/
def finished : Mem :=
  { m with
    el := { m.el with
      state := .finished, waitTime := portMAX_DELAY, reports := m.el.reports ++ [.stateFinished]
      isRunning := false, stateEvent := Function.update m.el.stateEvent .stopped true } }

/-- `audio_element_on_cmd_error` has closed the element. -/
def erred : Mem :=
  { m with
    el := { m.el with
      state := .error, waitTime := portMAX_DELAY, isRunning := false
      stateEvent := Function.update m.el.stateEvent .stopped true } }

/-- The `PAUSE` handler has closed the element. -/
def paused : Mem :=
  { m with
    el := { m.el with
      waitTime := portMAX_DELAY, reports := m.el.reports ++ [.statePaused], isRunning := false
      stateEvent := Function.update m.el.stateEvent .paused true } }

/-- `open` is called. -/
def opening : Mem :=
  { m with
    el := { m.el with isOpen := true, state := .initializing }
    hist := { m.hist with trace := m.hist.trace ++ [.open] } }

/-- `open` has answered. -/
def opened (ret : ℤ) : Mem :=
  { m with
    hist := { m.hist with
      failed := m.hist.failed || OpenFails ret
      openFailed := OpenFails ret
      starting := m.hist.starting && ¬OpenFails ret } }

/-- The element runs. -/
def running : Mem :=
  { m with el := { m.el with state := .running, reports := m.el.reports ++ [.stateRunning] } }

/-- `open` has failed. -/
def openFailing : Mem :=
  { m with el := { m.el with state := .error, reports := m.el.reports ++ [.errorOpen] } }

/-- The element is said to run. -/
def resumed : Mem :=
  { m with
    el := { m.el with
      isRunning := true, stateEvent := Function.update m.el.stateEvent .resumed true } }

/-- The `RESUME` handler has opened the element. -/
def unstopped : Mem :=
  { m with
    el := { m.el with
      waitTime := 0, stateEvent := Function.update m.el.stateEvent .stopped false } }

/-- The ring buffers are aborted. -/
def aborted : Mem := (m.onRings Ringbuf.abort m.el.outputs).onRings Ringbuf.abort m.el.inputs

@[simp] theorem aborted_el : m.aborted.el = m.el := by
  unfold aborted
  rw [onRings_el, onRings_el]

@[simp] theorem aborted_hist : m.aborted.hist = m.hist := by
  unfold aborted
  rw [onRings_hist, onRings_hist]

/-- Only the ring buffers change. -/
theorem aborted_eq : m.aborted = { m with rings := m.aborted.rings } := by
  show (⟨m.aborted.el, m.aborted.rings, m.aborted.hist⟩ : Mem) = _
  rw [aborted_el, aborted_hist]

/-- The aborts leave a marked ring buffer marked. -/
theorem aborted_marked (h : ℕ) (hm : (m.rings h).Marked) : (m.aborted.rings h).Marked :=
  onRings_keeps (fun _ _ => marked_abort) _ (onRings_keeps (fun _ _ => marked_abort) _ hm)

/-- The `RESUME` handler has not opened the element. -/
def givenUp : Mem :=
  { m with
    el := { m.el with isRunning := false }
    rings := m.aborted.rings
    hist := { m.hist with openFailed := false } }

/-- `process` is called. -/
def processing : Mem :=
  { m with
    hist := { m.hist with
      starting := false
      startedDirty := m.hist.startedDirty ||
        m.hist.starting && !m.el.outputs.all fun h => (m.rings h).Clean } }

/-- What the history notes of a result. -/
def answered (processLen : ℤ) : Mem :=
  { m with hist := { m.hist with failed := m.hist.failed || ProcessFails processLen } }

/-- `process` has failed. -/
def processFailing : Mem :=
  { m with el := { m.el with reports := m.el.reports ++ [.errorProcess] } }

/-- The thread of the task has begun. -/
def created : Mem :=
  { m with
    el := { m.el with
      taskRun := true, stateEvent := Function.update m.el.stateEvent .taskCreated true } }

/-- The task has set the state of the element. -/
def reset : Mem := { m with el := { m.el with state := .init, waitTime := portMAX_DELAY } }

/-- The allocator has answered. -/
def allocated (buf : ℤ) : Mem :=
  (if buf = 0 then { m with el := { m.el with taskRun := false } } else m).withBit .stopped false

/-- The task has left its loop and closed the element. -/
def ended : Mem :=
  { m with
    el := { m.el with
      isOpen := false, stopping := false, taskRun := false
      stateEvent := Function.update m.el.stateEvent .stopped true } }

end Mem

/-! ### The rules -/

/-- What is left of `audio_element_process_init` when `open` has answered. -/
def afterOpen (ret : ℤ) : ElProg ℤ := do
  if ret = ESP_OK then
    audioElementForceSetState .running
    audioElementReportStatus .stateRunning
    xEventGroupSetBits .started
    return ESP_OK
  else if ret = AEL_IO_DONE then
    audioElementForceSetState .running
    audioElementReportStatus .stateRunning
    return ESP_OK
  else if ret = AEL_IO_ABORT then
    let _ ← audioElementOnCmdStop
    return ESP_FAIL
  else
    audioElementForceSetState .error
    audioElementReportStatus .errorOpen
    let _ ← audioElementOnCmdError
    return ESP_FAIL

/-- `audio_element_on_cmd_resume` after `audio_element_process_init`. -/
def afterProcessInit (ret : ℤ) : ElProg ℤ := do
  if ret ≠ ESP_OK then
    audioElementAbortOutputRingbuf
    audioElementAbortInputRingbuf
    note fun m => { m.hist with openFailed := false }
    setEl fun el => { el with isRunning := false }
    return ESP_FAIL
  else
    audioEventIfaceSetCmdWaitingTimeout 0
    xEventGroupClearBits .stopped
    return ESP_OK

section Rules

variable {R : Option (Callback × ℤ) → Mem → Mem → Prop} {P : Option Callback → Mem → Mem → Prop}
  {Q : ℤ → Bool → Mem → Mem → Prop} {Z : Mem → Mem → Prop} {b : Bool} {s₀ s : Mem}

/-- `audio_element_process_deinit` closes what is open. -/
theorem wp_processDeinit {Q : Unit → Bool → Mem → Mem → Prop} :
    wp R P Q audioElementProcessDeinit false s₀ s ↔
      (s.el.isOpen = true ∧ s.el.hasClose = true →
        P (some .close) s₀ { s with hist := { s.hist with trace := s.hist.trace ++ [.close] } } ∧
        ∀ s' v, R (some (.close, v))
            { s with hist := { s.hist with trace := s.hist.trace ++ [.close] } } s' →
          Q () false s' { s' with el := { s'.el with isOpen := false } }) ∧
      (¬(s.el.isOpen = true ∧ s.el.hasClose = true) →
        Q () false s₀ { s with el := { s.el with isOpen := false } }) := by
  simp only [audioElementProcessDeinit, wp_bind, wp_element, commit_false, wp_ite, wp_callClose,
    wp_setEl]

/-- The process step calls back while the element runs. -/
theorem wp_processRunning :
    wp R P Q audioElementProcessRunning false s₀ s ↔
      (s.el.state.val < AelState.running.val ∨ s.el.isRunning = false →
        Q ESP_ERR_INVALID_STATE false s₀ s) ∧
      (¬(s.el.state.val < AelState.running.val ∨ s.el.isRunning = false) →
        wp R P (fun v => wp R P Q (audioElementProcessed v)) callProcess false s₀ s) := by
  simp only [audioElementProcessRunning, wp_bind, wp_element, commit_false, wp_ite, wp_pure]

/-- What must hold around the `close` of an element for `Z` to hold behind it. -/
structure Closing (R : Option (Callback × ℤ) → Mem → Mem → Prop)
    (P : Option Callback → Mem → Mem → Prop) (Z : Mem → Mem → Prop) (s₀ s : Mem) : Prop where
  call : s.el.isOpen = true → s.el.hasClose = true → P (some .close) s₀ s.closing
  back : s.el.isOpen = true → s.el.hasClose = true →
    ∀ s' v, R (some (.close, v)) s.closing s' → Z s' s'.closed
  skip : ¬(s.el.isOpen = true ∧ s.el.hasClose = true) → Z s₀ s.closed

theorem Closing.deinit (h : Closing R P Z s₀ s) :
    wp R P (fun _ b s₀ s => b = false ∧ Z s₀ s) audioElementProcessDeinit false s₀ s := by
  rw [wp_processDeinit]
  constructor
  · rintro ⟨hopen, hclose⟩
    exact ⟨h.call hopen hclose, fun s' v hR => ⟨rfl, h.back hopen hclose s' v hR⟩⟩
  · intro hno
    exact ⟨rfl, h.skip hno⟩

/-- What follows on the `close` runs undisturbed. -/
theorem Closing.then {α : Type} {p : ElProg α} {Q : α → Bool → Mem → Mem → Prop}
    (h : Closing R P (wp R P Q p false) s₀ s) :
    wp R P Q (audioElementProcessDeinit >>= fun _ => p) false s₀ s := by
  rw [wp_bind]
  refine wp_post _ ?_ h.deinit
  rintro _ b s₀ s ⟨rfl, hp⟩
  exact hp

/-- **`audio_element_on_cmd_stop`** closes the element, or finds it closed already. -/
theorem wp_onCmdStop
    (hclose : s.el.state ≠ .finished → s.el.state ≠ .stopped →
      Closing R P (fun s₀ s => Q ESP_OK true s₀ s.stopped) s₀ s)
    (hbefore : s.el.isRunning = false → s.el.state = .stopped → Q ESP_OK false s₀ s.stoppedBefore)
    (hafter : s.el.state = .finished ∨ s.el.state = .stopped →
      ¬(s.el.isRunning = false ∧ s.el.state = .stopped) → Q ESP_OK true s₀ s.stoppedAfter) :
    wp R P Q audioElementOnCmdStop false s₀ s := by
  unfold audioElementOnCmdStop
  rw [wp_bind, wp_element, commit_false, wp_ite]
  constructor
  · rintro ⟨hfinished, hstopped⟩
    exact (hclose hfinished hstopped).then
  · intro hnot
    rw [wp_ite]
    constructor
    · rintro ⟨hrun, hstopped⟩
      exact hbefore hrun hstopped
    · exact hafter (by tauto)

/-- **`audio_element_on_cmd_finish`** closes an element that has neither failed nor stopped. -/
theorem wp_onCmdFinish
    (hskip : s.el.state = .error ∨ s.el.state = .stopped → Q ESP_OK false s₀ s)
    (hclose : s.el.state ≠ .error → s.el.state ≠ .stopped →
      Closing R P (fun s₀ s => Q ESP_OK true s₀ s.finished) s₀ s) :
    wp R P Q audioElementOnCmdFinish false s₀ s := by
  unfold audioElementOnCmdFinish
  rw [wp_bind, wp_element, commit_false, wp_ite]
  refine ⟨hskip, fun hnot => ?_⟩
  obtain ⟨herror, hstopped⟩ := not_or.mp hnot
  exact (hclose herror hstopped).then

/-- **`audio_element_on_cmd_error`** closes an element that has not stopped. -/
theorem wp_onCmdError
    (hskip : s.el.state = .stopped → Q ESP_OK false s₀ s)
    (hclose : s.el.state ≠ .stopped → Closing R P (fun s₀ s => Q ESP_OK true s₀ s.erred) s₀ s) :
    wp R P Q audioElementOnCmdError false s₀ s := by
  unfold audioElementOnCmdError
  rw [wp_bind, wp_element, commit_false, wp_ite]
  constructor
  · intro hstopped
    exact (hclose hstopped).then
  · intro hstopped
    exact hskip (not_not.mp hstopped)

/-- The `PAUSE` handler closes the element. -/
theorem wp_onCmdPause
    (hclose : Closing R P (fun s₀ s => Q ESP_OK true s₀ s.paused) s₀
      (s.inState .paused)) :
    wp R P Q (audioElementOnCmd .pause) false s₀ s := by
  unfold audioElementOnCmd
  rw [wp_bind, wp_forceSetState, commit_false]
  exact hclose.then

/-- What is left of `audio_element_process_init` when `open` has answered. -/
theorem wp_afterOpen {ret : ℤ}
    (hok : ret = ESP_OK → Q ESP_OK true s₀ (s.running.withBit .started true))
    (hdone : ret = AEL_IO_DONE → Q ESP_OK false s₀ s.running)
    (habort : ret = AEL_IO_ABORT → wp R P (fun _ => Q ESP_FAIL) audioElementOnCmdStop false s₀ s)
    (hfail : OpenFails ret → wp R P (fun _ => Q ESP_FAIL) audioElementOnCmdError false s₀
      s.openFailing) :
    wp R P Q (afterOpen ret) false s₀ s := by
  unfold afterOpen
  split_ifs with h₁ h₂ h₃
  · exact hok h₁
  · exact hdone h₂
  · rw [wp_bind]
    exact habort h₃
  · simp only [wp_bind, wp_forceSetState, wp_reportStatus, commit_false]
    exact hfail ⟨h₁, h₂⟩

/-- **`audio_element_process_init`** calls `open` if there is one. -/
theorem wp_processInit (hpoint : P none s₀ s)
    (hno : ∀ s', R none s s' → s'.el.hasOpen = false →
      Q ESP_OK true s' ({ s' with el := { s'.el with isOpen := true } }.withBit .started true))
    (hcall : ∀ s', R none s s' → s'.el.hasOpen = true → P (some .open) s' s'.opening)
    (hback : ∀ s₁ s' v, R none s s₁ → s₁.el.hasOpen = true → R (some (.open, v)) s₁.opening s' →
      wp R P Q (afterOpen v) false s' (s'.opened v)) :
    wp R P Q audioElementProcessInit true s₀ s := by
  unfold audioElementProcessInit
  rw [wp_bind, wp_element, commit_true]
  refine ⟨hpoint, fun s₁ hR => ?_⟩
  rw [wp_ite]
  constructor
  · exact hno s₁ hR
  · intro hopen
    have hopen : s₁.el.hasOpen = true := by simpa using hopen
    simp only [wp_bind, wp_setEl, wp_forceSetState, wp_callOpen, commit_false]
    exact ⟨hcall s₁ hR hopen, fun s' v hR' => hback s₁ s' v hR hopen hR'⟩

/-- The end of the `RESUME` handler. -/
theorem wp_afterProcessInit {ret : ℤ}
    (hok : ret = ESP_OK → commit R P (fun s₀ s => Q ESP_OK true s₀ s.unstopped) b s₀ s)
    (hfail : ret ≠ ESP_OK →
      commit R P (fun s₀ s => Q ESP_FAIL false s₀ s.givenUp) b s₀ s) :
    wp R P Q (afterProcessInit ret) b s₀ s := by
  unfold afterProcessInit
  rw [wp_ite]
  constructor
  · intro hret
    -- the aborts leave all but the ring buffers as it is
    have habort : ∀ s₀ s : Mem, Q ESP_FAIL false s₀ s.givenUp →
        wp R P Q (do
          audioElementAbortInputRingbuf
          note fun m => { m.hist with openFailed := false }
          setEl fun el => { el with isRunning := false }
          return ESP_FAIL : ElProg ℤ) false s₀ (s.onRings Ringbuf.abort s.el.outputs) := by
      intro s₀ s hQ
      simp only [wp_bind, audioElementAbortInputRingbuf, wp_onInputs, wp_note, wp_setEl, wp_pure,
        commit_false, onRings_el]
      rw [show (s.onRings Ringbuf.abort s.el.outputs).onRings Ringbuf.abort s.el.inputs =
        { s with rings := s.aborted.rings } from s.aborted_eq]
      exact hQ
    rw [wp_bind, audioElementAbortOutputRingbuf, wp_onOutputs]
    cases b with
    | false => exact habort s₀ s (hfail hret)
    | true => exact ⟨(hfail hret).1, fun s' hR => habort s' s' ((hfail hret).2 s' hR)⟩
  · intro hret
    exact hok (not_not.mp hret)

/-- **`audio_element_on_cmd_resume`** has nothing to do, or opens the element; it may have reset the
ring buffers then, though not those of a new element. -/
theorem wp_onCmdResume
    (hskip : s.el.state = .running → Q ESP_OK true s₀ s.resumed)
    (hinit : s.el.state ≠ .running → ∀ rings, (s.el.state = .init → rings = s.rings) →
      wp R P (fun ret => wp R P Q (afterProcessInit ret)) audioElementProcessInit true s₀
        { s.resumed with rings := rings }) :
    wp R P Q audioElementOnCmdResume false s₀ s := by
  unfold audioElementOnCmdResume
  rw [wp_bind, wp_element, commit_false, wp_ite]
  refine ⟨hskip, fun hne => ?_⟩
  rw [wp_ite]
  constructor
  · intro hreset
    have htail := hinit hne (s.onRings rbReset s.el.outputs).rings fun hst => absurd hst hreset.1
    simp only [wp_bind, audioElementResetOutputRingbuf, wp_onOutputs, wp_setEl, wp_setBits,
      commit_false]
    rw [onRings_eq]
    exact htail
  · intro _
    have htail := hinit hne s.rings fun _ => rfl
    simp only [wp_bind, wp_setEl, wp_setBits, commit_false]
    exact htail

/-- **The beginning of `audio_element_task`.** -/
theorem wp_taskBegin {Q : Unit → Bool → Mem → Mem → Prop} (hpoint : P none s₀ s.created)
    (hcall : ∀ s', R none s.created s' → 0 < s'.el.bufSize → P (some .calloc) s' s'.reset)
    (hback : ∀ s₁ s' v, R none s.created s₁ → R (some (.calloc, v)) s₁.reset s' →
      Q () true s' (s'.allocated v))
    (hskip : ∀ s', R none s.created s' → ¬0 < s'.el.bufSize →
      Q () true s' (s'.reset.withBit .stopped false)) :
    wp R P Q audioElementTaskBegin false s₀ s := by
  unfold audioElementTaskBegin
  simp only [wp_bind, wp_setEl, wp_setBits, wp_forceSetState, wp_setWaiting, wp_element,
    commit_false, commit_true]
  refine ⟨hpoint, fun s₁ hR => ?_⟩
  rw [wp_ite]
  constructor
  · intro hbuf
    rw [wp_bind, wp_invoke, commit_false]
    refine ⟨hcall s₁ hR hbuf, fun s' v hR' => ?_⟩
    have hend := hback s₁ s' v hR hR'
    unfold Mem.allocated at hend
    rw [wp_ite]
    constructor
    · intro hv
      rw [if_pos hv] at hend
      exact hend
    · intro hv
      rw [if_neg hv] at hend
      exact hend
  · intro hbuf
    exact hskip s₁ hR hbuf

/-- **The end of `audio_element_task`** closes an element that is open.  `J` is what is known from
where `task_run` is cleared. -/
theorem wp_taskEnd {Q : Unit → Bool → Mem → Mem → Prop} {J : Mem → Prop}
    (hclose : Closing R P (fun s₀ s => ∀ st, st = .stopped ∨ st = s.el.state →
      P none s₀ (s.inState st).ended ∧ J (s.inState st).ended) s₀ s)
    (hresumed : ∀ s s', J s → R none s s' →
      P none s' (s'.withBit .resumed true) ∧ J (s'.withBit .resumed true))
    (hdestroyed : ∀ s s', J s → R none s s' → Q () true s' (s'.withBit .taskDestroyed true)) :
    wp R P Q audioElementTaskEnd false s₀ s := by
  have hend : ∀ s₀ s, P none s₀ s.ended ∧ J s.ended →
      wp R P Q (do
        setEl fun el => { el with isOpen := false }
        setEl fun el => { el with stopping := false, taskRun := false }
        xEventGroupSetBits .stopped
        xEventGroupSetBits .resumed
        xEventGroupSetBits .taskDestroyed : ElProg Unit) false s₀ s := by
    rintro s₀ s ⟨hpoint, hJ⟩
    simp only [wp_bind, wp_setEl, wp_setBits, commit_false, commit_true]
    refine ⟨hpoint, fun s₁ hR₁ => ?_⟩
    obtain ⟨hpoint₁, hJ₁⟩ := hresumed _ s₁ hJ hR₁
    exact ⟨hpoint₁, fun s₂ hR₂ => hdestroyed _ s₂ hJ₁ hR₂⟩
  unfold audioElementTaskEnd
  rw [wp_bind, wp_element, commit_false, wp_ite]
  constructor
  · rintro ⟨hopen, hclosed⟩
    simp only [wp_bind, wp_callClose, wp_forceSetState, commit_false]
    refine ⟨hclose.call hopen hclosed, fun s' v hR => ?_⟩
    exact hend s' (s'.inState .stopped) (hclose.back hopen hclosed s' v hR .stopped (Or.inl rfl))
  · intro hno
    exact hend s₀ s (hclose.skip hno s.el.state (Or.inr rfl))

/-- The process step calls back while the element runs. -/
theorem wp_running
    (hskip : s.el.state.val < AelState.running.val ∨ s.el.isRunning = false →
      Q ESP_ERR_INVALID_STATE false s₀ s)
    (hcall : AelState.running.val ≤ s.el.state.val → s.el.isRunning = true →
      P (some .process) s₀ s.processing)
    (hback : AelState.running.val ≤ s.el.state.val → s.el.isRunning = true →
      ∀ s' v, R (some (.process, v)) s.processing s' →
        wp R P Q (audioElementProcessed v) false s' (s'.answered v)) :
    wp R P Q audioElementProcessRunning false s₀ s := by
  rw [wp_processRunning, wp_callProcess]
  refine ⟨hskip, fun hon => ?_⟩
  obtain ⟨hstate, hrun⟩ := not_or.mp hon
  have hstate := not_lt.mp hstate
  have hrun : s.el.isRunning = true := by simpa using hrun
  exact ⟨hcall hstate hrun, hback hstate hrun⟩

/-- The branches on the result of `process`. -/
theorem wp_processed {processLen : ℤ}
    (hgo : ¬ProcessEnds processLen → ¬ProcessFails processLen → Q ESP_OK false s₀ s)
    (habort : processLen = AEL_IO_ABORT →
      wp R P (fun _ => Q ESP_OK) audioElementOnCmdStop false s₀ s)
    (hagain : ProcessEnds processLen → s.el.state = .init →
      wp R P Q audioElementOnCmdResume false s₀ s)
    (hend : ProcessEnds processLen → s.el.state ≠ .init → ∀ rings,
      rings = (s.onRings Ringbuf.doneWrite s.el.outputs).rings →
      wp R P (fun _ => Q ESP_OK) audioElementOnCmdFinish false s₀ { s with rings := rings })
    (hfail : processLen = AEL_IO_FAIL ∨ processLen = AEL_PROCESS_FAIL →
      wp R P (fun _ => Q ESP_OK) audioElementOnCmdError false s₀ s.processFailing) :
    wp R P Q (audioElementProcessed processLen) false s₀ s := by
  unfold audioElementProcessed
  split_ifs with hpos h₁ h₂ h₃
  · refine hgo ?_ ?_
    · rintro (rfl | rfl) <;> exact absurd hpos (by decide)
    · rintro (rfl | rfl | rfl) <;> exact absurd hpos (by decide)
  · rw [wp_bind]
    exact habort h₁
  · rw [wp_bind, wp_element, commit_false, wp_ite]
    refine ⟨hagain h₂, fun hinit => ?_⟩
    rw [wp_bind, audioElementSetRingbufDone, wp_onOutputs, commit_false, wp_bind, onRings_eq]
    exact hend h₂ hinit _ rfl
  · simp only [wp_bind, wp_reportStatus, commit_false]
    exact hfail h₃
  · exact hgo h₂ (not_or.mpr ⟨h₁, h₃⟩)

/-- A handler in the loop of the task: `STOPPED_BIT` is set if it fails. -/
theorem wp_taskCmd {cmd : AelCmd}
    (h : wp R P (fun ret b s₀ s => (ret = ESP_OK → Q ret b s₀ s) ∧
      (ret ≠ ESP_OK → commit R P (fun s₀ s => Q ret true s₀ (s.withBit .stopped true)) b s₀ s))
      (audioElementOnCmd cmd) b s₀ s) :
    wp R P Q (audioElementTaskCmd cmd) b s₀ s := by
  unfold audioElementTaskCmd
  rw [wp_bind]
  refine wp_post _ ?_ h
  rintro ret b s₀ s ⟨hok, hfail⟩
  dsimp only
  rw [wp_ite]
  exact ⟨hfail, fun hret => hok (not_not.mp hret)⟩

/-- A handler that does not fail. -/
theorem wp_taskCmd_ok {cmd : AelCmd}
    (h : wp R P (fun ret b s₀ s => ret = ESP_OK ∧ Q ret b s₀ s) (audioElementOnCmd cmd) b s₀ s) :
    wp R P Q (audioElementTaskCmd cmd) b s₀ s := by
  refine wp_taskCmd (wp_post _ ?_ h)
  rintro ret b s₀ s ⟨hok, hQ⟩
  exact ⟨fun _ => hQ, fun hne => absurd hok hne⟩

end Rules

end AudioPipeline
