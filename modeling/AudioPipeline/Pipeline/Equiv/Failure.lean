import AudioPipeline.Pipeline.Equiv.Chain
import AudioPipeline.Ringbuf.Equiv.Threads

/-!
# A failure goes down the chain

An element whose `open` or `process` failed stays failed until its next `RESUME`.  The next element
learns of it from the ring between them, which must be marked done or aborted.  The `RESUME` handler
marks it when `open` has failed; the handlers of a failing process step mark nothing.

* `failure_propagates`: failures go down the chain as long as every process callback that fails has
  had its output marked by someone.
-/

namespace AudioPipeline

open Prog

/-- Every output ring buffer of the element is marked done or aborted. -/
def AllMarked (m : Mem) : Prop := ∀ h ∈ m.el.outputs, (m.rings h).Marked

/-- A failure of the element is visible in its output ring buffers. -/
def Announced (m : Mem) : Prop := m.hist.failed = true → AllMarked m

/-! ### The task of one element -/

/-- What the others do to an element. -/
structure Aside (m m' : Mem) : Prop where
  ports : SamePorts m m'
  failed : m'.hist.failed = m.hist.failed
  marked : AllMarked m → AllMarked m'

/-- What a segment of the task does to the rest of the chain. -/
structure KeepsMarks (m m' : Mem) : Prop where
  taskStack : m'.el.taskStack = m.el.taskStack
  ports : SamePorts m m'
  marked : ∀ h ∉ m.el.outputs, (m.rings h).Marked → (m'.rings h).Marked

/-- What an update of a handler does that is no `rb_reset`. -/
@[mk_iff]
structure NoReset (m m' : Mem) : Prop where
  taskStack : m'.el.taskStack = m.el.taskStack
  ports : SamePorts m m'
  failed : m'.hist.failed = m.hist.failed
  marked : ∀ h, (m.rings h).Marked → (m'.rings h).Marked

/-- The task of an element that fails in its process step only with its output marked. -/
def failureSpec : TaskSpec where
  rely o m m' := Aside m m' ∧ ∀ v, o = some (.process, v) → ProcessFails v → AllMarked m'
  seg := KeepsMarks
  here _ _ _ := True
  rest _ := Announced
  idle := Announced
  left := Announced
  admits _ _ := True

section

variable {m m' m₁ : Mem}

theorem Aside.trans (h : Aside m m₁) (h' : Aside m₁ m') : Aside m m' where
  ports := h.ports.trans h'.ports
  failed := h'.failed.trans h.failed
  marked hm := h'.marked (h.marked hm)

theorem Aside.announced (h : Aside m m') (hm : Announced m) : Announced m' := by
  intro hfailed
  rw [h.failed] at hfailed
  exact h.marked (hm hfailed)

theorem KeepsMarks.refl (m : Mem) : KeepsMarks m m := ⟨rfl, SamePorts.refl m, fun _ _ => id⟩

theorem NoReset.allMarked (h : NoReset m m') (hm : AllMarked m) : AllMarked m' := by
  intro k hk
  rw [h.ports.outputs] at hk
  exact h.marked k (hm k hk)

theorem NoReset.announced (h : NoReset m m') (hm : Announced m) : Announced m' := by
  intro hfailed
  rw [h.failed] at hfailed
  exact h.allMarked (hm hfailed)

theorem NoReset.keepsMarks (h : KeepsMarks m m₁) (h' : NoReset m₁ m') : KeepsMarks m m' where
  taskStack := h'.taskStack.trans h.taskStack
  ports := h.ports.trans h'.ports
  marked k hk hm := h'.marked k (h.marked k hk hm)

theorem allMarked_onOutputs (f : Ringbuf → Ringbuf) (hf : ∀ rb, (f rb).Marked) (m : Mem) :
    AllMarked (m.onRings f m.el.outputs) := by
  intro k hk
  rw [onRings_el] at hk
  exact onRings_makes hf hk

end

section Does

attribute [local simp] does_ite noReset_iff samePorts_iff element setEl note callClose
  audioElementForceSetState audioElementReportStatus audioEventIfaceSetCmdWaitingTimeout
  xEventGroupSetBits xEventGroupClearBits audioElementProcessDeinit

theorem noReset_onRings (f : Ringbuf → Ringbuf) (hf : ∀ rb, (f rb).Marked) (hs : List ℕ)
    (m : Mem) : NoReset m (m.onRings f hs) := by
  refine ⟨by rw [onRings_el], ?_, by rw [onRings_hist], fun k hk => ?_⟩
  · rw [samePorts_iff, onRings_el]
    exact ⟨rfl, rfl, rfl, rfl⟩
  · exact onRings_keeps (fun rb _ => hf rb) hs hk

theorem noReset_taskCmd {cmd : AelCmd} (h : cmd ≠ .resume) :
    (audioElementTaskCmd cmd).Does NoReset fun _ => True := by
  cases cmd with
  | finish => simp [audioElementTaskCmd, audioElementOnCmd, audioElementOnCmdFinish]
  | stop => simp [audioElementTaskCmd, audioElementOnCmd, audioElementOnCmdStop]
  | pause => simp [audioElementTaskCmd, audioElementOnCmd]
  | resume => exact absurd rfl h
  | destroy => simp [audioElementTaskCmd, audioElementOnCmd]
  | other => simp [audioElementTaskCmd, audioElementOnCmd]

/-- The end of a command. -/
theorem noReset_taskCmdEnd (ret : ℤ) :
    (do
      if ret ≠ ESP_OK then
        xEventGroupSetBits .stopped
      return ret : ElProg ℤ).Does NoReset fun _ => True := by
  simp

/-- A process step that was aborted. -/
theorem noReset_aborted :
    (do
      let _ ← audioElementOnCmdStop
      return ESP_OK : ElProg ℤ).Does NoReset fun _ => True := by
  simp [audioElementOnCmdStop]

/-- A process step that has come to the end. -/
theorem noReset_finished :
    (do
      audioElementSetRingbufDone
      let _ ← audioElementOnCmdFinish
      return ESP_OK : ElProg ℤ).Does NoReset fun _ => True := by
  have hdone : ∀ m : Mem, NoReset m (m.onRings Ringbuf.doneWrite m.el.outputs) :=
    fun m => noReset_onRings Ringbuf.doneWrite (fun _ => marked_done) m.el.outputs m
  simp [audioElementSetRingbufDone, onOutputs, audioElementOnCmdFinish] at hdone ⊢
  exact hdone

/-- A process step that has failed. -/
theorem noReset_failed :
    (do
      audioElementReportStatus .errorProcess
      let _ ← audioElementOnCmdError
      return ESP_OK : ElProg ℤ).Does NoReset fun _ => True := by
  simp [audioElementOnCmdError]

theorem noReset_taskBegin : audioElementTaskBegin.Does NoReset fun _ => True := by
  simp [audioElementTaskBegin]

theorem noReset_taskEnd : audioElementTaskEnd.Does NoReset fun _ => True := by
  simp [audioElementTaskEnd]

theorem noReset_afterOpen (ret : ℤ) :
    (afterOpen ret).Does NoReset fun r => r = ESP_OK ∧ ¬OpenFails ret ∨ r = ESP_FAIL := by
  simp [afterOpen, audioElementOnCmdStop, audioElementOnCmdError, OpenFails]
  exact ⟨fun hok hne => absurd hok hne, fun _ hdone _ => hdone⟩

theorem noReset_resumeFailed :
    (do
      audioElementAbortInputRingbuf
      note fun m => { m.hist with openFailed := false }
      setEl fun el => { el with isRunning := false }
      return ESP_FAIL : ElProg ℤ).Does NoReset fun ret => ret = ESP_FAIL := by
  have habort : ∀ m : Mem, NoReset m (m.onRings Ringbuf.abort m.el.inputs) :=
    fun m => noReset_onRings Ringbuf.abort (fun _ => marked_abort) m.el.inputs m
  simp [audioElementAbortInputRingbuf, onInputs] at habort ⊢
  exact habort

theorem noReset_resumedBefore :
    (do
      setEl fun el => { el with isRunning := true }
      xEventGroupSetBits .resumed
      return ESP_OK : ElProg ℤ).Does NoReset fun ret => ret = ESP_OK := by
  simp

theorem noReset_resumed :
    (do
      audioEventIfaceSetCmdWaitingTimeout 0
      xEventGroupClearBits .stopped
      return ESP_OK : ElProg ℤ).Does NoReset fun ret => ret = ESP_OK := by
  simp

end Does

/-! ### The functions of the task -/

namespace failureSpec

variable {m s₀ s : Mem} {spot : Spot}

/-- A function that resets no ring buffer keeps the announcement, if there was one (`X`). -/
theorem noReset {α : Type} {p : ElProg α} {Q : α → Prop} {X : Prop} {b : Bool}
    (h : p.Does NoReset Q) (hseg : KeepsMarks s₀ s) (hs : X → Announced s) :
    wp failureSpec.rely (failureSpec.point spot)
      (fun a _ s₀ s => Q a ∧ KeepsMarks s₀ s ∧ (X → Announced s)) p b s₀ s := by
  refine wp_of_does (J := fun s₀ s => KeepsMarks s₀ s ∧ (X → Announced s)) ?_ ?_ ?_ ?_ p h
    ⟨hseg, hs⟩
  · rintro s₀ s s' ⟨hseg, hs⟩ hupd
    exact ⟨hupd.keepsMarks hseg, fun hx => hupd.announced (hs hx)⟩
  · rintro o s₀ s s' ⟨-, hs⟩ ⟨haside, -⟩
    exact ⟨KeepsMarks.refl s', fun hx => haside.announced (hs hx)⟩
  · rintro c s₀ s ⟨hseg, -⟩
    exact ⟨trivial, hseg⟩
  · rintro a b s₀ s hQ ⟨hseg, hs⟩
    exact ⟨hQ, hseg, hs⟩

/-- `audio_element_process_init` fails if `open` does. -/
theorem processInit (hseg : KeepsMarks s₀ s) (hs : Announced s) :
    wp failureSpec.rely (failureSpec.point spot)
      (fun ret _ s₀ s => (ret = ESP_OK ∨ ret = ESP_FAIL) ∧ KeepsMarks s₀ s ∧
        (ret = ESP_OK → Announced s))
      audioElementProcessInit true s₀ s := by
  unfold audioElementProcessInit
  rw [wp_bind, wp_element, commit_true]
  refine ⟨⟨trivial, hseg⟩, fun s₁ hR => ?_⟩
  have hs₁ : Announced s₁ := hR.1.announced hs
  rw [wp_ite]
  constructor
  · intro _
    have hinit : (do
        setEl fun el => { el with isOpen := true }
        xEventGroupSetBits .started
        return ESP_OK : ElProg ℤ).Does NoReset fun ret => ret = ESP_OK := by
      simp [setEl, xEventGroupSetBits, noReset_iff, samePorts_iff]
    refine wp_post _ ?_ (noReset (X := True) hinit (KeepsMarks.refl s₁) fun _ => hs₁)
    rintro ret b s₀ s ⟨rfl, hseg, hs⟩
    exact ⟨Or.inl rfl, hseg, fun _ => hs trivial⟩
  · intro _
    simp only [wp_bind, wp_setEl, wp_forceSetState, wp_callOpen, commit_false]
    refine ⟨⟨trivial, ⟨rfl, ⟨rfl, rfl, rfl, rfl⟩, fun _ _ => id⟩⟩, fun s₂ v hR₂ => ?_⟩
    have hs₂ : Announced s₂ := hR₂.1.announced hs₁
    refine wp_post _ ?_ (noReset (X := ¬OpenFails v) (noReset_afterOpen v) ?_ ?_)
    · rintro ret b s₀ s ⟨hret, hseg, hs⟩
      refine ⟨hret.imp And.left id, hseg, fun hok => hs ?_⟩
      rcases hret with ⟨-, hopen⟩ | rfl
      · exact hopen
      · exact absurd hok (by decide)
    · exact ⟨rfl, ⟨rfl, rfl, rfl, rfl⟩, fun _ _ => id⟩
    · intro hopen hfailed
      refine hs₂ ?_
      simpa [hopen] using hfailed

/-- The end of the `RESUME` handler announces that `open` has failed. -/
theorem afterProcessInit {ret : ℤ} {b : Bool}
    (hseg : KeepsMarks s₀ s) (hs : ret = ESP_OK → Announced s) :
    wp failureSpec.rely (failureSpec.point spot)
      (fun ret _ s₀ s => (ret = ESP_OK ∨ ret = ESP_FAIL) ∧ KeepsMarks s₀ s ∧ Announced s)
      (AudioPipeline.afterProcessInit ret) b s₀ s := by
  unfold AudioPipeline.afterProcessInit
  rw [wp_ite]
  constructor
  · intro _
    -- the output ring buffers are aborted first, and nothing undoes it
    have habort : ∀ s₀ s, KeepsMarks s₀ s →
        wp failureSpec.rely (failureSpec.point spot)
          (fun ret _ s₀ s => (ret = ESP_OK ∨ ret = ESP_FAIL) ∧ KeepsMarks s₀ s ∧ Announced s)
          (do
            audioElementAbortInputRingbuf
            note fun m => { m.hist with openFailed := false }
            setEl fun el => { el with isRunning := false }
            return ESP_FAIL : ElProg ℤ) false s₀ (s.onRings Ringbuf.abort s.el.outputs) := by
      intro s₀ s hseg
      have hmarked := allMarked_onOutputs Ringbuf.abort (fun _ => marked_abort) s
      have hupd := noReset_onRings Ringbuf.abort (fun _ => marked_abort) s.el.outputs s
      refine wp_post _ ?_ (noReset (X := True) noReset_resumeFailed (hupd.keepsMarks hseg)
        fun _ _ => hmarked)
      rintro ret b s₀ s ⟨rfl, hseg, hs⟩
      exact ⟨Or.inr rfl, hseg, hs trivial⟩
    rw [wp_bind, audioElementAbortOutputRingbuf, wp_onOutputs]
    cases b with
    | false => exact habort s₀ s hseg
    | true => exact ⟨⟨trivial, hseg⟩, fun s' _ => habort s' s' (KeepsMarks.refl s')⟩
  · intro hok
    have hann : Announced s := hs (not_not.mp hok)
    refine wp_post _ ?_ (noReset (X := True) noReset_resumed hseg fun _ => hann)
    rintro ret b s₀ s ⟨rfl, hseg, hs⟩
    exact ⟨Or.inl rfl, hseg, hs trivial⟩

/-- **`audio_element_on_cmd_resume`** resets the output ring buffers only where there is no failure
to announce: the `RESUME` has just begun, or the element is in `AEL_STATE_INIT`. -/
theorem resume (hseg : KeepsMarks s₀ s) (hs : Announced s)
    (hfresh : s.hist.failed = false ∨ s.el.state = .init) :
    wp failureSpec.rely (failureSpec.point spot)
      (fun ret _ s₀ s => (ret = ESP_OK ∨ ret = ESP_FAIL) ∧ KeepsMarks s₀ s ∧ Announced s)
      audioElementOnCmdResume false s₀ s := by
  have hopen : ∀ s₀ s, KeepsMarks s₀ s → Announced s →
      wp failureSpec.rely (failureSpec.point spot)
        (fun ret _ s₀ s => (ret = ESP_OK ∨ ret = ESP_FAIL) ∧ KeepsMarks s₀ s ∧ Announced s)
        (do
          setEl fun el => { el with isRunning := true }
          xEventGroupSetBits .resumed
          let ret ← audioElementProcessInit
          AudioPipeline.afterProcessInit ret : ElProg ℤ) false s₀ s := by
    intro s₀ s hseg hs
    simp only [wp_bind, wp_setEl, wp_setBits, commit_false]
    have hupd : NoReset s s.resumed := ⟨rfl, ⟨rfl, rfl, rfl, rfl⟩, rfl, fun _ => id⟩
    refine wp_post _ ?_ (processInit (hupd.keepsMarks hseg) (hupd.announced hs))
    rintro ret b s₀ s ⟨-, hseg, hs⟩
    exact afterProcessInit hseg hs
  unfold audioElementOnCmdResume
  rw [wp_bind, wp_element, commit_false, wp_ite]
  constructor
  · intro _
    refine wp_post _ ?_ (noReset (X := True) noReset_resumedBefore hseg fun _ => hs)
    rintro ret b s₀ s ⟨rfl, hseg, hs⟩
    exact ⟨Or.inl rfl, hseg, hs trivial⟩
  · intro _
    rw [wp_ite]
    constructor
    · rintro ⟨hinit, -⟩
      have hfailed : s.hist.failed = false := hfresh.resolve_right hinit
      rw [wp_bind, audioElementResetOutputRingbuf, wp_onOutputs, commit_false]
      refine hopen s₀ _ ⟨?_, ?_, fun k hk hm => ?_⟩ fun hf => ?_
      · rw [onRings_el]
        exact hseg.taskStack
      · rw [samePorts_iff, onRings_el, ← samePorts_iff]
        exact hseg.ports
      · -- the ring buffers of the others are not touched
        rw [← hseg.ports.outputs] at hk
        rw [onRings_rings s rbReset s.el.outputs hk]
        rw [hseg.ports.outputs] at hk
        exact hseg.marked k hk hm
      · rw [onRings_hist, hfailed] at hf
        cases hf
    · intro _
      exact hopen s₀ s hseg hs

theorem cmd (c : AelCmd) {queue : List AelCmd} (h : Announced m) :
    wp failureSpec.rely (failureSpec.point (.cmd c)) (failureSpec.afterCmd c)
      (audioElementTaskCmd c) false m (Task.receive m c queue) := by
  have hafter : ∀ ret b s₀ s, KeepsMarks s₀ s → Announced s →
      failureSpec.afterCmd c ret b s₀ s := by
    intro ret b s₀ s hseg hs
    have hupd : NoReset s (Task.handled s) := ⟨rfl, ⟨rfl, rfl, rfl, rfl⟩, rfl, fun _ => id⟩
    refine ⟨?_, hupd.keepsMarks hseg⟩
    split_ifs <;> exact hs
  by_cases hc : c = .resume
  · subst hc
    have hseg : KeepsMarks m (Task.receive m .resume queue) :=
      ⟨rfl, ⟨rfl, rfl, rfl, rfl⟩, fun _ _ => id⟩
    have hfailed : (Task.receive m .resume queue).hist.failed = false := rfl
    have hann : Announced (Task.receive m .resume queue) := by
      intro hf
      rw [hfailed] at hf
      exact nomatch hf
    unfold audioElementTaskCmd audioElementOnCmd
    rw [wp_bind]
    refine wp_post _ ?_ (resume hseg hann (Or.inl hfailed))
    rintro ret b s₀ s ⟨-, hseg, hs⟩
    refine wp_post _ ?_ (noReset (X := True) (noReset_taskCmdEnd ret) hseg fun _ => hs)
    rintro ret b s₀ s ⟨-, hseg, hs⟩
    exact hafter ret b s₀ s hseg (hs trivial)
  · have hfailed : (Task.receive m c queue).hist.failed = m.hist.failed := by
      simp only [Task.receive, if_neg hc]
    have hann : Announced (Task.receive m c queue) := by
      intro hf
      rw [hfailed] at hf
      exact h hf
    refine wp_post _ ?_ (noReset (X := True) (noReset_taskCmd hc)
      ⟨rfl, ⟨rfl, rfl, rfl, rfl⟩, fun _ _ => id⟩ fun _ => hann)
    rintro ret b s₀ s ⟨-, hseg, hs⟩
    exact hafter ret b s₀ s hseg (hs trivial)

/-- The process callback has returned, and a failure of it is announced already. -/
theorem processed (processLen : ℤ) (hseg : KeepsMarks s₀ s) (hs : Announced s) :
    wp failureSpec.rely (failureSpec.point .proc) failureSpec.afterRest
      (audioElementProcessed processLen) false s₀ s := by
  have hquiet : ∀ {p : ElProg ℤ} {s₀ s : Mem}, p.Does NoReset (fun _ => True) →
      KeepsMarks s₀ s → Announced s →
      wp failureSpec.rely (failureSpec.point .proc) failureSpec.afterRest p false s₀ s := by
    intro p s₀ s hp hseg hs
    refine wp_post _ ?_ (noReset (X := True) hp hseg fun _ => hs)
    rintro ret b s₀ s ⟨-, hseg, hs⟩
    exact ⟨hs trivial, hseg⟩
  unfold audioElementProcessed
  rw [wp_ite]
  refine ⟨fun _ => ⟨hs, hseg⟩, fun _ => ?_⟩
  rw [wp_ite]
  refine ⟨fun _ => hquiet noReset_aborted hseg hs, fun _ => ?_⟩
  rw [wp_ite]
  constructor
  · intro _
    rw [wp_bind, wp_element, commit_false, wp_ite]
    refine ⟨fun hinit => ?_, fun _ => hquiet noReset_finished hseg hs⟩
    refine wp_post _ ?_ (resume hseg hs (Or.inr hinit))
    rintro ret b s₀ s ⟨-, hseg, hs⟩
    exact ⟨hs, hseg⟩
  · intro _
    rw [wp_ite]
    exact ⟨fun _ => hquiet noReset_failed hseg hs, fun _ => ⟨hs, hseg⟩⟩

theorem proc {last : Option (AelCmd × ℤ)} (h : failureSpec.rest last m) :
    wp failureSpec.rely (failureSpec.point .proc) failureSpec.afterRest
      audioElementProcessRunning false m m := by
  rw [wp_processRunning, wp_callProcess]
  refine ⟨fun _ => ⟨h, KeepsMarks.refl m⟩, fun _ => ⟨⟨trivial, ?_⟩, fun m' v hR => ?_⟩⟩
  · exact ⟨rfl, ⟨rfl, rfl, rfl, rfl⟩, fun _ _ => id⟩
  · have hann : Announced m' := hR.1.announced h
    refine processed v ⟨rfl, ⟨rfl, rfl, rfl, rfl⟩, fun _ _ => id⟩ fun hfailed => ?_
    rcases Bool.or_eq_true_iff.mp hfailed with hfailed | hfails
    · exact hann hfailed
    · exact hR.2 v rfl (of_decide_eq_true hfails)

theorem begin (h : failureSpec.idle m) :
    wp failureSpec.rely (failureSpec.point .begin) failureSpec.afterRest audioElementTaskBegin
      false m { m with el := { m.el with threadCreated := false } } := by
  refine wp_post _ ?_ (noReset (X := True) noReset_taskBegin
    ⟨rfl, ⟨rfl, rfl, rfl, rfl⟩, fun _ _ => id⟩ fun _ => h)
  rintro ret b s₀ s ⟨-, hseg, hs⟩
  exact ⟨hs trivial, hseg⟩

theorem ending (h : failureSpec.left m) :
    wp failureSpec.rely (failureSpec.point .ending) failureSpec.afterEnd audioElementTaskEnd
      false m m := by
  refine wp_post _ ?_ (noReset (X := True) noReset_taskEnd (KeepsMarks.refl m) fun _ => h)
  rintro ret b s₀ s ⟨-, hseg, hs⟩
  exact ⟨hs trivial, hseg⟩

theorem valid : failureSpec.Valid where
  rely_trans h h' := ⟨h.1.trans h'.1, h'.2⟩
  seg_refl := KeepsMarks.refl
  here_stable _ _ := trivial
  rest_stable h hR := hR.1.announced h
  idle_stable h hR := hR.1.announced h
  left_stable h hR := hR.1.announced h
  begin := begin
  cmd h _ _ _ := cmd _ h
  proc := proc
  leave h _ := h
  ending := ending

theorem compatible : Compatible failureSpec apiSpec fun _ => True where
  task := valid
  calls _ h := wp_api _ h
  task_rely _ h := h
  ctl_rely := by
    intro api o m m' _ h
    refine ⟨⟨h.ports, by rw [h.hist], fun hm k hk => ?_⟩, nofun⟩
    rw [h.ports.outputs] at hk
    exact h.marked k (hm k hk)
  note_rely api m := by
    refine ⟨⟨?_, ?_, fun hm k hk => ?_⟩, nofun⟩
    · rw [samePorts_iff, noted_el]
      exact ⟨rfl, rfl, rfl, rfl⟩
    · unfold ElSys.noted
      split_ifs <;> rfl
    · rw [noted_el] at hk
      rw [noted_rings]
      exact hm k hk

end failureSpec

/-! ### Elements without a task -/

/-- There is no thread, and there will be none. -/
def NoTask (m : Mem) : Prop := m.el.taskStack ≤ 0 ∧ m.el.threadCreated = false

/-- What a call does to such an element. -/
structure TasklessSeg (m m' : Mem) : Prop where
  noTask : NoTask m'
  ports : SamePorts m m'
  failed : m'.hist.failed = m.hist.failed
  marked : ∀ h, (m.rings h).Marked → (m'.rings h).Marked

/-- The control functions of an element without a task. -/
def tasklessSpec : CtlSpec where
  pre _ := NoTask
  rely _ _ := NoTask
  seg _ _ := TasklessSeg

namespace tasklessSpec

variable {m s₀ s : Mem}

/-- An update that creates no thread either. -/
@[mk_iff]
structure NoThread (m m' : Mem) : Prop where
  noReset : NoReset m m'
  created : m'.el.threadCreated = m.el.threadCreated

theorem of_does {api : ElApi} {p : ElProg ℤ} {b : Bool} (h : p.Does NoThread fun _ => True)
    (hseg : TasklessSeg s₀ s) :
    wp (fun _ => tasklessSpec.rely api) (fun _ => tasklessSpec.seg api none)
      (fun v _ => tasklessSpec.seg api (some v)) p b s₀ s := by
  refine wp_of_does (J := TasklessSeg) ?_ ?_ (fun _ _ _ h => h) (fun _ _ _ _ _ h => h) p h hseg
  · rintro s₀ s s' ⟨⟨hstack, hcreated⟩, hports, hfailed, hmarked⟩ ⟨hupd, hcreated'⟩
    refine ⟨⟨hupd.taskStack.trans_le hstack, hcreated'.trans hcreated⟩, hports.trans hupd.ports,
      hupd.failed.trans hfailed, fun h hm => hupd.marked h (hmarked h hm)⟩
  · exact fun o s₀ s s' _ hno => ⟨hno, SamePorts.refl s', rfl, fun _ => id⟩

section

attribute [local simp] does_ite noThread_iff noReset_iff samePorts_iff element setEl
  audioElementForceSetState audioElementReportStatus audioEventIfaceSetCmdWaitingTimeout
  xEventGroupSetBits xEventGroupClearBits xEventGroupWaitBits audioElementCmdSend

theorem does_api {api : ElApi} (h : api ≠ .run) : api.prog.Does NoThread fun _ => True := by
  have habort : ∀ (hs : List ℕ) (m : Mem), NoReset m (m.onRings Ringbuf.abort hs) :=
    noReset_onRings Ringbuf.abort fun _ => marked_abort
  cases api with
  | run => exact absurd rfl h
  | pause => simp [ElApi.prog, audioElementPause]
  | resume threshold =>
    have hwait : ∀ m : Mem, (waitForThreshold threshold m).Does NoThread fun _ => True := by
      intro m
      unfold waitForThreshold
      split
      · simp [audioElementWaitForBuffer]
      · simp
    simp [ElApi.prog, audioElementResume, waitForThreshold] at hwait ⊢
    intro _ _ _ _ _ _ _ _ _ _ _
    exact ⟨fun _ => hwait, fun _ _ _ => hwait⟩
  | stop =>
    simp [ElApi.prog, audioElementStop, audioElementAbortOutputRingbuf, onOutputs,
      audioElementAbortInputRingbuf, onInputs] at habort ⊢
    exact fun _ _ _ => ⟨fun m => habort m.el.outputs m, fun m => habort m.el.inputs m⟩
  | waitForStopMs => simp [ElApi.prog, audioElementWaitForStopMs]
  | changeCmd cmd => simp [ElApi.prog]
  | resetState => simp [ElApi.prog, audioElementResetState]
  | terminate => simp [ElApi.prog, audioElementTerminate]

end

theorem TasklessSeg.refl (h : NoTask m) : TasklessSeg m m :=
  ⟨h, SamePorts.refl m, rfl, fun _ => id⟩

/-- `audio_element_run` creates a thread only for an element with a task. -/
theorem run (h : NoTask m) :
    wp (fun _ => tasklessSpec.rely .run) (fun _ => tasklessSpec.seg .run none)
      (fun v _ => tasklessSpec.seg .run (some v)) audioElementRun false m m := by
  refine wp_elementRun (fun _ => ?_) (fun _ => ?_) (fun _ s' hs hstack => ?_) (fun _ s' hs _ => ?_)
  · exact TasklessSeg.refl h
  · exact ⟨h, ⟨rfl, rfl, rfl, rfl⟩, rfl, fun _ => id⟩
  · exact absurd hstack (not_lt.mpr hs.1)
  · exact ⟨hs, ⟨rfl, rfl, rfl, rfl⟩, rfl, fun _ => id⟩

/-- **Every control function** leaves an element without a task as it should. -/
theorem calls (api : ElApi) (h : NoTask m) :
    wp (fun _ => tasklessSpec.rely api) (fun _ => tasklessSpec.seg api none)
      (fun v _ => tasklessSpec.seg api (some v)) api.prog false m m := by
  by_cases hrun : api = .run
  · subst hrun
    exact run h
  · exact of_does (does_api hrun) (TasklessSeg.refl h)

end tasklessSpec

/-- An element without a task. -/
structure Taskless (e : ElSys) : Prop where
  task : e.task = .absent
  noTask : NoTask e.m
  failed : e.m.hist.failed = false
  ctl : CtlOk tasklessSpec (fun _ => True) e.ctl e.m

/-- **A step of an element without a task.** -/
theorem Taskless.step {e e' : ElSys} {l : ElLabel} (h : Taskless e) (hs : e.step l = some e') :
    Taskless e' ∧ TasklessSeg e.m e'.m := by
  cases l with
  | call api =>
    have hnoted : TasklessSeg e.m (e.noteCall api).m := by
      show TasklessSeg e.m (ElSys.noted api e.m)
      unfold ElSys.noted
      split_ifs
      · exact ⟨h.noTask, ⟨rfl, rfl, rfl, rfl⟩, rfl, fun _ => id⟩
      · exact tasklessSpec.TasklessSeg.refl h.noTask
    obtain ⟨hctl, o, hc⟩ := CtlOk.call (A := fun _ => True) trivial
      (tasklessSpec.calls api hnoted.noTask) hs
    have hseg : TasklessSeg (e.noteCall api).m e'.m := hc.seg
    refine ⟨⟨hc.task.trans h.task, hseg.noTask, ?_, hctl⟩, hseg.noTask,
      hnoted.ports.trans hseg.ports, hseg.failed.trans hnoted.failed,
      fun k hk => hseg.marked k (hnoted.marked k hk)⟩
    exact hseg.failed.trans (hnoted.failed.trans h.failed)
  | ctl =>
    obtain ⟨hctl, api, p, o, -, -, hc⟩ := h.ctl.ctl (fun _ _ _ => h.noTask) hs
    have hseg : TasklessSeg e.m e'.m := hc.seg
    exact ⟨⟨hc.task.trans h.task, hseg.noTask, hseg.failed.trans h.failed, hctl⟩, hseg⟩
  | task v =>
    have hcreated : e.m.el.threadCreated = false := h.noTask.2
    simp [ElSys.step, h.task, Task.step, hcreated] at hs

/-- **The others** change no more than the rings. -/
theorem Taskless.others {e : ElSys} (h : Taskless e) (rings : ℕ → Ringbuf) :
    Taskless { e with m := { e.m with rings := rings } } := by
  refine ⟨h.task, h.noTask, h.failed, ?_⟩
  have hc := h.ctl
  dsimp only
  cases hctl : e.ctl with
  | idle => trivial
  | calling api p =>
    rw [hctl] at hc
    exact ⟨hc.1, hc.2.rely fun _ _ h => h⟩

/-! ### The chain -/

namespace Chain

variable {n : ℕ} {s s' : Chain n}

/-- A process callback that fails has had its output marked. -/
def FailsMarked (s : Chain n) : ChainLabel n → Prop
  | .el i (.task v) => (s.cell i).task.answer v = some (.process, v) → ProcessFails v →
    ∀ h ∈ (s.cell i).m.el.outputs, (s.ring h).sys.rb.Marked
  | _ => True

instance (s : Chain n) : DecidablePred (FailsMarked s)
  | .el _ (.task _) => inferInstanceAs (Decidable (_ → _ → ∀ h ∈ _, _))
  | .el _ (.call _) | .el _ .ctl | .ring .. => isTrue trivial

/-- Failures go down the chain: an element that has failed since its last `RESUME` has its output
marked, so that the next one does not wait for data when the ring between them is drained. -/
structure Propagates (s : Chain n) : Prop where
  marked : ∀ i, (s.cell i).task.Between → (s.cell i).m.hist.failed = true →
    ∀ h ∈ (s.cell i).m.el.outputs, (s.ring h).sys.rb.Marked
  wakes : ∀ i j : Fin n, j.val = i.val + 1 → (s.cell i).task.Between →
    (s.cell i).m.hist.failed = true →
    ∃ h, (s.cell j).m.el.input.handle = some h ∧
      ((s.ring h).sys.rb.fillCnt = 0 → (s.ring h).sys.rb.Wakes)

/-- What holds of the chain: each element is as its specification says, with the ports that it was
linked to. -/
structure FailInv (config : Fin n → AudioElementCfg) (rings : ℕ → Ringbuf) (s : Chain n) :
    Prop where
  cell : ∀ i, CellOk failureSpec (fun _ => True) (s.view i) ∨ Taskless (s.view i)
  ports : ∀ i, SamePorts ((link config rings).cell i).m (s.cell i).m

variable {config : Fin n → AudioElementCfg} {rings : ℕ → Ringbuf}

/-- The only output ring buffer of element `i` is `i`. -/
theorem FailInv.outputs (h : FailInv config rings s) {i : Fin n} {k : ℕ}
    (hk : k ∈ (s.cell i).m.el.outputs) : k = i := by
  rw [(h.ports i).outputs, outputs_link] at hk
  split_ifs at hk
  · exact List.mem_singleton.mp hk
  · exact absurd hk List.not_mem_nil

/-- The ring between two elements. -/
theorem FailInv.between (h : FailInv config rings s) {i j : Fin n} (hij : j.val = i.val + 1) :
    i.val ∈ (s.cell i).m.el.outputs ∧ (s.cell j).m.el.input.handle = some i.val := by
  have hlt : i.val + 1 < n := hij ▸ j.isLt
  constructor
  · rw [(h.ports i).outputs, outputs_link, if_pos hlt]
    exact List.mem_singleton.mpr rfl
  · rw [(h.ports j).input, input_link, if_pos (by omega), hij, Nat.add_sub_cancel]

theorem FailInv.init : FailInv config rings (link config rings) where
  cell i := by
    by_cases htask : 0 < ((link config rings).cell i).m.el.taskStack
    · exact Or.inl ⟨⟨fun hf => (nomatch hf), trivial⟩, htask⟩
    · exact Or.inr ⟨rfl, ⟨not_lt.mp htask, rfl⟩, rfl, trivial⟩
  ports i := SamePorts.refl _

/-- The rings have changed, but no mark on the output of element `i` was cleared. -/
theorem FailInv.others (h : FailInv config rings s) {i : Fin n} {rings' : ℕ → Ringbuf}
    (hmarked : (s.ring i).sys.rb.Marked → (rings' i).Marked) :
    CellOk failureSpec (fun _ => True)
        { s.view i with m := { (s.view i).m with rings := rings' } } ∨
      Taskless { s.view i with m := { (s.view i).m with rings := rings' } } := by
  rcases h.cell i with hok | hless
  · refine Or.inl (hok.others failureSpec.compatible ⟨⟨⟨rfl, rfl, rfl, rfl⟩, rfl, ?_⟩, nofun⟩)
    intro hall k hk
    obtain rfl := h.outputs hk
    exact hmarked (hall _ hk)
  · exact Or.inr (hless.others rings')

theorem answer_eq {t : Task} {v v' : ℤ} {c : Callback} (h : t.answer v = some (c, v')) :
    v' = v := by
  have hpoint : ∀ {α : Type} {p : Point Mem Callback α}, p.answer v = some (c, v') → v' = v := by
    intro α p hp
    cases p with
    | done | cut => exact nomatch hp
    | call c k => exact (Prod.mk.inj (Option.some.inj hp)).2.symm
  cases t with
  | absent | recv | proc | leave => exact nomatch h
  | begin p | ending p | inCmd cmd p | inProc p => exact hpoint h

/-- A step of element `i` itself: it keeps its ports, and the marks on what others write to. -/
theorem FailInv.own (h : FailInv config rings s) {i : Fin n} {l : ElLabel}
    (hl : s.FailsMarked (.el i l)) {e : ElSys} (he : (s.view i).step l = some e) :
    (CellOk failureSpec (fun _ => True) e ∨ Taskless e) ∧ SamePorts (s.view i).m e.m ∧
      ∀ k, k ≠ i.val → (s.ring k).sys.rb.Marked → (e.m.rings k).Marked := by
  rcases h.cell i with hok | hless
  · have htakes : failureSpec.Takes (fun _ => True) (s.view i) l := by
      cases l with
      | call api | ctl => trivial
      | task v =>
        refine ⟨⟨⟨SamePorts.refl _, rfl, id⟩, fun v' hv hfails => ?_⟩, fun _ _ _ _ _ => trivial⟩
        obtain rfl := answer_eq hv
        exact hl hv hfails
    obtain ⟨hok', hseg⟩ := hok.step failureSpec.compatible KeepsMarks.taskStack htakes he
    refine ⟨Or.inl hok', ?_⟩
    rcases hseg with ⟨-, hseg⟩ | ⟨api, m₀, -, hm₀, hseg⟩
    · refine ⟨hseg.ports, fun k hk => hseg.marked k fun hmem => hk (h.outputs hmem)⟩
    · have hnoted : m₀.el = (s.view i).m.el ∧ m₀.rings = (s.view i).m.rings := by
        rcases hm₀ with rfl | rfl
        · exact ⟨rfl, rfl⟩
        · exact ⟨noted_el .., noted_rings ..⟩
      have hports := hseg.ports
      rw [samePorts_iff, hnoted.1, ← samePorts_iff] at hports
      refine ⟨hports, fun k _ hm => hseg.marked k ?_⟩
      rw [hnoted.2]
      exact hm
  · obtain ⟨hless', hseg⟩ := hless.step he
    exact ⟨Or.inr hless', hseg.ports, fun k _ => hseg.marked k⟩

/-- **Every step keeps it.** -/
theorem FailInv.step {l : ChainLabel n} (h : FailInv config rings s) (hl : s.FailsMarked l)
    (hs : s.step l = some s') : FailInv config rings s' := by
  cases l with
  | el i l =>
    obtain ⟨e, he, rfl⟩ := stepEl_some hs
    obtain ⟨hcell, hports, hmarked⟩ := h.own hl he
    constructor
    · intro j
      by_cases hij : j = i
      · subst hij
        rw [view_put_self]
        exact hcell
      · rw [view_put_ne hij]
        exact h.others (hmarked j fun hv => hij (Fin.ext hv))
    · intro j
      by_cases hij : j = i
      · subst hij
        have hcell' : (s.put j e).cell j = e := Function.update_self ..
        rw [hcell']
        exact (h.ports j).trans ⟨hports.input, hports.output, hports.multiIn, hports.multiOut⟩
      · have hcell' : (s.put i e).cell j = s.cell j := Function.update_of_ne hij ..
        rw [hcell']
        exact h.ports j
  | ring k l =>
    obtain ⟨hadmits, ring, hring, rfl⟩ := ring_some hs
    obtain ⟨sys, hsys, rfl⟩ := Option.map_eq_some_iff.mp hring
    refine ⟨fun i => h.others fun hm => ?_, h.ports⟩
    have hreset : l ≠ .reset := by
      rintro rfl
      exact nomatch hadmits
    show (Function.update s.ring k _ i.val).sys.rb.Marked
    by_cases hik : i.val = k
    · subst hik
      rw [Function.update_self]
      exact RbSys.step_marked hsys hreset hm
    · rw [Function.update_of_ne hik]
      exact hm

/-- What holds of the elements is what the chain promises. -/
theorem FailInv.propagates (h : FailInv config rings s) : s.Propagates := by
  have hmarked : ∀ i, (s.cell i).task.Between → (s.cell i).m.hist.failed = true →
      ∀ k ∈ (s.cell i).m.el.outputs, (s.ring k).sys.rb.Marked := by
    intro i hb hfailed
    rcases h.cell i with hok | hless
    · have hrest : TaskOk failureSpec (s.cell i).task (s.view i).m := hok.1.1
      have hann : Announced (s.view i).m := by
        cases ht : (s.cell i).task with
        | recv | proc =>
          rw [ht] at hrest
          exact hrest
        | _ => rw [ht] at hb; exact hb.elim
      exact hann hfailed
    · exact absurd (hfailed.symm.trans hless.failed) (by decide)
  refine ⟨hmarked, fun i j hij hb hfailed => ?_⟩
  obtain ⟨hmem, hinput⟩ := h.between hij
  exact ⟨i.val, hinput, (hmarked i hb hfailed i.val hmem).wakes⟩

end Chain

/-- **A failure goes down the chain** as long as every process callback that fails has had its
output marked: whenever `open` or `process` of an element has failed since its last `RESUME`, each
of its output ring buffers is marked done or aborted once the step of the task is over, and an
`rb_read` of the next element that finds the ring drained returns instead of waiting. -/
theorem failure_propagates {n : ℕ} {config : Fin n → AudioElementCfg} {rings : ℕ → Ringbuf}
    {s : Chain n} (h : Lts.Reach Chain.step Chain.FailsMarked (Chain.link config rings) s) :
    s.Propagates := by
  have hinv : Chain.FailInv config rings s := by
    refine h.invariant Chain.FailInv.init ?_
    intro s l s' h hl hs
    exact h.step hl hs
  exact hinv.propagates

/-- An element that is resumed, and fails to open. -/
theorem failure_propagates_open :
    ∃ s : Chain 2, Lts.Reach Chain.step Chain.FailsMarked
        (Chain.link (fun _ => plainCfg) fun _ => Ringbuf.empty 4) s ∧
      (s.cell 0).m.hist.failed = true ∧ s.Propagates := by
  obtain ⟨s, hs⟩ : ∃ s, Lts.run Chain.step Chain.FailsMarked
      (Chain.link (fun _ => plainCfg) fun _ => Ringbuf.empty 4 : Chain 2)
      (List.map (ChainLabel.el 0) (started ++ [.call (.changeCmd .resume), .task 0, .task 0,
        .task (-1), .task 0, .task 0])) = some s :=
    ⟨_, rfl⟩
  have hr := Lts.Reach.of_run _ Lts.Reach.refl hs
  refine ⟨s, hr, ?_, failure_propagates hr⟩
  obtain rfl := Option.some.inj hs
  rfl

/-- An element whose process callback returns `AEL_IO_FAIL`. -/
theorem failure_stops :
    ¬∀ (config : Fin 2 → AudioElementCfg) (rings : ℕ → Ringbuf) (s : Chain 2),
      Lts.Reach Chain.step (fun _ _ => True) (Chain.link config rings) s → s.Propagates := by
  intro hall
  obtain ⟨s, hs⟩ : ∃ s, Lts.run Chain.step (fun _ _ => True)
      (Chain.link (fun _ => plainCfg) fun _ => Ringbuf.empty 4 : Chain 2)
      (List.map (ChainLabel.el 0) (started ++ [.call (.changeCmd .resume), .task 0, .task 0,
        .task 0, .task 0, .task 0, .task AEL_IO_FAIL, .task 0])) = some s :=
    ⟨_, rfl⟩
  have hmarked := (hall _ _ s (Lts.Reach.of_run _ Lts.Reach.refl hs)).marked 0
  obtain rfl := Option.some.inj hs
  exact absurd (hmarked trivial rfl 0 (List.mem_singleton.mpr rfl)) (by decide)

end AudioPipeline
