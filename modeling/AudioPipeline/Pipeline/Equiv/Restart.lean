import AudioPipeline.Element.Equiv.CleanStart
import AudioPipeline.Pipeline.Equiv.Running
import AudioPipeline.Pipeline.Restart

/-!
# A stopped pipeline does not start afresh

`audio_pipeline_wait_for_stop` puts each element that has stopped back into `AEL_STATE_INIT`, in
which the `RESUME` handler does not reset its output ring buffers: they are still aborted when the
element calls `process` again (`not_starts_clean`).  `RestartSys.RestartsAfresh` says in which runs
they are not: `starts_clean`.
-/

namespace AudioPipeline

open Prog

/-! ### The application -/

/-- What a control function does to an element; `stops` says that it may abort its ring buffers. -/
@[mk_iff]
structure Controls (stops : Prop) (m m' : Mem) : Prop where
  ports : SamePorts m m'
  hist : m'.hist = m.hist
  rings : ¬stops → m'.rings = m.rings

section

attribute [local simp] does_ite controls_iff samePorts_iff element setEl
  audioElementForceSetState audioElementReportStatus audioEventIfaceSetCmdWaitingTimeout
  xEventGroupSetBits xEventGroupClearBits xEventGroupWaitBits audioElementCmdSend

theorem controls_api (api : ElApi) : api.prog.Does (Controls (api = .stop)) fun _ => True := by
  cases api with
  | run => simp [ElApi.prog, audioElementRun, audioEventIfaceDiscard]
  | pause => simp [ElApi.prog, audioElementPause]
  | resume threshold =>
    have hwait : ∀ m : Mem, (waitForThreshold threshold m).Does
        (Controls (ElApi.resume threshold = .stop)) fun _ => True := by
      intro m
      unfold waitForThreshold
      split
      · simp [audioElementWaitForBuffer]
      · simp
    simp [ElApi.prog, audioElementResume, waitForThreshold] at hwait ⊢
    intro _ _ _ _ _ _ _ _ _ _ _
    exact ⟨fun _ => hwait, fun _ _ _ => hwait⟩
  | stop =>
    simp [ElApi.prog, audioElementStop, audioElementAbortOutputRingbuf, onOutputs,
      audioElementAbortInputRingbuf, onInputs]
  | waitForStopMs => simp [ElApi.prog, audioElementWaitForStopMs]
  | changeCmd cmd => simp [ElApi.prog]
  | resetState => simp [ElApi.prog, audioElementResetState]
  | terminate => simp [ElApi.prog, audioElementTerminate]

end

/-- What a function of the pipeline does, if it aborts ring buffers only where `stops` holds. -/
def Outside (stops : Prop) (p p' : Pipe) : Prop :=
  ∀ e, (p'.cell e).task = (p.cell e).task ∧ Controls stops (p.cell e).m (p'.cell e).m

namespace Outside

variable {stops : Prop} {p p' p₁ : Pipe}

theorem of_cell (h : ∀ e, p'.cell e = p.cell e) : Outside stops p p' := by
  intro e
  rw [h e]
  exact ⟨rfl, SamePorts.refl _, rfl, fun _ => rfl⟩

theorem trans (h : Outside stops p p₁) (h' : Outside stops p₁ p') : Outside stops p p' := by
  intro e
  have ⟨ht, hc⟩ := h e
  have ⟨ht', hc'⟩ := h' e
  exact ⟨ht'.trans ht, hc.ports.trans hc'.ports, hc'.hist.trans hc.hist,
    fun hno => (hc'.rings hno).trans (hc.rings hno)⟩

/-- One element has been changed. -/
theorem put {e : ℕ} {c : Cell} (ht : c.task = (p.cell e).task)
    (hc : Controls stops (p.cell e).m c.m) : Outside stops p (p.put e c) := by
  intro e'
  by_cases he : e' = e
  · subst he
    rw [Pipe.cell_put_self]
    exact ⟨ht, hc⟩
  · rw [Pipe.cell_put_ne he]
    exact ⟨rfl, ⟨rfl, rfl, rfl, rfl⟩, rfl, hc.rings⟩

/-- A call of a control function. -/
theorem callEl (e : ℕ) {api : ElApi} (hstops : api = .stop → stops) :
    (callEl e api).Does (Outside stops) fun _ => True := by
  have hel : (onEl e api.prog).Does (Outside stops) fun _ => True := by
    unfold onEl Cell.code
    refine does_zoom (G := fun c c' => c'.task = c.task ∧ Controls stops c.m c'.m) ?_ _
      (does_zoom ?_ _ (controls_api api))
    · intro c p ⟨ht, hc⟩
      exact put ht hc
    · intro m c hc
      exact ⟨rfl, hc.ports, hc.hist, fun hno => hc.rings fun ha => hno (hstops ha)⟩
  unfold AudioPipeline.callEl
  simp only [does_bind, does_sync, does_modify, does_pure]
  refine ⟨fun _ => of_cell fun _ => rfl, does_post (fun v _ => ?_) _ hel⟩
  exact ⟨fun _ => of_cell fun _ => rfl, fun _ => of_cell fun _ => rfl, trivial⟩

theorem forLinked {body : ℕ → PipeProg ℤ} (hbody : ∀ e, (body e).Does (Outside stops) fun _ => True)
    (items : List ElementItem) (ret : ℤ) :
    (forLinked body ret items).Does (Outside stops) fun _ => True := by
  induction items generalizing ret with
  | nil => trivial
  | cons item items ih =>
    unfold AudioPipeline.forLinked
    rw [does_ite]
    refine ⟨fun _ => ?_, fun _ => ih ret⟩
    rw [does_bind]
    exact does_post (fun res _ => ih _) _ (hbody item.el)

theorem changeState (st : AelState) :
    (audioPipelineChangeState st).Does (Outside stops) fun _ => True :=
  ⟨fun _ => of_cell fun _ => rfl, trivial⟩

/-- A loop over the linked elements, and what comes after it. -/
theorem loop {body : ℕ → PipeProg ℤ} {f : ℤ → PipeProg ℤ}
    (hbody : ∀ e, (body e).Does (Outside stops) fun _ => True)
    (hf : ∀ ret, (f ret).Does (Outside stops) fun _ => True) (items : List ElementItem) (ret : ℤ) :
    (AudioPipeline.forLinked body ret items >>= f).Does (Outside stops) fun _ => True := by
  rw [does_bind]
  exact does_post (fun ret _ => hf ret) _ (forLinked hbody items ret)

theorem resume : audioPipelineResume.Does (Outside stops) fun _ => True := by
  unfold audioPipelineResume
  rw [does_bind, does_get]
  intro p
  refine loop (fun e => callEl e fun h => by cases h) (fun ret => ?_) _ _
  rw [does_bind]
  exact does_post (fun _ _ => trivial) _ (changeState .running)

theorem terminate : audioPipelineTerminate.Does (Outside stops) fun _ => True := by
  unfold audioPipelineTerminate
  rw [does_bind, does_get]
  intro p
  exact loop (fun e => callEl e fun h => by cases h) (fun _ => by trivial) _ _

theorem runStartable (e : ℕ) : (runStartable e).Does (Outside stops) fun _ => True := by
  unfold AudioPipeline.runStartable onEl element
  simp only [does_bind, does_sync]
  intro p
  show Does (Outside stops) (if (p.cell e).m.el.state.startable = true then
    AudioPipeline.callEl e .run else pure ESP_OK) fun _ => True
  rw [does_ite]
  exact ⟨fun _ => callEl e (fun h => by cases h), fun _ => trivial⟩

theorem run : audioPipelineRun.Does (Outside stops) fun _ => True := by
  unfold audioPipelineRun
  rw [does_bind, does_get]
  intro p
  rw [does_ite]
  refine ⟨fun _ => trivial, fun _ => loop runStartable (fun _ => ?_) _ _⟩
  rw [does_bind]
  refine does_post (fun ret _ => ?_) _ resume
  rw [does_ite]
  constructor
  · intro _
    rw [does_bind]
    refine does_post (fun _ _ => ?_) _ (changeState .error)
    rw [does_bind]
    exact does_post (fun _ _ => trivial) _ terminate
  · intro _
    rw [does_bind]
    exact does_post (fun _ _ => trivial) _ (changeState .running)

theorem waitOrReset (e : ℕ) : (waitOrReset e).Does (Outside stops) fun _ => True := by
  unfold AudioPipeline.waitOrReset
  rw [does_bind]
  refine does_post (fun res _ => ?_) _ (callEl e fun h => by cases h)
  rw [does_ite]
  refine ⟨fun _ => trivial, fun _ => ?_⟩
  rw [does_bind]
  exact does_post (fun _ _ => trivial) _ (callEl e fun h => by cases h)

/-- **Every function of the pipeline** but `audio_pipeline_stop` leaves the ring buffers alone. -/
theorem api (api : PipeApi) : api.prog.Does (Outside (api = .stop)) fun _ => True := by
  cases api with
  | run => exact run
  | pause =>
    unfold PipeApi.prog audioPipelinePause
    rw [does_bind, does_get]
    intro p
    exact loop (fun e => callEl e fun h => by cases h) (fun _ => by trivial) _ _
  | resume => exact resume
  | stop =>
    unfold PipeApi.prog audioPipelineStop
    rw [does_bind, does_get]
    intro p
    rw [does_ite]
    exact ⟨fun _ => trivial,
      fun _ => loop (fun e => callEl e fun _ => rfl) (fun _ => by trivial) _ _⟩
  | waitForStop =>
    unfold PipeApi.prog audioPipelineWaitForStop
    rw [does_bind, does_get]
    intro p
    rw [does_ite]
    refine ⟨fun _ => trivial, fun _ => loop waitOrReset (fun ret => ?_) _ _⟩
    rw [does_bind]
    exact does_post (fun _ _ => trivial) _ (changeState .init)
  | terminate => exact terminate

end Outside

/-! ### The condition -/

namespace Cell

/-- The next step of the task goes through `audio_element_on_cmd_resume`. -/
def Resumes (c : Cell) (v : ℤ) : Prop :=
  c.task.atHead = true ∧ c.m.el.taskRun = true ∧ c.m.el.queue.head? = some .resume ∨ c.Reopens v

/-- It goes through it after a restart, and in a state in which nothing is reset. -/
def SkipsReset (c : Cell) (v : ℤ) : Prop :=
  c.m.hist.restarted = true ∧ (c.m.el.state = .init ∨ c.m.el.state = .paused) ∧ c.Resumes v

/-- `open` has failed or is about to, and the ring buffers are still to be aborted. -/
def FailsToOpen (c : Cell) (v : ℤ) : Prop := c.m.hist.openFailed = true ∨ c.OpensInVain v

instance (c : Cell) : DecidablePred c.SkipsReset := fun _ =>
  inferInstanceAs (Decidable (_ ∧ _ ∧ (_ ∨ _)))

instance (c : Cell) : DecidablePred c.FailsToOpen := fun _ => inferInstanceAs (Decidable (_ ∨ _))

end Cell

namespace RestartSys

/-- Element `e` has been resumed since the restart and is still to call `process`. -/
def Starting (s : RestartSys) (e : ℕ) : Prop := (s.cell e).m.hist.starting = true

instance (s : RestartSys) : DecidablePred s.Starting := fun _ => inferInstanceAs (Decidable (_ = _))

/-- The callbacks read from a ring buffer and write to it, but nothing is written for an element
that has not called `process` yet; or the application resets it
(`audio_pipeline_reset_ringbuffer`). -/
def Honest (s : RestartSys) : PipeLabel → Prop
  | .io rb ring =>
    ring.Clean ∨ ring.abortRead = (s.sys.pipe.links.rings rb).abortRead ∧
      ring.abortWrite = (s.sys.pipe.links.rings rb).abortWrite ∧
      ring.isDoneWrite = (s.sys.pipe.links.rings rb).isDoneWrite ∧
      ∀ e ∈ s.fresh, s.Starting e → rb ∈ (s.cell e).m.el.outputs →
        ring.fillCnt ≤ (s.sys.pipe.links.rings rb).fillCnt
  | .links _ | .call _ | .ctl | .task _ _ => True

/-- After a restart an element is resumed in a state in which the handler resets its output ring
buffers, or they are clean.  While it starts, no other element writes to them, or reads from them
and fails to open, and the application neither stops the pipeline nor changes its links. -/
def RestartsAfresh (s : RestartSys) : PipeLabel → Prop
  | .task e v =>
    ((s.cell e).SkipsReset v → OutputsClean (s.cell e).m) ∧
      ∀ e' ∈ s.fresh, e' ≠ e → s.Starting e' → ∀ h ∈ (s.cell e').m.el.outputs,
        h ∉ (s.cell e).m.el.outputs ∧ ((s.cell e).FailsToOpen v → h ∉ (s.cell e).m.el.inputs)
  | .links _ => ∀ e ∈ s.fresh, ¬s.Starting e
  | .call api => api = .stop → ∀ e ∈ s.fresh, ¬s.Starting e
  | .ctl => s.sys.ctl.api = some .stop → ∀ e ∈ s.fresh, ¬s.Starting e
  | .io _ _ => True

instance (s : RestartSys) : DecidablePred s.Honest
  | .io _ _ => inferInstanceAs (Decidable (_ ∨ _ ∧ _ ∧ _ ∧ ∀ e ∈ s.fresh, _ → _ → _))
  | .links _ | .call _ | .ctl | .task _ _ => isTrue trivial

instance (s : RestartSys) : DecidablePred s.RestartsAfresh
  | .task _ _ => inferInstanceAs (Decidable (_ ∧ ∀ e ∈ s.fresh, _ → _ → ∀ h ∈ _, _ ∧ _))
  | .links _ => inferInstanceAs (Decidable (∀ e ∈ s.fresh, _))
  | .call _ | .ctl => inferInstanceAs (Decidable (_ → ∀ e ∈ s.fresh, _))
  | .io _ _ => isTrue trivial

/-- No element has called `process` for the first time after a restart with an output ring buffer
that was not empty, or was aborted or done. -/
def StartsClean (s : RestartSys) : Prop := ∀ e, (s.cell e).m.hist.startedDirty = false

/-! ### Every run -/

/-- **What holds at all times.** -/
structure Inv (s : RestartSys) : Prop where
  tasks : ∀ e, TaskOk cleanSpec (s.cell e).task (s.cell e).m
  fresh : ∀ e, (s.cell e).m.hist.restarted = true ∨ s.Starting e → e ∈ s.fresh
  ctl : ∀ api pt, s.sys.ctl = .calling api pt → pt.Does (Outside (api = .stop)) fun _ => True

end RestartSys

@[simp] theorem Pipe.cell_noteAt_self (p : Pipe) (e : ℕ) (f : History → History) :
    (p.noteAt e f).cell e =
      { p.cell e with m := { (p.cell e).m with hist := f (p.cell e).m.hist } } := by
  simp [Pipe.cell, Pipe.noteAt, Pipe.note, Cell.withRings]

theorem Pipe.cell_noteAt_ne {e e' : ℕ} (h : e' ≠ e) (p : Pipe) (f : History → History) :
    (p.noteAt e f).cell e' = p.cell e' := by
  simp [Pipe.cell, Pipe.noteAt, Pipe.note, Cell.withRings, h]

theorem Task.answer_eq {t : Task} {c : Callback} {v v' : ℤ} :
    t.answer v = some (c, v') ↔ t.callback = some c ∧ v' = v := by
  have hpoint : ∀ {α : Type} (p : Point Mem Callback α),
      p.answer v = some (c, v') ↔ p.callback = some c ∧ v' = v := by
    intro α p
    cases p <;> simp [Point.answer, Point.callback, eq_comm]
  cases t with
  | absent | recv | proc last | leave => simp [Task.answer, Task.callback]
  | begin p | ending p | inCmd cmd p | inProc p => exact hpoint p

/-- The others have not touched what the history says, and keep the outputs of an element that
starts clean. -/
theorem alongside_of {m m' : Mem} (hstarting : m'.hist.starting = m.hist.starting)
    (hdirty : m'.hist.startedDirty = m.hist.startedDirty)
    (hfailed : m'.hist.openFailed = m.hist.openFailed)
    (hclean : m.hist.starting = true → OutputsClean m → OutputsClean m') : Alongside none m m' where
  ready h := by
    refine ⟨fun hs => ?_, hdirty.trans h.started⟩
    rw [hstarting] at hs
    exact hclean hs (h.clean hs)
  starting hs := by
    rw [hstarting] at hs
    exact Or.inl hs
  failed hf := hfailed.trans hf
  opens v hv := by cases hv

namespace RestartSys

variable {s s' : RestartSys} {p : Pipe}

theorem Inv.noneStarts (h : s.Inv) (hl : ∀ e ∈ s.fresh, ¬s.Starting e) (e : ℕ) :
    (s.cell e).m.hist.starting = false :=
  Bool.eq_false_iff.mpr fun hst => hl e (h.fresh e (Or.inr hst)) hst

/-- The application goes on in its call, after what was noted. -/
theorem Inv.afterCtl {api : PipeApi} {r : Pipe × Point Pipe Callback ℤ} {phase : StopPhase}
    {fresh : List ℕ} (h : s.Inv) (htask : ∀ e, (p.cell e).task = (s.cell e).task)
    (hrely : ∀ e, Alongside none (s.cell e).m (p.cell e).m)
    (hfresh : ∀ e, (p.cell e).m.hist.restarted = true ∨ (p.cell e).m.hist.starting = true → e ∈ fresh)
    (hnone : api = .stop → ∀ e, (p.cell e).m.hist.starting = false)
    (hr : Outside (api = .stop) p r.1 ∧ r.2.Does (Outside (api = .stop)) fun _ => True) :
    Inv ⟨PipeSys.afterCtl api r, phase, fresh⟩ := by
  obtain ⟨p', pt⟩ := r
  obtain ⟨hout, hdoes⟩ := hr
  have hpipe : (PipeSys.afterCtl api (p', pt)).pipe = p' := by
    cases pt <;> rfl
  have hcell : ∀ e, RestartSys.cell ⟨PipeSys.afterCtl api (p', pt), phase, fresh⟩ e = p'.cell e := by
    intro e
    rw [cell, hpipe]
  constructor
  · intro e
    rw [hcell, (hout e).1, htask]
    refine (h.tasks e).rely cleanSpec.valid ((hrely e).trans ?_)
    have hctl := (hout e).2
    refine alongside_of (by rw [hctl.hist]) (by rw [hctl.hist]) (by rw [hctl.hist]) ?_
    intro hs hc k hk
    rw [hctl.ports.outputs] at hk
    by_cases hstop : api = .stop
    · rw [hnone hstop e] at hs
      cases hs
    · rw [hctl.rings hstop]
      exact hc k hk
  · intro e he
    rw [Starting, hcell, (hout e).2.hist] at he
    exact hfresh e he
  · intro api' pt' hctl
    cases pt with
    | done v => cases hctl
    | cut k =>
      cases hctl
      exact hdoes
    | call c k =>
      cases hctl
      exact hdoes

/-- The application calls a function. -/
theorem Inv.call (h : s.Inv) {api : PipeApi} (hl : s.RestartsAfresh (.call api))
    (hs : s.step (.call api) = some s') : s'.Inv := by
  obtain ⟨sys, hsys, rfl⟩ := Option.map_eq_some_iff.mp hs
  cases hctl : s.sys.ctl with
  | calling api' pt =>
    simp only [PipeSys.step, hctl] at hsys
    cases hsys
  | idle =>
    simp only [PipeSys.step, hctl] at hsys
    obtain rfl := Option.some.inj hsys
    have hnone : api = .stop → ∀ e, (s.cell e).m.hist.starting = false :=
      fun hstop => h.noneStarts (hl hstop)
    refine h.afterCtl (p := { s.before (.call api) with called := [], returned := none })
      (fun _ => rfl) (fun e => alongside_of rfl rfl rfl fun _ => id) (fun e he => ?_) hnone
      (Point.does_resume (fun p => Outside.of_cell fun _ => rfl) (fun _ _ _ => Outside.trans) _
        (Outside.api api))
    rw [List.mem_append]
    rcases he with hre | hst
    · rcases Bool.or_eq_true_iff.mp hre with hre | hby
      · exact Or.inl (h.fresh e (Or.inl hre))
      · exact Or.inr (of_decide_eq_true hby)
    · exact Or.inl (h.fresh e (Or.inr hst))

/-- The application moves on in its call. -/
theorem Inv.ctlStep (h : s.Inv) (hl : s.RestartsAfresh .ctl) (hs : s.step .ctl = some s') :
    s'.Inv := by
  obtain ⟨sys, hsys, rfl⟩ := Option.map_eq_some_iff.mp hs
  cases hctl : s.sys.ctl with
  | idle =>
    simp only [PipeSys.step, hctl] at hsys
    cases hsys
  | calling api pt =>
    simp only [PipeSys.step, hctl] at hsys
    obtain ⟨r, hr, rfl⟩ := Option.map_eq_some_iff.mp hsys
    have hnone : api = .stop → ∀ e, (s.cell e).m.hist.starting = false := by
      rintro rfl
      refine h.noneStarts (hl ?_)
      rw [hctl]
      rfl
    exact h.afterCtl (p := s.sys.pipe) (fun _ => rfl)
      (fun e => alongside_of rfl rfl rfl fun _ => id) (fun e he => h.fresh e he) hnone
      ((h.ctl api pt hctl).step (fun p => Outside.of_cell fun _ => rfl) (fun _ _ _ => Outside.trans)
        hr)

/-- The links are changed, while no element starts. -/
theorem Inv.links (h : s.Inv) {op : Links.Op} (hl : s.RestartsAfresh (.links op))
    (hs : s.step (.links op) = some s') : s'.Inv := by
  obtain ⟨sys, hsys, rfl⟩ := Option.map_eq_some_iff.mp hs
  cases hctl : s.sys.ctl with
  | calling api pt =>
    simp only [PipeSys.step, hctl] at hsys
    cases hsys
  | idle =>
    cases hop : op.IsCall with
    | false =>
      simp only [PipeSys.step, hctl, hop] at hsys
      cases hsys
    | true =>
      simp only [PipeSys.step, hctl, hop] at hsys
      obtain rfl := Option.some.inj hsys
      refine ⟨fun e => (h.tasks e).rely cleanSpec.valid (alongside_of rfl rfl rfl ?_), h.fresh, ?_⟩
      · intro hst
        rw [h.noneStarts hl e] at hst
        cases hst
      · intro api pt hcalling
        cases hcalling

/-- A ring buffer is read, written or reset. -/
theorem Inv.io (h : s.Inv) {rb : ℕ} {ring : Ringbuf} (hl : s.Honest (.io rb ring))
    (hs : s.step (.io rb ring) = some s') : s'.Inv := by
  obtain ⟨sys, hsys, rfl⟩ := Option.map_eq_some_iff.mp hs
  obtain rfl := Option.some.inj hsys
  refine ⟨fun e => (h.tasks e).rely cleanSpec.valid (alongside_of rfl rfl rfl ?_), h.fresh, h.ctl⟩
  intro hst hclean k hk
  have hold : (s.sys.pipe.links.rings k).Clean := hclean k hk
  show (Function.update s.sys.pipe.links.rings rb ring k).Clean
  by_cases hrb : k = rb
  · subst hrb
    rw [Function.update_self]
    rcases hl with hreset | ⟨hread, hwrite, hdone, hfill⟩
    · exact hreset
    · have hle := hfill e (h.fresh e (Or.inr hst)) hst hk
      rw [hold.1] at hle
      exact ⟨Nat.le_zero.mp hle, hread.trans hold.2.1, hwrite.trans hold.2.2.1,
        hdone.trans hold.2.2.2⟩
  · rw [Function.update_of_ne hrb]
    exact hold

/-- What is noted of an element before its task moves on. -/
theorem before_task_self (s : RestartSys) (e : ℕ) (v : ℤ) :
    (s.before (.task e v)).cell e = { s.cell e with m := { (s.cell e).m with hist :=
      { (s.cell e).m.hist with
        starting := if (s.cell e).Reopens v then (s.cell e).m.hist.restarted
          else (s.cell e).m.hist.starting
        openFailed := (s.cell e).m.hist.openFailed || decide ((s.cell e).OpensInVain v) } } } :=
  Pipe.cell_noteAt_self ..

theorem before_task_ne {e e' : ℕ} (h : e' ≠ e) (s : RestartSys) (v : ℤ) :
    (s.before (.task e v)).cell e' = s.cell e' := Pipe.cell_noteAt_ne h ..

/-- The element is known to fail to open, or to be reopened, before its task moves on. -/
theorem Inv.answered (h : s.Inv) {e : ℕ} {v : ℤ} (hl : s.RestartsAfresh (.task e v)) :
    Alongside ((s.cell e).task.answer v) (s.cell e).m ((s.before (.task e v)).cell e).m := by
  have hready : Ready (s.cell e).m := (h.tasks e).ready
  rw [before_task_self]
  constructor
  · intro _
    refine ⟨fun hst => ?_, hready.started⟩
    by_cases hre : (s.cell e).Reopens v
    · have hrestarted : (s.cell e).m.hist.restarted = true := by simpa [hre] using hst
      exact hl.1 ⟨hrestarted, Or.inl hre.2.2, Or.inr hre⟩
    · exact hready.clean (by simpa [hre] using hst)
  · intro hst
    by_cases hre : (s.cell e).Reopens v
    · exact Or.inr ⟨v, Task.answer_eq.mpr ⟨hre.1, rfl⟩, hre.2.1, hre.2.2⟩
    · exact Or.inl (by simpa [hre] using hst)
  · intro hf
    exact Bool.or_eq_true_iff.mpr (Or.inl hf)
  · intro v' hans hfails
    obtain ⟨hopen, rfl⟩ := Task.answer_eq.mp hans
    exact Bool.or_eq_true_iff.mpr (Or.inr (decide_eq_true ⟨hopen, hfails⟩))

/-- An element that calls `process` does not start any more. -/
theorem Inv.noteProcess (h : s.Inv) (e : ℕ) :
    Inv { s with
      sys := { s.sys with
        pipe := s.sys.pipe.noteAt e fun h => { h with restarted := false, starting := false } }
      fresh := s.fresh.filter (· ≠ e) } := by
  have hself := Pipe.cell_noteAt_self s.sys.pipe e fun h =>
    { h with restarted := false, starting := false }
  have hne : ∀ e' ≠ e, (s.sys.pipe.noteAt e fun h =>
      { h with restarted := false, starting := false }).cell e' = s.cell e' :=
    fun e' he => Pipe.cell_noteAt_ne he ..
  refine ⟨fun e' => ?_, fun e' he' => ?_, h.ctl⟩
  · by_cases he : e' = e
    · subst he
      rw [cell, hself]
      refine (h.tasks e').rely cleanSpec.valid ⟨fun hm => ⟨?_, hm.started⟩, ?_, id, ?_⟩
      · intro hst
        cases hst
      · intro hst
        cases hst
      · intro v hv
        cases hv
    · rw [cell, hne e' he]
      exact h.tasks e'
  · by_cases he : e' = e
    · subst he
      rw [Starting, cell, hself] at he'
      rcases he' with hre | hst
      · cases hre
      · cases hst
    · rw [Starting, cell, hne e' he] at he'
      exact List.mem_filter.mpr ⟨h.fresh e' he', decide_eq_true he⟩

/-- A task moves on. -/
theorem Inv.task (h : s.Inv) {e : ℕ} {v : ℤ} (hl : s.RestartsAfresh (.task e v))
    (hs : s.step (.task e v) = some s') : s'.Inv := by
  obtain ⟨sys, hsys, rfl⟩ := Option.map_eq_some_iff.mp hs
  obtain ⟨p, hp, rfl⟩ := Option.map_eq_some_iff.mp hsys
  obtain ⟨c, hc, rfl⟩ := Option.map_eq_some_iff.mp hp
  obtain ⟨⟨m, t⟩, ht, rfl⟩ := Option.map_eq_some_iff.mp hc
  have hnoted := before_task_self s e v
  have hadm : ∀ cmd queue, (s.cell e).task = .recv →
      ((s.before (.task e v)).cell e).m.el.taskRun = true →
      ((s.before (.task e v)).cell e).m.el.queue = cmd :: queue →
      cleanSpec.admits cmd ((s.before (.task e v)).cell e).m := by
    rw [hnoted]
    rintro _ queue hrecv hrun hq rfl hrestarted hstate
    have hhead : (s.cell e).task.atHead = true := by
      rw [hrecv]
      rfl
    have hq : (s.cell e).m.el.queue = .resume :: queue := hq
    refine hl.1 ⟨hrestarted, hstate, Or.inl ⟨hhead, hrun, ?_⟩⟩
    rw [hq]
    rfl
  have hstep : (s.cell e).task.step ((s.before (.task e v)).cell e).m v = some (m, t) := by
    rw [← ht, hnoted]
  obtain ⟨htask, hseg⟩ := (h.tasks e).answered cleanSpec.valid (h.answered hl) hadm hstep
  rw [hnoted] at hseg
  have hinv : Inv { s with sys := { s.sys with
      pipe := (s.before (.task e v)).put e ⟨m, t⟩, answered := none } } := by
    refine ⟨fun e' => ?_, fun e' he' => ?_, h.ctl⟩
    · by_cases he : e' = e
      · subst he
        rw [cell, Pipe.cell_put_self]
        exact htask
      · rw [cell, Pipe.cell_put_ne he, before_task_ne he]
        refine (h.tasks e').rely cleanSpec.valid (alongside_of rfl rfl rfl ?_)
        -- another element that starts
        intro hst hclean k hk
        have ⟨hout, hfails⟩ := hl.2 e' (h.fresh e' (Or.inr hst)) he hst k hk
        rcases hseg.clean k (hclean k hk) with hclean | hmem | ⟨hfailed, hin⟩
        · exact hclean
        · exact absurd hmem hout
        · refine absurd hin (hfails ?_)
          exact (Bool.or_eq_true_iff.mp hfailed).imp_right of_decide_eq_true
    · by_cases he : e' = e
      · subst he
        rw [Starting, cell, Pipe.cell_put_self] at he'
        rcases he' with hre | hst
        · exact h.fresh e' (Or.inl (hseg.restarted.symm.trans hre))
        · rcases hseg.starting hst with hst | hre
          · by_cases hreopens : (s.cell e').Reopens v
            · exact h.fresh e' (Or.inl (by simpa [hreopens] using hst))
            · have hst : (s.cell e').m.hist.starting = true := by simpa [hreopens] using hst
              exact h.fresh e' (Or.inr hst)
          · exact h.fresh e' (Or.inl hre)
      · rw [Starting, cell, Pipe.cell_put_ne he, before_task_ne he] at he'
        exact h.fresh e' he'
  unfold after
  dsimp only
  split_ifs
  · exact hinv.noteProcess e
  · exact hinv

/-- **Every step.** -/
theorem Inv.step (h : s.Inv) {l : PipeLabel} (hhonest : s.Honest l) (hl : s.RestartsAfresh l)
    (hs : s.step l = some s') : s'.Inv := by
  cases l with
  | links op => exact h.links hl hs
  | call api => exact h.call hl hs
  | ctl => exact h.ctlStep hl hs
  | task e v => exact h.task hl hs
  | io rb ring => exact h.io hhonest hs

end RestartSys

/-- **A pipeline that is restarted afresh starts clean**: in every run, an element that calls
`process` for the first time after the pipeline was stopped, waited for and started again has empty
output ring buffers, not aborted and not done, if each such element is resumed in a state in which
the `RESUME` handler resets them, or with clean ones. -/
theorem starts_clean {config : ℕ → AudioElementCfg} {links : Links} {s : RestartSys}
    (h : Lts.Reach RestartSys.step (fun s l => s.Honest l ∧ s.RestartsAfresh l)
      (RestartSys.start config links) s) : s.StartsClean := by
  have h₀ : (RestartSys.start config links).Inv := by
    refine ⟨fun e => ⟨fun hst => ?_, rfl⟩, fun e he => ?_, fun api pt hctl => ?_⟩
    · cases hst
    · rcases he with hre | hst
      · cases hre
      · cases hst
    · cases hctl
  have hinv : s.Inv := h.invariant h₀ fun _ _ _ hI hl hs => hI.step hl.1 hl.2 hs
  exact fun e => (hinv.tasks e).ready.started

/-- The application goes on `n` times. -/
def ctls (n : ℕ) : List PipeLabel := List.replicate n .ctl

/-- The task of element `e` moves on `n` times; its callbacks return `ESP_OK`. -/
def tasks (e n : ℕ) : List PipeLabel := List.replicate n (.task e 0)

/-- Elements `0` and `1` are linked and run. -/
def runningTwo : List PipeLabel :=
  [.links (.registerMore [0, 1]), .links (.linkMore [0, 1]), .call .run] ++ ctls 3 ++ tasks 0 2 ++
    ctls 6 ++ tasks 1 2 ++ ctls 5 ++ tasks 0 5 ++ ctls 5 ++ tasks 1 5 ++ ctls 3 ++
    [.call .stop] ++ ctls 6

/-- Element `0` has come to the end of its stream when it is asked to stop, and handles the request
when its state has been reset already. -/
def endsFirst : List PipeLabel :=
  [.task 0 AEL_IO_DONE] ++ tasks 0 1 ++ [.task 1 AEL_IO_ABORT] ++ tasks 1 3 ++
    [.call .waitForStop] ++ ctls 8 ++ tasks 0 2 ++ [.call .resume] ++ ctls 2 ++ tasks 0 5

/-- It has been restarted and has called `process`. -/
theorem starts_clean_two :
    ∃ s, Lts.Reach RestartSys.step (fun s l => s.Honest l ∧ s.RestartsAfresh l)
        (RestartSys.start (fun _ => plainCfg) newPipeline) s ∧
      s.fresh = [1] ∧ (s.cell 0).m.el.outputs.length = 1 ∧ s.StartsClean := by
  have hrun : (Lts.run RestartSys.step (fun s l => s.Honest l ∧ s.RestartsAfresh l)
      (RestartSys.start (fun _ => plainCfg) newPipeline) (runningTwo ++ endsFirst)).map
        (fun s => (s.fresh, (s.cell 0).m.el.outputs.length)) = some ([1], 1) := by
    decide
  obtain ⟨s, hs, heq⟩ := Option.map_eq_some_iff.mp hrun
  have ⟨hfresh, hout⟩ := Prod.mk.inj heq
  have hr := Lts.Reach.of_run _ Lts.Reach.refl hs
  exact ⟨s, hr, hfresh, hout, starts_clean hr⟩

/-- The elements are stopped as they run. -/
def stopsRunning : List PipeLabel :=
  [.task 0 AEL_IO_ABORT] ++ tasks 0 3 ++ [.task 1 AEL_IO_ABORT] ++ tasks 1 3 ++
    [.call .waitForStop] ++ ctls 8 ++ [.call .resume] ++ ctls 2 ++ tasks 0 5

/-- The ring buffer between them is still aborted when element `0` calls `process` again. -/
theorem not_starts_clean :
    ¬∀ (config : ℕ → AudioElementCfg) (links : Links) (s : RestartSys),
      Lts.Reach RestartSys.step RestartSys.Honest (RestartSys.start config links) s →
        s.StartsClean := by
  intro hall
  have hrun : (Lts.run RestartSys.step RestartSys.Honest
      (RestartSys.start (fun _ => plainCfg) newPipeline) (runningTwo ++ stopsRunning)).map
        (fun s => (s.cell 0).m.hist.startedDirty) = some true := by
    decide
  obtain ⟨s, hs, hdirty⟩ := Option.map_eq_some_iff.mp hrun
  have hclean := hall _ _ s (Lts.Reach.of_run _ Lts.Reach.refl hs) 0
  rw [hdirty] at hclean
  cases hclean

end AudioPipeline
