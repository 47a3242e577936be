import AudioPipeline.Element.Equiv.Api
import AudioPipeline.Element.Equiv.Task

/-!
# The invariant rule for an element with its controlling thread

A `CtlSpec` says what the task may do while a call stands at a scheduling point, and what each
segment of the call does.  When it is `Compatible` with a `TaskSpec`, what both say of the places
where the two threads stand (`ElOk`) is kept by every step of either.
-/

namespace AudioPipeline

open Prog

/-- What is promised and assumed of the controlling thread. -/
structure CtlSpec where
  /-- Where a call may begin. -/
  pre : ElApi → Mem → Prop
  /-- What the task may do while the call waits to go on, and where it may go on. -/
  rely : ElApi → Mem → Mem → Prop
  /-- What a segment of the call does, with the result if it returns. -/
  seg : ElApi → Option ℤ → Mem → Mem → Prop

/-- What the specification says of the place where the controlling thread stands. -/
def CtlOk (C : CtlSpec) (A : ElApi → Prop) : Ctl → Mem → Prop
  | .idle, _ => True
  | .calling api p, m =>
    A api ∧ p.Ok (fun _ => C.rely api) (fun _ => C.seg api none) (fun v _ => C.seg api (some v)) m

/-- The two threads meet what the other assumes, as long as only the calls in `A` are made. -/
structure Compatible (T : TaskSpec) (C : CtlSpec) (A : ElApi → Prop) : Prop where
  task : T.Valid
  calls : ∀ {api m}, A api → C.pre api m →
    wp (fun _ => C.rely api) (fun _ => C.seg api none) (fun v _ => C.seg api (some v))
      api.prog false m m
  task_rely : ∀ {api m m' m₁}, T.seg m m' → C.rely api m' m₁ → C.rely api m m₁
  ctl_rely : ∀ {api o m m'}, A api → C.seg api o m m' → T.rely none m m'
  note_rely : ∀ api m, T.rely none m (ElSys.noted api m)

/-- What both specifications say of the places where the threads stand. -/
def ElOk (T : TaskSpec) (C : CtlSpec) (A : ElApi → Prop) (s : ElSys) : Prop :=
  TaskOk T s.task s.m ∧ CtlOk C A s.ctl s.m

/-- What a step of a call leaves: `o` is the result if the call returned. -/
structure Called (C : CtlSpec) (api : ElApi) (s s' : ElSys) (o : Option ℤ) : Prop where
  seg : C.seg api o s.m s'.m
  task : s'.task = s.task
  ctl : ∀ api' p, s'.ctl = .calling api' p → api' = api
  answered : s'.answered = o.map fun v => (api, v)
  stopStands : s'.stopStands = if api = .stop ∧ o = some ESP_OK then true else s.stopStands
  stopOk : s'.stopOk = true → s.stopOk = true ∨ api = .stop ∧ o = some ESP_OK

/-- What a step of the task leaves. -/
structure Ran (T : TaskSpec) (s s' : ElSys) : Prop where
  seg : T.seg s.m s'.m
  ctl : s'.ctl = s.ctl
  answered : s'.answered = none
  stopStands : s'.stopStands = s.stopStands
  stopOk : s'.stopOk = s.stopOk

@[simp] theorem noted_el (api : ElApi) (m : Mem) : (ElSys.noted api m).el = m.el := by
  unfold ElSys.noted
  split_ifs <;> rfl

@[simp] theorem noted_rings (api : ElApi) (m : Mem) : (ElSys.noted api m).rings = m.rings := by
  unfold ElSys.noted
  split_ifs <;> rfl

@[simp] theorem noted_handling (api : ElApi) (m : Mem) :
    (ElSys.noted api m).hist.handling = m.hist.handling := by
  unfold ElSys.noted
  split_ifs <;> rfl

theorem Own.noted (api : ElApi) (m : Mem) : Own m (ElSys.noted api m) := by
  unfold ElSys.noted
  split_ifs
  · exact ⟨rfl, rfl, rfl, rfl, rfl, rfl, rfl⟩
  · exact Own.refl m

namespace CtlOk

variable {C : CtlSpec} {A : ElApi → Prop} {s s' : ElSys} {api : ElApi}

/-- A segment of a call that ends as promised. -/
theorem afterCtl (hA : A api) {r : Mem × Point Mem Callback ℤ}
    (h : r.2.Ends (fun _ => C.seg api none) (fun v _ => C.seg api (some v)) s.m r.1 ∧
      r.2.Ok (fun _ => C.rely api) (fun _ => C.seg api none) (fun v _ => C.seg api (some v)) r.1) :
    CtlOk C A (s.afterCtl api r).ctl (s.afterCtl api r).m ∧
      ∃ o, Called C api s (s.afterCtl api r) o := by
  rcases r with ⟨m, p⟩
  cases p with
  | done v =>
    obtain ⟨b, hseg⟩ := h.1
    refine ⟨trivial, some v, hseg, rfl, ?_, rfl, ?_, ?_⟩
    · intro api' p hp
      exact nomatch hp
    · simp only [ElSys.afterCtl, Option.some.injEq]
    · intro hok
      by_cases hstop : api = .stop
      · simp only [ElSys.afterCtl, if_pos hstop, decide_eq_true_eq] at hok
        exact Or.inr ⟨hstop, congrArg some hok⟩
      · simp only [ElSys.afterCtl, if_neg hstop] at hok
        exact Or.inl hok
  | cut k =>
    refine ⟨⟨hA, h.2⟩, none, h.1, rfl, ?_, rfl, ?_, Or.inl⟩
    · intro api' p hp
      exact (Ctl.calling.inj hp).1.symm
    · simp [ElSys.afterCtl]
  | call c k =>
    refine ⟨⟨hA, h.2⟩, none, h.1, rfl, ?_, rfl, ?_, Or.inl⟩
    · intro api' p hp
      exact (Ctl.calling.inj hp).1.symm
    · simp [ElSys.afterCtl]

/-- **A call begins.** -/
theorem call (hA : A api)
    (hwp : wp (fun _ => C.rely api) (fun _ => C.seg api none) (fun v _ => C.seg api (some v))
      api.prog false (s.noteCall api).m (s.noteCall api).m)
    (hs : s.step (.call api) = some s') :
    CtlOk C A s'.ctl s'.m ∧ ∃ o, Called C api (s.noteCall api) s' o := by
  rcases hc : s.ctl with _ | ⟨api', p⟩
  · simp only [ElSys.step, hc, Option.some.injEq] at hs
    obtain rfl := hs
    exact afterCtl hA (Point.ends_resume _ hwp)
  · simp [ElSys.step, hc] at hs

/-- **The controlling thread goes on in its call.** -/
theorem ctl (h : CtlOk C A s.ctl s.m) (hR : ∀ api p, s.ctl = .calling api p → C.rely api s.m s.m)
    (hs : s.step .ctl = some s') :
    CtlOk C A s'.ctl s'.m ∧ ∃ api p o, s.ctl = .calling api p ∧ A api ∧ Called C api s s' o := by
  rcases hc : s.ctl with _ | ⟨api, p⟩
  · simp [ElSys.step, hc] at hs
  · simp only [ElSys.step, hc, Option.map_eq_some_iff] at hs
    obtain ⟨r, hp, rfl⟩ := hs
    rw [hc] at h
    obtain ⟨h', o, ho⟩ := afterCtl h.1 (h.2.step (hR api p hc) hp)
    exact ⟨h', api, p, o, rfl, h.1, ho⟩

end CtlOk

namespace ElOk

variable {T : TaskSpec} {C : CtlSpec} {A : ElApi → Prop} {s s' : ElSys} {api : ElApi}

/-- A segment of a call leaves the task where it stands. -/
theorem afterCalled {o : Option ℤ} (hV : Compatible T C A) (hA : A api)
    (hT : TaskOk T s.task s.m) (h : Called C api s s' o) : TaskOk T s'.task s'.m := by
  rw [h.task]
  exact hT.rely hV.task (hV.ctl_rely hA h.seg)

/-- **A call begins.** -/
theorem call (hV : Compatible T C A) (h : ElOk T C A s) (hA : A api)
    (hpre : C.pre api (s.noteCall api).m)
    (hs : s.step (.call api) = some s') :
    ElOk T C A s' ∧ ∃ o, Called C api (s.noteCall api) s' o := by
  have hT : TaskOk T (s.noteCall api).task (s.noteCall api).m :=
    h.1.rely hV.task (hV.note_rely api s.m)
  obtain ⟨hctl, o, ho⟩ := CtlOk.call hA (hV.calls hA hpre) hs
  exact ⟨⟨afterCalled hV hA hT ho, hctl⟩, o, ho⟩

/-- **The controlling thread goes on in its call.** -/
theorem ctl (hV : Compatible T C A) (h : ElOk T C A s)
    (hR : ∀ api p, s.ctl = .calling api p → C.rely api s.m s.m)
    (hs : s.step .ctl = some s') :
    ElOk T C A s' ∧ ∃ api p o, s.ctl = .calling api p ∧ A api ∧ Called C api s s' o := by
  obtain ⟨hctl, api, p, o, hc, hA, ho⟩ := CtlOk.ctl h.2 hR hs
  exact ⟨⟨afterCalled hV hA h.1 ho, hctl⟩, api, p, o, hc, hA, ho⟩

/-- **The task goes on.** -/
theorem task {v : ℤ} (hV : Compatible T C A) (h : ElOk T C A s)
    (hans : T.rely (s.task.answer v) s.m s.m)
    (hadm : ∀ cmd queue, s.task = .recv → s.m.el.taskRun = true → s.m.el.queue = cmd :: queue →
      T.admits cmd s.m)
    (hs : s.step (.task v) = some s') :
    ElOk T C A s' ∧ Ran T s s' := by
  obtain ⟨⟨m, t⟩, ht, rfl⟩ := Option.map_eq_some_iff.mp hs
  have ⟨htask, hseg⟩ := h.1.step hV.task hans hadm ht
  refine ⟨⟨htask, ?_⟩, hseg, rfl, rfl, rfl, rfl⟩
  have hc := h.2
  dsimp only
  cases hctl : s.ctl with
  | idle => trivial
  | calling api p =>
    rw [hctl] at hc
    exact ⟨hc.1, hc.2.rely fun _ _ h₁ => hV.task_rely hseg h₁⟩

end ElOk

/-- What `Element/Equiv/Api.lean` proves of the control functions. -/
def apiSpec : CtlSpec where
  pre _ := HasTask
  rely _ _ m' := HasTask m'
  seg api _ := ApiSeg api

/-- The steps that a specification of the task speaks of, when the calls are all in `A`. -/
def TaskSpec.Takes (T : TaskSpec) (A : ElApi → Prop) (s : ElSys) : ElLabel → Prop
  | .call api => A api
  | .ctl => True
  | .task v => T.rely (s.task.answer v) s.m s.m ∧
    ∀ cmd queue, s.task = .recv → s.m.el.taskRun = true → s.m.el.queue = cmd :: queue →
      T.admits cmd s.m

theorem HasTask.noteCall {s : ElSys} (h : HasTask s.m) (api : ElApi) :
    HasTask (s.noteCall api).m := by
  unfold HasTask ElSys.noteCall
  rw [noted_el]
  exact h

/-- **Every run keeps what the specification of the task says.** -/
theorem ElOk.reach {T : TaskSpec} {A : ElApi → Prop} {s₀ s : ElSys}
    (hV : Compatible T apiSpec A)
    (hstack : ∀ {m m'}, T.seg m m' → m'.el.taskStack = m.el.taskStack)
    (h₀ : ElOk T apiSpec A s₀) (hm : HasTask s₀.m)
    (h : Lts.Reach ElSys.step (T.Takes A) s₀ s) : ElOk T apiSpec A s := by
  have hinv : ElOk T apiSpec A s ∧ HasTask s.m := by
    refine h.invariant (I := fun s => ElOk T apiSpec A s ∧ HasTask s.m) ⟨h₀, hm⟩ ?_
    intro s l s' ⟨hok, hst⟩ hl hs
    unfold HasTask at hst ⊢
    cases l with
    | call api =>
      have ⟨hok', o, hc⟩ := hok.call hV hl (HasTask.noteCall hst api) hs
      exact ⟨hok', hc.seg.taskStack ▸ HasTask.noteCall hst api⟩
    | ctl =>
      have ⟨hok', api, p, o, _, _, hc⟩ := hok.ctl hV (fun _ _ _ => hst) hs
      exact ⟨hok', hc.seg.taskStack ▸ hst⟩
    | task v =>
      have ⟨hok', hran⟩ := hok.task hV hl.1 hl.2 hs
      exact ⟨hok', hstack hran.seg ▸ hst⟩
  exact hinv.1

/-- The runs whose calls are all in `A`. -/
def ElLabel.Only (A : ElApi → Prop) : ElLabel → Prop
  | .call api => A api
  | .ctl | .task _ => True

instance (A : ElApi → Prop) [DecidablePred A] : DecidablePred (ElLabel.Only A) := fun l =>
  match l with
  | .call api => inferInstanceAs (Decidable (A api))
  | .ctl | .task _ => isTrue trivial

/-- A new element has a task if its configuration asks for one. -/
theorem hasTask_init {config : AudioElementCfg} (h : 0 < config.taskStack)
    (rings : ℕ → Ringbuf) : HasTask (ElSys.ofElement (audioElementInit config) rings).m := by
  show 0 < if 0 < config.taskStack then config.taskStack else 0
  rw [if_pos h]
  exact h

/-- An element with both callbacks, a task and no element buffer. -/
def plainCfg : AudioElementCfg where
  hasOpen := true
  hasClose := true
  bufferLen := 0
  taskStack := 4096
  read := true
  write := true
  multiInRbNum := 0
  multiOutRbNum := 0

/-- `audio_element_run`, to the head of the loop of the task. -/
def started : List ElLabel := [.call .run, .ctl, .task 0, .task 0, .ctl]

end AudioPipeline
