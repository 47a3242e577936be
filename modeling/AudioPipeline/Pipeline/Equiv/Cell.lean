import AudioPipeline.Element.Equiv.Control
import AudioPipeline.Element.Equiv.Life
import AudioPipeline.Pipeline.Control

/-!
# The control functions next to the task

`Cell.Good` is what holds of an element and its task at all times, and `Cell.Moves` what the others
(its task and the elements around its rings) do to it between two segments of a control function.
Two assertions survive that.  `AtRest`: the element is not running, and no command that its task
will receive makes it run.  `Lasting`: no command that its task will receive ends it.

`Cell.Meets` is the specification of a control function: from an assertion to one about its result.
-/

namespace AudioPipeline

open Prog

namespace Cell

/-- A thread of the element is or will be in the loop and receive commands. -/
def Reads (c : Cell) : Prop :=
  c.m.el.threadCreated = true ∨ c.m.el.taskRun = true ∧ c.task.inLoop = true

instance (c : Cell) : Decidable c.Reads := inferInstanceAs (Decidable (_ ∨ _))

/-- The commands before a `DESTROY`. -/
def pending (queue : List AelCmd) : List AelCmd := queue.takeWhile (· ≠ .destroy)

/-- The element does not run, and will not before the next call. -/
def AtRest (c : Cell) : Prop :=
  c.m.el.isRunning = false ∧ (c.Reads → .resume ∉ pending c.m.el.queue)

instance (c : Cell) : Decidable c.AtRest := inferInstanceAs (Decidable (_ ∧ _))

/-- No `RESUME` waits for a thread of the element. -/
def Unresumed (c : Cell) : Prop := c.Reads → .resume ∉ pending c.m.el.queue

instance (c : Cell) : Decidable c.Unresumed := inferInstanceAs (Decidable (_ → _))

/-- The task is not about to end. -/
def Lasting (c : Cell) : Prop :=
  (c.Reads → .destroy ∉ c.m.el.queue) ∧ (c.m.el.taskRun = true → c.task.leaving = false)

instance (c : Cell) : Decidable c.Lasting := inferInstanceAs (Decidable (_ ∧ _))

/-- What holds at all times, if no thread is created while another one has yet to begin. -/
structure Good (c : Cell) : Prop where
  life : HasTask c.m → TaskOk lifeSpec c.task c.m
  known : c.task.Known
  created : c.m.el.threadCreated = true → c.m.el.taskRun = false ∧ c.m.el.queue = []
  taskless : c.m.el.taskStack ≤ 0 → c.task = .absent ∧ c.m.el.threadCreated = false
  runs : c.m.el.isRunning = true → c.m.el.taskRun = true

end Cell

/-- A task that is not there has stopped the element. -/
theorem TaskOk.off {t : Task} {m : Mem} (h : TaskOk lifeSpec t m) (hrun : m.el.taskRun = false) :
    m.el.isRunning = false := by
  cases t with
  | absent => exact h.1
  | leave => exact h
  | begin p => exact h.1
  | ending p => exact h.1.1
  | recv | proc => exact h.1 hrun
  | inCmd =>
    have hon : m.el.taskRun = true := h.1.1
    exact absurd hon (by rw [hrun]; decide)
  | inProc =>
    have hon : m.el.taskRun = true := h.1.1
    exact absurd hon (by rw [hrun]; decide)

namespace Cell

variable {c c' : Cell} {relied : Prop}

/-- Only an element with a task makes steps. -/
theorem Good.task_of_step (h : Good c) {v : ℤ} (hs : c.step v = some c') : HasTask c.m := by
  obtain ⟨r, ht, -⟩ := Option.map_eq_some_iff.mp hs
  by_contra hle
  obtain ⟨habs, hno⟩ := h.taskless (not_lt.mp hle)
  rw [habs, Task.step, hno] at ht
  cases ht

/-- **A step of the task.** -/
theorem Good.step (h : Good c) {v : ℤ} (hs : c.step v = some c') :
    Good c' ∧ Task.Moves v c.m c.task c'.m c'.task ∧ LifeSeg c.m c'.m := by
  have htask := h.task_of_step hs
  obtain ⟨⟨m', t'⟩, ht, rfl⟩ := Option.map_eq_some_iff.mp hs
  obtain ⟨hk, hmoves⟩ := h.known.step ht
  obtain ⟨hok, hseg⟩ := (h.life htask).step lifeSpec.valid (Steady.refl _)
    (fun _ _ _ _ _ => trivial) ht
  have htask' : HasTask m' := by
    unfold HasTask
    rw [hmoves.taskStack]
    exact htask
  refine ⟨⟨fun _ => hok, hk, ?_, ?_, ?_⟩, hmoves, hseg⟩
  · intro hc'
    obtain ⟨hoff, hq⟩ := h.created (hmoves.created hc')
    constructor
    · rcases hmoves.off hoff with hr | ⟨-, -, hno⟩
      · exact hr
      · exact absurd hc' (by rw [hno]; decide)
    · rcases hmoves.queue with hqueue | ⟨hon, -⟩
      · exact hqueue.trans hq
      · exact absurd hon (by rw [hoff]; decide)
  · intro hle
    exact absurd htask' (not_lt.mpr hle)
  · intro hrun
    by_contra hoff
    have := hok.off (by simpa using hoff)
    exact absurd hrun (by rw [this]; decide)

theorem Good.withRings (h : Good c) (rings : ℕ → Ringbuf) : Good (c.withRings rings) where
  life ht := (h.life ht).rely lifeSpec.valid ⟨rfl, rfl⟩
  known := h.known
  created := h.created
  taskless := h.taskless
  runs := h.runs

/-- A move of the others; a task that is relied on finds memory for its buffer. -/
inductive Move (relied : Prop) (c : Cell) : Cell → Prop
  | task {v : ℤ} {c' : Cell} (h : relied → ¬c.task.AllocFails v) (hs : c.step v = some c') :
    Move relied c c'
  | rings (rings : ℕ → Ringbuf) : Move relied c (c.withRings rings)

/-- Moves of the others. -/
abbrev Moves (relied : Prop) : Cell → Cell → Prop := Relation.ReflTransGen (Move relied)

/-- **What a move of the others may do.** -/
theorem Good.move (h : Good c) (hm : Move relied c c') :
    Good c' ∧ (∃ v, (relied → ¬c.task.AllocFails v) ∧ Task.Moves v c.m c.task c'.m c'.task) ∧
      LifeSeg c.m c'.m := by
  cases hm with
  | task ha hs =>
    have ⟨hg, hmoves, hseg⟩ := h.step hs
    exact ⟨hg, ⟨_, ha, hmoves⟩, hseg⟩
  | rings rings =>
    refine ⟨h.withRings rings, ⟨1, fun _ => ?_, ?_⟩, Or.inl, Or.inl, fun _ => id, id⟩
    · intro ha
      cases ht : c.task with
      | begin p =>
        rw [ht] at ha
        exact absurd ha.2 (by decide)
      | _ =>
        rw [ht] at ha
        exact ha
    · exact ⟨rfl, id, Or.inl rfl, Or.inl, Or.inl, Or.inl, Or.inl⟩

/-- What every move keeps stays. -/
theorem Good.moves {A : Cell → Prop} (hA : ∀ c c', Good c → A c → Move relied c c' → A c')
    (h : Good c) (ha : A c) (hm : Moves relied c c') : Good c' ∧ A c' := by
  induction hm with
  | refl => exact ⟨h, ha⟩
  | tail _ hm ih => exact ⟨(ih.1.move hm).1, hA _ _ ih.1 ih.2 hm⟩

theorem Move.reads (h : Good c) (hm : Move relied c c') (hr : c'.Reads) : c.Reads := by
  have ⟨_, ⟨v, _, hmoves⟩, _⟩ := h.move hm
  rcases hr with hcreated | ⟨hon, hin⟩
  · exact Or.inl (hmoves.created hcreated)
  · rcases hmoves.enters hin with hin | ⟨-, hcreated⟩
    · cases hrun : c.m.el.taskRun with
      | true => exact Or.inr ⟨hrun, hin⟩
      | false =>
        rcases hmoves.off hrun with hoff | ⟨-, hcreated, -⟩
        · exact absurd hon (by rw [hoff]; decide)
        · exact Or.inl hcreated
    · exact Or.inl hcreated

/-- The oldest command is received by a thread that reads. -/
theorem Move.queue (h : Good c) (hm : Move relied c c') :
    c'.m.el.queue = c.m.el.queue ∨ c.Reads ∧
      ∃ cmd, c.m.el.queue = cmd :: c'.m.el.queue ∧ (cmd = .destroy → ¬c'.Reads) := by
  have ⟨_, ⟨v, _, hmoves⟩, _⟩ := h.move hm
  rcases hmoves.queue with hq | ⟨hon, hrecv, cmd, hq, hout⟩
  · exact Or.inl hq
  · have hreads : c.Reads := Or.inr ⟨hon, by rw [hrecv]; rfl⟩
    refine Or.inr ⟨hreads, cmd, hq, ?_⟩
    rintro hcmd (hcreated | ⟨-, hin⟩)
    · have hempty := (h.created (hmoves.created hcreated)).2
      rw [hempty] at hq
      exact nomatch hq
    · exact absurd hin (by rw [hout hcmd]; decide)

/-- Without a `RESUME` no element starts to run. -/
theorem Unresumed.runs (h : Good c) (hu : Unresumed c) (hm : Move relied c c')
    (hrun : c'.m.el.isRunning = true) : c.m.el.isRunning = true := by
  have ⟨_, _, hseg⟩ := h.move hm
  by_contra hoff
  rcases hseg.runs (by simpa using hoff) with hrun' | hqueue
  · exact absurd hrun (by rw [hrun']; decide)
  · -- a `RESUME` was received: by a thread that reads
    rcases Move.queue h hm with hq | ⟨hreads, cmd, hq, _⟩
    · rw [hq] at hqueue
      exact absurd hqueue (List.cons_ne_self _ _).symm
    · refine absurd ?_ (hu hreads)
      rw [hqueue]
      exact List.mem_cons_self

theorem Unresumed.move (h : Good c) (hu : Unresumed c) (hm : Move relied c c') : Unresumed c' := by
  intro hreads'
  have hno := hu (Move.reads h hm hreads')
  rcases Move.queue h hm with hq | ⟨_, cmd, hq, hout⟩
  · rw [hq]
    exact hno
  · have hcmd : cmd ≠ .destroy := fun hd => hout hd hreads'
    rw [hq, pending, List.takeWhile_cons_of_pos (by simpa using hcmd)] at hno
    exact fun hmem => hno (List.mem_cons_of_mem _ hmem)

theorem AtRest.move (h : Good c) (ha : AtRest c) (hm : Move relied c c') : AtRest c' := by
  refine ⟨?_, Unresumed.move h ha.2 hm⟩
  by_contra hon
  have hrun := Unresumed.runs h ha.2 hm (by simpa using hon)
  exact absurd hrun (by rw [ha.1]; decide)

theorem Lasting.move (h : Good c) (hl : Lasting c) (hm : Move relied c c') : Lasting c' := by
  have ⟨_, ⟨v, _, hmoves⟩, _⟩ := h.move hm
  constructor
  · intro hreads'
    have hno := hl.1 (Move.reads h hm hreads')
    rcases Move.queue h hm with hq | ⟨_, cmd, hq, _⟩
    · rw [hq]
      exact hno
    · rw [hq] at hno
      exact fun hmem => hno (List.mem_cons_of_mem _ hmem)
  · intro hon'
    by_contra hout
    rcases hmoves.leaves (by simpa using hout) with hleaving | ⟨hrecv, hwhy⟩
    · -- it was on its way out already, so `task_run` was false
      have hoff : c.m.el.taskRun = false := by
        by_contra hon
        exact absurd hleaving (by rw [hl.2 (by simpa using hon)]; decide)
      rcases hmoves.off hoff with hoff' | ⟨habs, -⟩
      · exact absurd hon' (by rw [hoff']; decide)
      · rw [habs] at hleaving
        exact nomatch hleaving
    · cases hrun : c.m.el.taskRun with
      | true =>
        have hdestroy := hwhy.resolve_left (by rw [hrun]; decide)
        refine absurd ?_ (hl.1 (Or.inr ⟨hrun, by rw [hrecv]; rfl⟩))
        rw [hdestroy]
        exact List.mem_cons_self
      | false =>
        rcases hmoves.off hrun with hoff' | ⟨habs, -⟩
        · exact absurd hon' (by rw [hoff']; decide)
        · rw [hrecv] at habs
          exact nomatch habs

/-- The task of an element that lasts and is relied on goes on. -/
theorem Move.taskRun (h : Good c) (hl : Lasting c) (hrelied : relied) (hm : Move relied c c')
    (hon : c.m.el.taskRun = true) : c'.m.el.taskRun = true := by
  have ⟨_, ⟨v, ha, hmoves⟩, _⟩ := h.move hm
  rcases hmoves.on hon with hon' | hleaving | hfails
  · exact hon'
  · exact absurd hleaving (by rw [hl.2 hon]; decide)
  · exact absurd hfails (ha hrelied)

/-- The others do no more than a control function assumes of them. -/
theorem Move.rely (h : Good c) (hm : Move relied c c') : CtlRely c.m c'.m := by
  have ⟨_, ⟨v, _, hmoves⟩, hseg⟩ := h.move hm
  refine ⟨hmoves.taskStack, ?_, ?_, ?_, fun _ => hseg.destroyed⟩
  · intro hc
    by_contra hc'
    have hcreated := hmoves.created (by simpa using hc')
    exact absurd hcreated (by rw [hc]; decide)
  · intro hc hoff
    rcases hmoves.off hoff with hoff' | ⟨-, hcreated, -⟩
    · exact hoff'
    · exact absurd hcreated (by rw [hc]; decide)
  · intro hq
    rcases hmoves.queue with hqueue | ⟨_, _, cmd, hqueue, _⟩
    · exact hqueue.trans hq
    · rw [hq] at hqueue
      exact nomatch hqueue

theorem Good.rely (h : Good c) (hm : Moves relied c c') : CtlRely c.m c'.m := by
  have hboth : Good c' ∧ CtlRely c.m c'.m := by
    induction hm with
    | refl => exact ⟨h, CtlRely.refl _⟩
    | tail _ hm ih => exact ⟨(ih.1.move hm).1, ih.2.trans (Move.rely ih.1 hm)⟩
  exact hboth.2

/-! ### Segments of a control function -/

/-- A control function has left the memory like this. -/
def set (c : Cell) (m : Mem) : Cell := { c with m := m }

theorem set_eq {c₀ c : Cell} (h : c.task = c₀.task) : c₀.set c.m = c := by
  cases c
  rw [set, ← h]

variable {api : ElApi} {o : Option ℤ} {m : Mem}

theorem Good.pre (h : Good c) (hapi : api = .run → c.m.el.threadCreated = false) :
    CtlPre api c.m :=
  ⟨h.created, fun hle => (h.taskless hle).2, hapi⟩

theorem Good.hasTask (h : Good c) (hc : c.m.el.threadCreated = true) : 0 < c.m.el.taskStack := by
  by_contra hle
  exact absurd hc (by rw [(h.taskless (not_lt.mp hle)).2]; decide)

theorem Good.seg (h : Good c) (hs : CtlSeg api o c.m m) : Good (c.set m) where
  life ht := by
    unfold HasTask at ht
    rw [show (c.set m).m = m from rfl, hs.taskStack] at ht
    have ⟨hrunning, hon⟩ := hs.steady ht
    exact (h.life ht).rely lifeSpec.valid ⟨hrunning, hon⟩
  known := h.known
  created hc := by
    rcases hs.created hc with hc | ⟨_, _, hoff, hq⟩
    · have ⟨hoff, hq⟩ := h.created hc
      refine ⟨(hs.steady (h.hasTask hc)).2.trans hoff, ?_⟩
      rcases hs.queue with hqueue | ⟨_, _, _, hno⟩ | ⟨_, hqueue⟩
      · exact hqueue.trans hq
      · exact absurd hc (by rw [hno]; decide)
      · exact hqueue
    · exact ⟨hoff, hq⟩
  taskless hle := by
    have hle : c.m.el.taskStack ≤ 0 := by
      rw [← hs.taskStack]
      exact hle
    have ⟨habs, hno⟩ := h.taskless hle
    refine ⟨habs, ?_⟩
    by_contra hc
    have hcreated : m.el.threadCreated = true := Bool.of_not_eq_false hc
    rcases hs.created hcreated with hc | ⟨_, hlt, _⟩
    · exact absurd hc (by rw [hno]; decide)
    · exact absurd hle (not_le.mpr hlt)
  runs := hs.runs h.runs

/-- A control function lets no thread of an element read that did not read before, unless it
creates it. -/
theorem Good.seg_reads (h : Good c) (hs : CtlSeg api o c.m m) (hr : (c.set m).Reads) :
    c.Reads ∨ m.el.queue = [] := by
  rcases hr with hc | ⟨hon, hin⟩
  · rcases hs.created hc with hc | ⟨_, _, _, hq⟩
    · exact Or.inl (Or.inl hc)
    · exact Or.inr hq
  · by_cases hlt : 0 < c.m.el.taskStack
    · exact Or.inl (Or.inr ⟨(hs.steady hlt).2.symm.trans hon, hin⟩)
    · have habs := (h.taskless (not_lt.mp hlt)).1
      change c.task.inLoop = true at hin
      rw [habs] at hin
      exact nomatch hin

theorem resume_not_mem_pending_concat {queue : List AelCmd} {cmd : AelCmd} (hcmd : cmd ≠ .resume)
    (h : .resume ∉ pending queue) : .resume ∉ pending (queue ++ [cmd]) := by
  induction queue with
  | nil => cases cmd <;> simp_all [pending]
  | cons cmd' queue ih =>
    by_cases hd : cmd' = .destroy
    · subst hd
      exact List.not_mem_nil
    · rw [pending, List.cons_append, List.takeWhile_cons_of_pos (by simpa using hd)]
      rw [pending, List.takeWhile_cons_of_pos (by simpa using hd)] at h
      rw [List.mem_cons, not_or] at h ⊢
      exact ⟨h.1, ih h.2⟩

theorem Unresumed.seg (h : Good c) (hu : Unresumed c) (hs : CtlSeg api o c.m m)
    (hsends : ¬api.Sends .resume) : Unresumed (c.set m) := by
  intro hr
  change .resume ∉ pending m.el.queue
  rcases h.seg_reads hs hr with hreads | hq
  · have hno := hu hreads
    rcases hs.queue with hqueue | ⟨cmd, hcmd, hqueue, _⟩ | ⟨_, hqueue⟩
    · rw [hqueue]
      exact hno
    · rw [hqueue]
      exact resume_not_mem_pending_concat (fun hc => hsends (hc ▸ hcmd)) hno
    · rw [hqueue]
      exact List.not_mem_nil
  · rw [hq]
    exact List.not_mem_nil

theorem AtRest.seg (h : Good c) (ha : AtRest c) (hs : CtlSeg api o c.m m)
    (hstarts : api.starts = false) (hsends : ¬api.Sends .resume) : AtRest (c.set m) :=
  ⟨hs.rests hstarts ha.1, Unresumed.seg h ha.2 hs hsends⟩

theorem Lasting.seg (h : Good c) (hl : Lasting c) (hs : CtlSeg api o c.m m)
    (hsends : ¬api.Sends .destroy) : Lasting (c.set m) := by
  constructor
  · intro hr
    change .destroy ∉ m.el.queue
    rcases h.seg_reads hs hr with hreads | hq
    · have hno := hl.1 hreads
      rcases hs.queue with hqueue | ⟨cmd, hcmd, hqueue, _⟩ | ⟨_, hqueue⟩
      · rw [hqueue]
        exact hno
      · rw [hqueue, List.mem_append, List.mem_singleton, not_or]
        exact ⟨hno, fun hc => hsends (hc ▸ hcmd)⟩
      · rw [hqueue]
        exact List.not_mem_nil
    · rw [hq]
      exact List.not_mem_nil
  · intro hon
    change m.el.taskRun = true at hon
    change c.task.leaving = false
    by_cases hlt : 0 < c.m.el.taskStack
    · exact hl.2 ((hs.steady hlt).2.symm.trans hon)
    · rw [(h.taskless (not_lt.mp hlt)).1]
      rfl

/-- A call of `audio_element_terminate` that returns `ESP_OK` has ended the task. -/
theorem Good.ended (h : Good c) (hs : CtlSeg .terminate (some ESP_OK) c.m m) :
    AtRest (c.set m) := by
  have ⟨hoff, hq⟩ := hs.ended rfl rfl
  have hgood := h.seg hs
  constructor
  · by_contra hrun
    have hon := hgood.runs (by simpa using hrun)
    change m.el.taskRun = true at hon
    exact absurd hon (by rw [hoff]; decide)
  · rintro (hc | ⟨hon, _⟩)
    · change .resume ∉ pending m.el.queue
      rw [hq hc]
      exact List.not_mem_nil
    · change m.el.taskRun = true at hon
      exact absurd hon (by rw [hoff]; decide)

/-! ### Calls -/

/-- The call leads from `A` to `B`, while the others move. -/
def Meets (relied : Prop) (A : Cell → Prop) (api : ElApi) (B : ℤ → Cell → Prop) : Prop :=
  ∀ c, Good c → A c →
    wp (fun _ => Moves relied) (fun _ _ => Good) (fun v _ _ c => Good c ∧ B v c) (code api.prog)
      false c c

/-- A call whose segments keep `A`, as the others do. -/
theorem Meets.of_wp {Rm : Mem → Mem → Prop} {Pm : Mem → Mem → Prop} {Qm : ℤ → Mem → Mem → Prop}
    {A₀ A : Cell → Prop} {B : ℤ → Cell → Prop}
    (hA : ∀ c c', Good c → A c → Move relied c c' → A c')
    (hR : ∀ c c', Good c → A c → Moves relied c c' → Rm c.m c'.m)
    (hP : ∀ c m, Good c → A c → Pm c.m m → Good (c.set m) ∧ A (c.set m))
    (hQ : ∀ v c m, Good c → A c → Qm v c.m m → Good (c.set m) ∧ B v (c.set m))
    (h : ∀ c, Good c → A₀ c →
      A c ∧ wp (fun _ => Rm) (fun _ => Pm) (fun v _ => Qm v) api.prog false c.m c.m) :
    Meets relied A₀ api B := by
  intro c hg ha₀
  have ⟨ha, hwp⟩ := h c hg ha₀
  unfold code
  refine wp_zoom (L := fun c₀ c => (Good c₀ ∧ A c₀) ∧ c.task = c₀.task) ?_ ?_ ?_ ?_ ?_ _
    ⟨⟨hg, ha⟩, rfl⟩ hwp
  · intro m c
    rfl
  · intro c₀ m c hL
    exact hL
  · intro _ _ c₀ c c' ⟨⟨hg, ha⟩, ht⟩ hp hm
    have hset := hP c₀ c.m hg ha hp
    rw [set_eq ht] at hset
    exact ⟨⟨hset.1.moves hA hset.2 hm, rfl⟩, hR c c' hset.1 hset.2 hm⟩
  · intro _ c₀ c ⟨⟨hg, ha⟩, ht⟩ hp
    have hset := hP c₀ c.m hg ha hp
    rw [set_eq ht] at hset
    exact hset.1
  · intro v _ c₀ c ⟨⟨hg, ha⟩, ht⟩ hq
    have hset := hQ v c₀ c.m hg ha hq
    rw [set_eq ht] at hset
    exact hset

/-- Less may be relied on. -/
theorem Meets.mono {relied' : Prop} {A : Cell → Prop} {B : ℤ → Cell → Prop}
    (h : Meets relied A api B) (hr : relied → relied') : Meets relied' A api B := by
  intro c hg ha
  refine wp_mono _ (fun _ c c' hm => ?_) (fun _ _ _ h => h) (fun _ _ _ _ h => h) (h c hg ha)
  refine Relation.ReflTransGen.mono (fun c c' hm => ?_) _ _ hm
  cases hm with
  | task ha hs => exact .task (fun hx => ha (hr hx)) hs
  | rings rings => exact .rings rings

/-- **A call that neither starts nor resumes an element** keeps it at rest if it is (`X` says
whether that is known), and `audio_element_terminate` brings it to rest when it returns `ESP_OK`. -/
theorem meets_rest {X : Prop} (hapi : api.Controls) (hrun : api ≠ .run)
    (hX : X → api.starts = false ∧ ¬api.Sends .resume) :
    Meets False (fun c => X → AtRest c) api fun v c =>
      (X → AtRest c) ∧ (api = .terminate → v = ESP_OK → AtRest c) := by
  refine .of_wp (fun _ _ hg ha hm hx => (ha hx).move hg hm) (fun _ _ hg _ hm => hg.rely hm)
    (fun _ _ hg ha hs => ⟨hg.seg hs, fun hx => (ha hx).seg hg hs (hX hx).1 (hX hx).2⟩) ?_
    fun _ hg ha => ⟨ha, wp_ctl hapi (hg.pre fun h => absurd h hrun)⟩
  intro v c m hg ha hs
  refine ⟨hg.seg hs, fun hx => (ha hx).seg hg hs (hX hx).1 (hX hx).2, ?_⟩
  rintro rfl rfl
  exact hg.ended hs

/-- **`audio_element_run`**, called while no thread has yet to begin, keeps a task that lasts. -/
theorem meets_run {X : Prop} :
    Meets False (fun c => c.m.el.threadCreated = false ∧ (X → Lasting c)) .run
      fun _ c => X → Lasting c :=
  .of_wp (fun _ _ hg hl hm hx => (hl hx).move hg hm) (fun _ _ hg _ hm => hg.rely hm)
    (fun _ _ hg hl hs => ⟨hg.seg hs, fun hx => (hl hx).seg hg hs id⟩)
    (fun _ _ _ hg hl hs => ⟨hg.seg hs, fun hx => (hl hx).seg hg hs id⟩)
    fun _ hg ha => ⟨ha.2, wp_ctl trivial (hg.pre fun _ => ha.1)⟩

/-- **`audio_element_resume`** keeps a task that lasts; if the task is relied on, it is there when
the call returns `ESP_OK`. -/
theorem meets_resume {X : Prop} :
    Meets X (fun c => X → Lasting c) (.resume 0) fun v c =>
      (v = ESP_OK ∨ v = ESP_FAIL) ∧ (X → Lasting c ∧ (v = ESP_OK → c.m.el.taskRun = true)) := by
  have hsends : ¬(ElApi.resume 0).Sends .destroy := nofun
  -- while the task is relied on, it stays
  have hrely : ∀ c c', Good c → (X → Lasting c) → Moves X c c' →
      CtlRely c.m c'.m ∧ (X → c.m.el.taskRun = true → c'.m.el.taskRun = true) := by
    intro c c' hg hl hm
    refine ⟨hg.rely hm, fun hx hon => ?_⟩
    refine (hg.moves (A := fun c => Lasting c ∧ c.m.el.taskRun = true) ?_ ⟨hl hx, hon⟩ hm).2.2
    intro c c' hg ⟨hl, hon⟩ hm
    exact ⟨hl.move hg hm, hm.taskRun hg hl hx hon⟩
  have hon : ∀ m, wp (fun _ m m' => CtlRely m m' ∧ (X → m.el.taskRun = true → m'.el.taskRun = true))
      (fun _ _ _ => True)
      (fun v _ _ m => (v = ESP_OK ∨ v = ESP_FAIL) ∧ (X → v = ESP_OK → m.el.taskRun = true))
      (audioElementResume 0) false m m := fun m =>
    wp_mono _ (fun _ _ _ h => h.2) (fun _ _ _ h => h) (fun _ _ _ _ h => h) wp_resume_on
  have hctl : ∀ c, Good c → wp
      (fun _ m m' => CtlRely m m' ∧ (X → m.el.taskRun = true → m'.el.taskRun = true))
      (fun _ => CtlSeg (.resume 0) none) (fun v _ => CtlSeg (.resume 0) (some v))
      (audioElementResume 0) false c.m c.m := fun c hg =>
    wp_mono _ (fun _ _ _ h => h.1) (fun _ _ _ h => h) (fun _ _ _ _ h => h)
      (wp_resume_ctl (hg.pre nofun))
  refine .of_wp (fun _ _ hg hl hm hx => (hl hx).move hg hm) hrely
    (fun _ _ hg hl hs => ⟨hg.seg hs.1, fun hx => (hl hx).seg hg hs.1 hsends⟩) ?_
    fun c hg ha => ⟨ha, wp_and _ (hctl c hg) (hon c.m)⟩
  intro v c m hg hl hs
  exact ⟨hg.seg hs.1, hs.2.1, fun hx => ⟨(hl hx).seg hg hs.1 hsends, hs.2.2 hx⟩⟩

end Cell

end AudioPipeline
