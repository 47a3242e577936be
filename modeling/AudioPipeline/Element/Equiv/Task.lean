import AudioPipeline.Element.Equiv.Handlers

/-!
# The invariant rule for the task of an element

A `TaskSpec` says what the others may do while the task stands at a scheduling point, what each
segment of the task guarantees, and what holds at each place where the task can stand.  It is
`Valid` when each function that the loop of `audio_element_task` calls meets its share.  Then
`TaskOk`, what the specification says of the place where the task stands now, is kept by the
others (`TaskOk.rely`) and by every step of the task (`TaskOk.step`).
-/

namespace AudioPipeline

open Prog

/-- The functions of the task that have scheduling points inside. -/
inductive Spot
  | begin
  | cmd (cmd : AelCmd)
  | proc
  | ending

/-- What is promised and assumed of a task. -/
structure TaskSpec where
  /-- What the others may do to the memory, given the answer of the callback the task waits for. -/
  rely : Option (Callback × ℤ) → Mem → Mem → Prop
  /-- What each segment of the task does to the memory. -/
  seg : Mem → Mem → Prop
  /-- What holds at a scheduling point inside a function, at the call of the callback or without. -/
  here : Spot → Option Callback → Mem → Prop
  /-- What holds between two steps, after this command with this result. -/
  rest : Option (AelCmd × ℤ) → Mem → Prop
  /-- What holds when there is no thread. -/
  idle : Mem → Prop
  /-- What holds when the loop has been left. -/
  left : Mem → Prop
  /-- The commands that the runs in question receive. -/
  admits : AelCmd → Mem → Prop

namespace TaskSpec

/-- What holds at a scheduling point of a segment. -/
def point (T : TaskSpec) (spot : Spot) (c : Option Callback) (s₀ s : Mem) : Prop :=
  T.here spot c s ∧ T.seg s₀ s

/-- After a command: its result decides whether the loop goes on. -/
def afterCmd (T : TaskSpec) (cmd : AelCmd) (ret : ℤ) (_ : Bool) (s₀ s : Mem) : Prop :=
  (if ret = AEL_IO_ABORT then T.left (Task.handled s)
    else T.rest (some (cmd, ret)) (Task.handled s)) ∧ T.seg s₀ (Task.handled s)

theorem afterCmd_of_ne {T : TaskSpec} {cmd : AelCmd} {ret : ℤ} {b : Bool} {s₀ s : Mem}
    (hret : ret ≠ AEL_IO_ABORT) (hrest : T.rest (some (cmd, ret)) (Task.handled s))
    (hseg : T.seg s₀ (Task.handled s)) : T.afterCmd cmd ret b s₀ s := by
  unfold afterCmd
  rw [if_neg hret]
  exact ⟨hrest, hseg⟩

theorem afterCmd_abort {T : TaskSpec} {cmd : AelCmd} {b : Bool} {s₀ s : Mem}
    (hleft : T.left (Task.handled s)) (hseg : T.seg s₀ (Task.handled s)) :
    T.afterCmd cmd AEL_IO_ABORT b s₀ s := by
  unfold afterCmd
  rw [if_pos rfl]
  exact ⟨hleft, hseg⟩

/-- After the beginning of the task, and after the process step. -/
def afterRest {α : Type} (T : TaskSpec) (_ : α) (_ : Bool) (s₀ s : Mem) : Prop :=
  T.rest none s ∧ T.seg s₀ s

/-- After the end of the task. -/
def afterEnd (T : TaskSpec) (_ : Unit) (_ : Bool) (s₀ s : Mem) : Prop :=
  T.idle s ∧ T.seg s₀ s

/-- The functions of the task meet their share. -/
structure Valid (T : TaskSpec) : Prop where
  rely_trans : ∀ {o m₁ m₂ m₃}, T.rely none m₁ m₂ → T.rely o m₂ m₃ → T.rely o m₁ m₃
  seg_refl : ∀ m, T.seg m m
  here_stable : ∀ {spot c m m'}, T.here spot c m → T.rely none m m' → T.here spot c m'
  rest_stable : ∀ {last m m'}, T.rest last m → T.rely none m m' → T.rest last m'
  idle_stable : ∀ {m m'}, T.idle m → T.rely none m m' → T.idle m'
  left_stable : ∀ {m m'}, T.left m → T.rely none m m' → T.left m'
  begin : ∀ {m}, T.idle m → wp T.rely (T.point .begin) T.afterRest audioElementTaskBegin false m
    { m with el := { m.el with threadCreated := false } }
  cmd : ∀ {m cmd queue}, T.rest none m → m.el.taskRun = true → m.el.queue = cmd :: queue →
    T.admits cmd m → wp T.rely (T.point (.cmd cmd)) (T.afterCmd cmd) (audioElementTaskCmd cmd)
      false m (Task.receive m cmd queue)
  proc : ∀ {m last}, T.rest last m →
    wp T.rely (T.point .proc) T.afterRest audioElementProcessRunning false m m
  leave : ∀ {m}, T.rest none m → m.el.taskRun = false → T.left m
  ending : ∀ {m}, T.left m →
    wp T.rely (T.point .ending) T.afterEnd audioElementTaskEnd false m m

end TaskSpec

/-- The callback whose answer the task waits for, with this answer. -/
def Task.answer (v : ℤ) : Task → Option (Callback × ℤ)
  | .begin p | .ending p => p.answer v
  | .inCmd _ p | .inProc p => p.answer v
  | .absent | .recv | .proc _ | .leave => none

/-- What the specification says of the place where the task stands. -/
def TaskOk (T : TaskSpec) : Task → Mem → Prop
  | .absent, m => T.idle m
  | .begin p, m =>
    T.here .begin p.callback m ∧ p.Ok T.rely (T.point .begin) T.afterRest m
  | .recv, m => T.rest none m
  | .inCmd cmd p, m =>
    T.here (.cmd cmd) p.callback m ∧ p.Ok T.rely (T.point (.cmd cmd)) (T.afterCmd cmd) m
  | .proc last, m => T.rest last m
  | .inProc p, m => T.here .proc p.callback m ∧ p.Ok T.rely (T.point .proc) T.afterRest m
  | .leave, m => T.left m
  | .ending p, m => T.here .ending p.callback m ∧ p.Ok T.rely (T.point .ending) T.afterEnd m

namespace TaskOk

variable {T : TaskSpec} {t t' : Task} {m m' : Mem} {v : ℤ}

/-- **The others keep it.** -/
theorem rely (hT : T.Valid) (h : TaskOk T t m) (hR : T.rely none m m') : TaskOk T t m' := by
  have hpt : ∀ {α : Type} {p : Point Mem Callback α} {P Q}, p.Ok T.rely P Q m →
      p.Ok T.rely P Q m' := fun hp => hp.rely fun _ _ h => hT.rely_trans hR h
  cases t with
  | absent => exact hT.idle_stable h hR
  | recv => exact hT.rest_stable h hR
  | proc last => exact hT.rest_stable h hR
  | leave => exact hT.left_stable h hR
  | begin p | inCmd cmd p | inProc p | ending p =>
    exact ⟨hT.here_stable h.1 hR, hpt h.2⟩

/-- A segment of the beginning of the task. -/
theorem ofBegin {m₀ : Mem} {p : Point Mem Callback Unit}
    (h : p.Ends (T.point .begin) T.afterRest m₀ m ∧
      p.Ok T.rely (T.point .begin) T.afterRest m) :
    TaskOk T (Task.ofBegin p) m ∧ T.seg m₀ m := by
  cases p with
  | done a =>
    obtain ⟨b, hrest, hseg⟩ := h.1
    exact ⟨hrest, hseg⟩
  | cut k => exact ⟨⟨h.1.1, h.2⟩, h.1.2⟩
  | call c k => exact ⟨⟨h.1.1, h.2⟩, h.1.2⟩

/-- A segment of a command. -/
theorem ofCmd {m₀ : Mem} {cmd : AelCmd} {p : Point Mem Callback ℤ}
    (h : p.Ends (T.point (.cmd cmd)) (T.afterCmd cmd) m₀ m ∧
      p.Ok T.rely (T.point (.cmd cmd)) (T.afterCmd cmd) m) :
    TaskOk T (Task.ofCmd cmd m p).2 (Task.ofCmd cmd m p).1 ∧
      T.seg m₀ (Task.ofCmd cmd m p).1 := by
  cases p with
  | done ret =>
    obtain ⟨b, hrest, hseg⟩ := h.1
    refine ⟨?_, hseg⟩
    rw [Task.ofCmd]
    dsimp only
    split_ifs at hrest ⊢ <;> exact hrest
  | cut k => exact ⟨⟨h.1.1, h.2⟩, h.1.2⟩
  | call c k => exact ⟨⟨h.1.1, h.2⟩, h.1.2⟩

/-- A segment of the process step. -/
theorem ofProc {m₀ : Mem} {p : Point Mem Callback ℤ}
    (h : p.Ends (T.point .proc) T.afterRest m₀ m ∧
      p.Ok T.rely (T.point .proc) T.afterRest m) :
    TaskOk T (Task.ofProc p) m ∧ T.seg m₀ m := by
  cases p with
  | done a =>
    obtain ⟨b, hrest, hseg⟩ := h.1
    exact ⟨hrest, hseg⟩
  | cut k => exact ⟨⟨h.1.1, h.2⟩, h.1.2⟩
  | call c k => exact ⟨⟨h.1.1, h.2⟩, h.1.2⟩

/-- A segment of the end of the task. -/
theorem ofEnd {m₀ : Mem} {p : Point Mem Callback Unit}
    (h : p.Ends (T.point .ending) T.afterEnd m₀ m ∧
      p.Ok T.rely (T.point .ending) T.afterEnd m) :
    TaskOk T (Task.ofEnd p) m ∧ T.seg m₀ m := by
  cases p with
  | done a =>
    obtain ⟨b, hidle, hseg⟩ := h.1
    exact ⟨hidle, hseg⟩
  | cut k => exact ⟨⟨h.1.1, h.2⟩, h.1.2⟩
  | call c k => exact ⟨⟨h.1.1, h.2⟩, h.1.2⟩

/-- **Every step of the task keeps it** and does what its segments promise, after what the others
have done (`m₁`).  The answer of the callback it waits for, and the command it receives, must be
among those in question. -/
theorem answered {m₁ : Mem} (hT : T.Valid) (h : TaskOk T t m) (hans : T.rely (t.answer v) m m₁)
    (hadm : ∀ cmd queue, t = .recv → m₁.el.taskRun = true → m₁.el.queue = cmd :: queue →
      T.admits cmd m₁)
    (hs : t.step m₁ v = some (m', t')) : TaskOk T t' m' ∧ T.seg m₁ m' := by
  cases t with
  | absent =>
    simp only [Task.step] at hs
    split_ifs at hs
    obtain ⟨rfl, rfl⟩ := Prod.mk.inj (Option.some.inj hs)
    exact ofBegin (Point.ends_resume _ (hT.begin (hT.idle_stable h hans)))
  | begin p =>
    obtain ⟨⟨m₂, p₂⟩, hp, heq⟩ := Option.map_eq_some_iff.mp hs
    obtain ⟨rfl, rfl⟩ := Prod.mk.inj heq
    exact ofBegin (h.2.answered hans hp)
  | recv =>
    have h₁ : T.rest none m₁ := hT.rest_stable h hans
    simp only [Task.step] at hs
    split_ifs at hs with hrun
    · cases hq : m₁.el.queue with
      | nil =>
        rw [hq] at hs
        obtain ⟨rfl, rfl⟩ := Prod.mk.inj (Option.some.inj hs)
        exact ⟨h₁, hT.seg_refl _⟩
      | cons cmd queue =>
        rw [hq] at hs
        have hc := ofCmd (Point.ends_resume _ (hT.cmd h₁ hrun hq (hadm cmd queue rfl hrun hq)))
        rw [Option.some.inj hs] at hc
        exact hc
    · obtain ⟨rfl, rfl⟩ := Prod.mk.inj (Option.some.inj hs)
      exact ⟨hT.leave h₁ (by simpa using hrun), hT.seg_refl _⟩
  | inCmd cmd p =>
    obtain ⟨⟨m₂, p₂⟩, hp, heq⟩ := Option.map_eq_some_iff.mp hs
    have hc := ofCmd (h.2.answered hans hp)
    rw [heq] at hc
    exact hc
  | proc last =>
    obtain ⟨rfl, rfl⟩ := Prod.mk.inj (Option.some.inj hs)
    exact ofProc (Point.ends_resume _ (hT.proc (hT.rest_stable h hans)))
  | inProc p =>
    obtain ⟨⟨m₂, p₂⟩, hp, heq⟩ := Option.map_eq_some_iff.mp hs
    obtain ⟨rfl, rfl⟩ := Prod.mk.inj heq
    exact ofProc (h.2.answered hans hp)
  | leave =>
    obtain ⟨rfl, rfl⟩ := Prod.mk.inj (Option.some.inj hs)
    exact ofEnd (Point.ends_resume _ (hT.ending (hT.left_stable h hans)))
  | ending p =>
    obtain ⟨⟨m₂, p₂⟩, hp, heq⟩ := Option.map_eq_some_iff.mp hs
    obtain ⟨rfl, rfl⟩ := Prod.mk.inj heq
    exact ofEnd (h.2.answered hans hp)

/-- **Every step of the task keeps it**, when the others have done nothing. -/
theorem step (hT : T.Valid) (h : TaskOk T t m) (hans : T.rely (t.answer v) m m)
    (hadm : ∀ cmd queue, t = .recv → m.el.taskRun = true → m.el.queue = cmd :: queue →
      T.admits cmd m)
    (hs : t.step m v = some (m', t')) : TaskOk T t' m' ∧ T.seg m m' :=
  h.answered hT hans hadm hs

end TaskOk

end AudioPipeline
