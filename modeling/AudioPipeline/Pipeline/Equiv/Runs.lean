import AudioPipeline.Lib.Lts
import AudioPipeline.Pipeline.Equiv.Control

/-!
# Runs of a pipeline

A `PipeSpec` says what the steps of a run have to heed and what its calls promise in return.
`PipeSpec.Valid` is checked call by call, with the rules of `Control`; `PipeSpec.Inv.of_reach` is
then about whole runs: the application calls what it likes in any order, and the tasks move between
all its steps.
-/

namespace AudioPipeline

open Prog Pipe

namespace Pipe

/-- The lists may become others; the elements stay as good as they are. -/
theorem Good.relink {p : Pipe} (h : p.Good) (l : Links) : (p.relink l).Good := fun e =>
  { life := fun ht => ((h e).life ht).rely lifeSpec.valid ⟨rfl, rfl⟩
    known := (h e).known
    created := (h e).created
    taskless := (h e).taskless
    runs := (h e).runs }

theorem good_start (config : ℕ → AudioElementCfg) (links : Links) :
    (PipeSys.start config links).pipe.Good := fun _ =>
  { life := fun _ => ⟨rfl, rfl⟩
    known := trivial
    created := nofun
    taskless := fun _ => ⟨rfl, rfl⟩
    runs := nofun }

end Pipe

/-- What is asked of a run, and what it promises. -/
structure PipeSpec where
  /-- The calls during which tasks are relied on. -/
  relied : PipeApi → Prop
  /-- Where the application may go on in a call. -/
  goes : PipeApi → Pipe → Prop
  /-- Where it may call. -/
  pre : PipeApi → Pipe → Prop
  /-- The lists may be changed. -/
  relinks : Prop
  /-- What holds between two calls. -/
  rest : Pipe → Prop
  /-- What holds when a call returns. -/
  post : PipeApi → ℤ → Pipe → Prop

namespace PipeSpec

/-- The step heeds what is asked of it. -/
def Heeds (S : PipeSpec) (s : PipeSys) : PipeLabel → Prop
  | .links _ => S.relinks
  | .call api => S.pre api s.pipe
  | .ctl => ∀ api, s.ctl.api = some api → S.goes api s.pipe
  | .task e v => ∀ api, s.ctl.api = some api → S.relied api → s.pipe.Relies e →
      ¬(s.pipe.cell e).task.AllocFails v
  | .io _ _ => True

/-- Where a call returns. -/
def Returned (S : PipeSpec) (api : PipeApi) (v : ℤ) (p : Pipe) : Prop :=
  p.Good ∧ S.rest p ∧ S.post api v p

/-- The calls keep the promises. -/
structure Valid (S : PipeSpec) : Prop where
  rest_move : ∀ {p p'}, p.Good → S.rest p → Move False p p' → S.rest p'
  rest_relink : S.relinks → ∀ {p} (l : Links), S.rest p → S.rest (p.relink l)
  call : ∀ {api p}, p.Good → S.rest p → S.pre api p →
    wp (Others (S.relied api) (S.goes api)) Sound (fun v _ _ => S.Returned api v) api.prog false
      { p with called := [], returned := none } { p with called := [], returned := none }

/-- **What holds at all times.** -/
structure Inv (S : PipeSpec) (s : PipeSys) : Prop where
  good : s.pipe.Good
  idle : s.ctl = .idle →
    S.rest s.pipe ∧ ∀ api v, s.answered = some (api, v) → S.post api v s.pipe
  calling : ∀ api pt, s.ctl = .calling api pt → s.answered = none ∧
    pt.Ok (Others (S.relied api) (S.goes api)) Sound (fun v _ _ => S.Returned api v) s.pipe

variable {S : PipeSpec} {s s' : PipeSys} {config : ℕ → AudioElementCfg} {links : Links}

/-- The application has run a segment of its call. -/
theorem Inv.afterCtl {api : PipeApi} {p₀ : Pipe} {r : Pipe × Point Pipe Callback ℤ}
    (h : r.2.Ends Sound (fun v _ _ => S.Returned api v) p₀ r.1 ∧
      r.2.Ok (Others (S.relied api) (S.goes api)) Sound (fun v _ _ => S.Returned api v) r.1) :
    S.Inv (PipeSys.afterCtl api r) := by
  obtain ⟨p, pt⟩ := r
  have ⟨hends, hok⟩ := h
  cases pt with
  | done v =>
    obtain ⟨_, hgood, hrest, hpost⟩ := hends
    refine ⟨hgood, fun _ => ⟨hrest, ?_⟩, nofun⟩
    intro api' v' hans
    obtain ⟨rfl, rfl⟩ := Prod.mk.inj (Option.some.inj hans)
    exact hpost
  | cut k =>
    refine ⟨hends, nofun, ?_⟩
    rintro _ _ ⟨⟩
    exact ⟨rfl, hok⟩
  | call c k =>
    refine ⟨hends, nofun, ?_⟩
    rintro _ _ ⟨⟩
    exact ⟨rfl, hok⟩

/-- A move of the others. -/
theorem Inv.move (hV : S.Valid) (h : S.Inv s) {p : Pipe}
    (hm : ∀ b : Prop, (b → ∃ api, s.ctl.api = some api ∧ S.relied api) → Move b s.pipe p) :
    S.Inv { s with pipe := p, answered := none } := by
  have hgood : p.Good := h.good.move (hm False False.elim)
  constructor
  · exact hgood
  · intro hidle
    exact ⟨hV.rest_move h.good (h.idle hidle).1 (hm False False.elim), nofun⟩
  · intro api pt hctl
    have hctl : s.ctl = .calling api pt := hctl
    refine ⟨rfl, (h.calling api pt hctl).2.rely ?_⟩
    rintro o p' ⟨hmoves, hgoes⟩
    refine ⟨hmoves.head (hm _ fun hr => ⟨api, ?_, hr⟩), hgoes⟩
    rw [hctl]
    rfl

/-- **One step.** -/
theorem Inv.step (hV : S.Valid) (h : S.Inv s) {l : PipeLabel} (hl : S.Heeds s l)
    (hs : PipeSys.step s l = some s') : S.Inv s' := by
  cases l with
  | links op =>
    cases hctl : s.ctl with
    | calling api pt =>
      simp only [PipeSys.step, hctl] at hs
      exact nomatch hs
    | idle =>
      cases hop : op.IsCall with
      | false =>
        simp only [PipeSys.step, hctl, hop] at hs
        exact nomatch hs
      | true =>
        simp only [PipeSys.step, hctl, hop] at hs
        obtain rfl := Option.some.inj hs
        exact ⟨h.good.relink _, fun _ => ⟨hV.rest_relink hl _ (h.idle hctl).1, nofun⟩, nofun⟩
  | call api =>
    cases hctl : s.ctl with
    | calling api' pt =>
      simp only [PipeSys.step, hctl] at hs
      exact nomatch hs
    | idle =>
      simp only [PipeSys.step, hctl] at hs
      obtain rfl := Option.some.inj hs
      exact .afterCtl (Point.ends_resume _ (hV.call h.good (h.idle hctl).1 hl))
  | ctl =>
    cases hctl : s.ctl with
    | idle =>
      simp only [PipeSys.step, hctl] at hs
      exact nomatch hs
    | calling api pt =>
      simp only [PipeSys.step, hctl] at hs
      obtain ⟨r, hr, rfl⟩ := Option.map_eq_some_iff.mp hs
      have hgoes : S.goes api s.pipe := hl api (by rw [hctl]; rfl)
      exact .afterCtl ((h.calling api pt hctl).2.step ⟨Relation.ReflTransGen.refl, hgoes⟩ hr)
  | task e v =>
    obtain ⟨p, hp, rfl⟩ := Option.map_eq_some_iff.mp hs
    refine h.move hV fun b hb => .task (fun hr hrel => ?_) hp
    obtain ⟨api, hapi, hrelied⟩ := hb hr
    exact hl api hapi hrelied hrel
  | io rb ring =>
    obtain rfl := Option.some.inj hs
    exact h.move hV fun _ _ => .io rb ring

/-- **Every run that heeds what is asked keeps the promises.** -/
theorem Inv.of_reach (hV : S.Valid) (hstart : S.rest (PipeSys.start config links).pipe)
    (h : Lts.Reach PipeSys.step S.Heeds (PipeSys.start config links) s) : S.Inv s := by
  have h₀ : S.Inv (PipeSys.start config links) :=
    ⟨good_start config links, fun _ => ⟨hstart, nofun⟩, nofun⟩
  exact h.invariant h₀ fun _ _ _ hI hl hs => hI.step hV hl hs

end PipeSpec

end AudioPipeline
