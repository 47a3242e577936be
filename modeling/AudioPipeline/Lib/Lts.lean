import Mathlib.Logic.Relation
import Mathlib.Tactic.SplitIfs

/-!
# Labelled systems and the states they reach

A system is a partial step function `σ → lbl → Option σ`: the label names the thread that moves
and settles every choice the step leaves open, so that a list of labels is a run.

* `Reach step P s₀ s`: `s` is reached from `s₀` by steps each of which meets `P` in the state it
  leaves.  `P` carries both the alphabet of the run (which labels may occur at all) and the side
  conditions on the states in which they are taken.
* `Reach.invariant` is the induction rule; `Reach.of_run` turns an evaluated list of labels into a
  reached state.
-/

namespace Lts

variable {σ lbl : Type*} {step : σ → lbl → Option σ} {P Q : σ → lbl → Prop} {s₀ s s' : σ}

/-- One step by a label that `P` admits. -/
def Move (step : σ → lbl → Option σ) (P : σ → lbl → Prop) (s s' : σ) : Prop :=
  ∃ l, P s l ∧ step s l = some s'

/-- `s` is reached from `s₀` by steps that all meet `P`. -/
def Reach (step : σ → lbl → Option σ) (P : σ → lbl → Prop) : σ → σ → Prop :=
  Relation.ReflTransGen (Move step P)

theorem Reach.refl : Reach step P s₀ s₀ := Relation.ReflTransGen.refl

theorem Reach.tail {l : lbl} (h : Reach step P s₀ s) (hP : P s l) (hs : step s l = some s') :
    Reach step P s₀ s' :=
  Relation.ReflTransGen.tail h ⟨l, hP, hs⟩

theorem Reach.head {l : lbl} (hP : P s₀ l) (hs : step s₀ l = some s) (h : Reach step P s s') :
    Reach step P s₀ s' :=
  Relation.ReflTransGen.head ⟨l, hP, hs⟩ h

/-- **The invariant rule**: what holds at the start and survives every admitted step holds in
every reached state. -/
theorem Reach.invariant {I : σ → Prop} (h : Reach step P s₀ s) (h₀ : I s₀)
    (hstep : ∀ s l s', I s → P s l → step s l = some s' → I s') : I s := by
  induction h with
  | refl => exact h₀
  | tail _ hm ih =>
    obtain ⟨l, hP, hs⟩ := hm
    exact hstep _ l _ ih hP hs

/-- The invariant rule, when the step needs to know that the state it leaves is reached. -/
theorem Reach.invariant_reach {I : σ → Prop} (h : Reach step P s₀ s) (h₀ : I s₀)
    (hstep : ∀ s l s', Reach step P s₀ s → I s → P s l → step s l = some s' → I s') : I s := by
  suffices hall : Reach step P s₀ s ∧ I s from hall.2
  refine h.invariant (I := fun s => Reach step P s₀ s ∧ I s) ⟨Reach.refl, h₀⟩ ?_
  rintro s l s' ⟨hr, hi⟩ hP hs
  exact ⟨hr.tail hP hs, hstep s l s' hr hi hP hs⟩

/-- A weaker condition reaches more. -/
theorem Reach.mono (h : Reach step P s₀ s) (hPQ : ∀ s l, P s l → Q s l) : Reach step Q s₀ s :=
  Relation.ReflTransGen.mono (fun _ _ ⟨l, hP, hs⟩ => ⟨l, hPQ _ l hP, hs⟩) _ _ h

/-- The run of a list of labels; it stops at a label that `P` refuses or that is not enabled. -/
def run (step : σ → lbl → Option σ) (P : σ → lbl → Prop) [∀ s l, Decidable (P s l)] :
    σ → List lbl → Option σ
  | s, [] => some s
  | s, l :: ls => if P s l then (step s l).bind fun s' => run step P s' ls else none

theorem Reach.of_run [∀ s l, Decidable (P s l)] : ∀ (ls : List lbl) {s : σ},
    Reach step P s₀ s → run step P s ls = some s' → Reach step P s₀ s'
  | [], s, h, hr => by
    obtain rfl := Option.some.inj hr
    exact h
  | l :: ls, s, h, hr => by
    rw [run] at hr
    split_ifs at hr with hP
    obtain ⟨s₁, hs, hr⟩ := Option.bind_eq_some_iff.mp hr
    exact Reach.of_run ls (h.tail hP hs) hr

end Lts
