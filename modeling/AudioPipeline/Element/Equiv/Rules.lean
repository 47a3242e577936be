import AudioPipeline.Element.Sys
import Mathlib.Tactic.MkIffOfInductiveProp

/-!
# Rules for the code of an element

The preconditions of the building blocks of `ElProg`, as rewriting rules: with them the
precondition of a handler unfolds into what must hold at each of its scheduling points and at each
of its returns.  `Own` says that others leave alone what only the task of an element writes.
-/

namespace AudioPipeline

open Prog

section Rules

variable {R : Option (Callback × ℤ) → Mem → Mem → Prop} {P : Option Callback → Mem → Mem → Prop}
  {b : Bool} {s₀ s : Mem}

@[simp] theorem wp_element {Q : Element → Bool → Mem → Mem → Prop} :
    wp R P Q element b s₀ s ↔ commit R P (fun s₀ s => Q s.el false s₀ s) b s₀ s := Iff.rfl

@[simp] theorem wp_setEl {Q : Unit → Bool → Mem → Mem → Prop} (f : Element → Element) :
    wp R P Q (setEl f) b s₀ s ↔
      commit R P (fun s₀ s => Q () false s₀ { s with el := f s.el }) b s₀ s := Iff.rfl

@[simp] theorem wp_forceSetState {Q : Unit → Bool → Mem → Mem → Prop} (st : AelState) :
    wp R P Q (audioElementForceSetState st) b s₀ s ↔
      commit R P (fun s₀ s => Q () false s₀ { s with el := { s.el with state := st } }) b s₀ s :=
  Iff.rfl

@[simp] theorem wp_reportStatus {Q : Unit → Bool → Mem → Mem → Prop} (st : AelStatus) :
    wp R P Q (audioElementReportStatus st) b s₀ s ↔
      commit R P (fun s₀ s => Q () false s₀
        { s with el := { s.el with reports := s.el.reports ++ [st] } }) b s₀ s :=
  Iff.rfl

@[simp] theorem wp_setWaiting {Q : Unit → Bool → Mem → Mem → Prop} (n : ℕ) :
    wp R P Q (audioEventIfaceSetCmdWaitingTimeout n) b s₀ s ↔
      commit R P (fun s₀ s => Q () false s₀ { s with el := { s.el with waitTime := n } }) b s₀ s :=
  Iff.rfl

@[simp] theorem wp_setBits {Q : Unit → Bool → Mem → Mem → Prop} (bit : StateBit) :
    wp R P Q (xEventGroupSetBits bit) b s₀ s ↔
      commit R P (fun s₀ s => Q () true s₀
        { s with el := { s.el with stateEvent := Function.update s.el.stateEvent bit true } })
        b s₀ s :=
  Iff.rfl

@[simp] theorem wp_clearBits {Q : Unit → Bool → Mem → Mem → Prop} (bit : StateBit) :
    wp R P Q (xEventGroupClearBits bit) b s₀ s ↔
      commit R P (fun s₀ s => Q () true s₀
        { s with el := { s.el with stateEvent := Function.update s.el.stateEvent bit false } })
        b s₀ s :=
  Iff.rfl

@[simp] theorem wp_note {Q : Unit → Bool → Mem → Mem → Prop} (f : Mem → History) :
    wp R P Q (note f) b s₀ s ↔
      commit R P (fun s₀ s => Q () false s₀ { s with hist := f s }) b s₀ s := Iff.rfl

@[simp] theorem wp_callOpen {Q : ℤ → Bool → Mem → Mem → Prop} :
    wp R P Q callOpen false s₀ s ↔
      P (some .open) s₀ { s with hist := { s.hist with trace := s.hist.trace ++ [.open] } } ∧
      ∀ s' v, R (some (.open, v))
          { s with hist := { s.hist with trace := s.hist.trace ++ [.open] } } s' →
        Q v false s' { s' with hist := { s'.hist with
          failed := s'.hist.failed || OpenFails v
          openFailed := OpenFails v
          starting := s'.hist.starting && ¬OpenFails v } } := Iff.rfl

@[simp] theorem wp_callClose {Q : Unit → Bool → Mem → Mem → Prop} :
    wp R P Q callClose false s₀ s ↔
      P (some .close) s₀ { s with hist := { s.hist with trace := s.hist.trace ++ [.close] } } ∧
      ∀ s' v, R (some (.close, v))
          { s with hist := { s.hist with trace := s.hist.trace ++ [.close] } } s' →
        Q () false s' s' := Iff.rfl

@[simp] theorem wp_callProcess {Q : ℤ → Bool → Mem → Mem → Prop} :
    wp R P Q callProcess false s₀ s ↔
      P (some .process) s₀ { s with hist := { s.hist with
        starting := false
        startedDirty := s.hist.startedDirty ||
          s.hist.starting && !s.el.outputs.all fun h => (s.rings h).Clean } } ∧
      ∀ s' v, R (some (.process, v)) { s with hist := { s.hist with
          starting := false
          startedDirty := s.hist.startedDirty ||
            s.hist.starting && !s.el.outputs.all fun h => (s.rings h).Clean } } s' →
        Q v false s' { s' with hist := { s'.hist with
          failed := s'.hist.failed || ProcessFails v } } := Iff.rfl

end Rules

/-! ### Rings -/

@[simp] theorem onRings_el (m : Mem) (f : Ringbuf → Ringbuf) (hs : List ℕ) :
    (m.onRings f hs).el = m.el := by
  unfold Mem.onRings
  induction hs generalizing m with
  | nil => rfl
  | cons h hs ih =>
    rw [List.foldl_cons, ih]

@[simp] theorem onRings_hist (m : Mem) (f : Ringbuf → Ringbuf) (hs : List ℕ) :
    (m.onRings f hs).hist = m.hist := by
  unfold Mem.onRings
  induction hs generalizing m with
  | nil => rfl
  | cons h hs ih =>
    rw [List.foldl_cons, ih]

/-- Only the ring buffers change. -/
theorem onRings_eq (m : Mem) (f : Ringbuf → Ringbuf) (hs : List ℕ) :
    m.onRings f hs = { m with rings := (m.onRings f hs).rings } := by
  show (⟨(m.onRings f hs).el, (m.onRings f hs).rings, (m.onRings f hs).hist⟩ : Mem) = _
  rw [onRings_el, onRings_hist]

theorem onRings_rings (m : Mem) (f : Ringbuf → Ringbuf) (hs : List ℕ) {h : ℕ} (hh : h ∉ hs) :
    (m.onRings f hs).rings h = m.rings h := by
  unfold Mem.onRings
  induction hs generalizing m with
  | nil => rfl
  | cons h' hs ih =>
    rw [List.mem_cons, not_or] at hh
    rw [List.foldl_cons, ih _ hh.2]
    exact Function.update_of_ne hh.1 _ _

/-- What `f` keeps of a ring buffer holds after it. -/
theorem onRings_keeps {I : Ringbuf → Prop} {f : Ringbuf → Ringbuf} (hf : ∀ rb, I rb → I (f rb))
    {m : Mem} (hs : List ℕ) {h : ℕ} (hI : I (m.rings h)) : I ((m.onRings f hs).rings h) := by
  unfold Mem.onRings
  induction hs generalizing m with
  | nil => exact hI
  | cons h' hs ih =>
    rw [List.foldl_cons]
    refine ih ?_
    dsimp only
    by_cases hh : h = h'
    · subst hh
      rw [Function.update_self]
      exact hf _ hI
    · rw [Function.update_of_ne hh]
      exact hI

/-- What `f` makes of every ring buffer, and keeps, holds of those it was called for. -/
theorem onRings_makes {I : Ringbuf → Prop} {f : Ringbuf → Ringbuf} (hf : ∀ rb, I (f rb))
    {m : Mem} {hs : List ℕ} {h : ℕ} (hh : h ∈ hs) : I ((m.onRings f hs).rings h) := by
  induction hs generalizing m with
  | nil => exact absurd hh List.not_mem_nil
  | cons h' hs ih =>
    by_cases hin : h ∈ hs
    · exact ih hin
    · obtain rfl : h = h' := (List.mem_cons.mp hh).resolve_right hin
      refine onRings_keeps (fun rb _ => hf rb) hs ?_
      dsimp only
      rw [Function.update_self]
      exact hf _

theorem marked_abort {rb : Ringbuf} : rb.abort.Marked := Or.inr rfl

theorem marked_done {rb : Ringbuf} : rb.doneWrite.Marked := Or.inl rfl

theorem clean_reset {rb : Ringbuf} : (rbReset rb).Clean := ⟨rfl, rfl, rfl, rfl⟩

section RingRules

variable {R : Option (Callback × ℤ) → Mem → Mem → Prop} {P : Option Callback → Mem → Mem → Prop}
  {b : Bool} {s₀ s : Mem} {Q : Unit → Bool → Mem → Mem → Prop}

@[simp] theorem wp_onOutputs (f : Ringbuf → Ringbuf) :
    wp R P Q (onOutputs f) b s₀ s ↔
      commit R P (fun s₀ s => Q () false s₀
        (s.onRings f s.el.outputs)) b s₀ s := Iff.rfl

@[simp] theorem wp_onInputs (f : Ringbuf → Ringbuf) :
    wp R P Q (onInputs f) b s₀ s ↔
      commit R P (fun s₀ s => Q () false s₀
        (s.onRings f s.el.inputs)) b s₀ s := Iff.rfl

end RingRules

/-! ### What only the task writes -/

/-- The fields that only the task of an element writes, its callbacks, and the history of its
calls are the same in `m'` as in `m`. -/
@[mk_iff]
structure Own (m m' : Mem) : Prop where
  isRunning : m'.el.isRunning = m.el.isRunning
  isOpen : m'.el.isOpen = m.el.isOpen
  taskRun : m'.el.taskRun = m.el.taskRun
  hasOpen : m'.el.hasOpen = m.el.hasOpen
  hasClose : m'.el.hasClose = m.el.hasClose
  trace : m'.hist.trace = m.hist.trace
  handling : m'.hist.handling = m.hist.handling

theorem Own.refl (m : Mem) : Own m m := ⟨rfl, rfl, rfl, rfl, rfl, rfl, rfl⟩

theorem Own.trans {m₁ m₂ m₃ : Mem} (h : Own m₁ m₂) (h' : Own m₂ m₃) : Own m₁ m₃ :=
  ⟨h'.1.trans h.1, h'.2.trans h.2, h'.3.trans h.3, h'.4.trans h.4, h'.5.trans h.5,
    h'.6.trans h.6, h'.7.trans h.7⟩

/-- An element keeps its ports. -/
@[mk_iff]
structure SamePorts (m m' : Mem) : Prop where
  input : m'.el.input = m.el.input
  output : m'.el.output = m.el.output
  multiIn : m'.el.multiIn = m.el.multiIn
  multiOut : m'.el.multiOut = m.el.multiOut

namespace SamePorts

variable {m m₁ m' : Mem}

theorem refl (m : Mem) : SamePorts m m := ⟨rfl, rfl, rfl, rfl⟩

theorem trans (h : SamePorts m m₁) (h' : SamePorts m₁ m') : SamePorts m m' :=
  ⟨h'.1.trans h.1, h'.2.trans h.2, h'.3.trans h.3, h'.4.trans h.4⟩

theorem outputs (h : SamePorts m m') : m'.el.outputs = m.el.outputs := by
  rw [Element.outputs, Element.outputs, h.output, h.multiOut]

theorem inputs (h : SamePorts m m') : m'.el.inputs = m.el.inputs := by
  rw [Element.inputs, Element.inputs, h.input, h.multiIn]

end SamePorts

/-- `audio_element_pause` sets the state of an element that has stopped, finished or failed to
`AEL_STATE_PAUSED`. -/
def Paused (st st' : AelState) : Prop :=
  st' = st ∨ AelState.paused.val ≤ st.val ∧ st' = .paused

theorem Paused.trans {st₁ st₂ st₃ : AelState} (h : Paused st₁ st₂) (h' : Paused st₂ st₃) :
    Paused st₁ st₃ := by
  rcases h' with rfl | ⟨h1, rfl⟩
  · exact h
  · rcases h with rfl | ⟨h2, rfl⟩
    · exact Or.inr ⟨h1, rfl⟩
    · exact Or.inr ⟨h2, rfl⟩

end AudioPipeline
