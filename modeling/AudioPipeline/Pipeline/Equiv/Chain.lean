import AudioPipeline.Element.Equiv.Sys
import AudioPipeline.Pipeline.Chain

/-!
# The invariant rule for a chain

Every element of a chain meets the same `TaskSpec`.  A step of one element keeps what the
specification says of it (`ChainOk.el`); the others see no more of the step than what it does to
the rings (`ChainOk.others`).
-/

namespace AudioPipeline

namespace Chain

variable {n : ℕ} {s s' : Chain n} {i j : Fin n} {e : ElSys}
  {config : Fin n → AudioElementCfg} {rings : ℕ → Ringbuf}

@[simp] theorem view_put_self (s : Chain n) (i : Fin n) (e : ElSys) : (s.put i e).view i = e := by
  simp [view, put, RbTrace.setRb]

theorem view_put_ne (h : j ≠ i) (s : Chain n) (e : ElSys) :
    (s.put i e).view j = { s.view j with m := { (s.view j).m with rings := e.m.rings } } := by
  simp [view, put, RbTrace.setRb, Function.update_of_ne h]

/-- The ring buffer that an element was linked to read from. -/
theorem input_link (i : Fin n) : ((link config rings).cell i).m.el.input.handle =
    if 0 < i.val then some (i.val - 1) else none := by
  show Port.handle (if 0 < i.val then _ else if (config i).read = true then _ else _) = _
  split_ifs <;> rfl

/-- The ring buffer that an element was linked to write to. -/
theorem output_link (i : Fin n) : ((link config rings).cell i).m.el.output.handle =
    if i.val + 1 < n then some i.val else none := by
  show Port.handle (if i.val + 1 < n then _ else if (config i).write = true then _ else _) = _
  split_ifs <;> rfl

/-- The output ring buffers as the elements were linked. -/
theorem outputs_link (i : Fin n) : ((link config rings).cell i).m.el.outputs =
    if i.val + 1 < n then [i.val] else [] := by
  have hmulti : (List.replicate (config i).multiOutRbNum (none : Option ℕ)).filterMap id = [] := by
    rw [List.filterMap_replicate_of_none rfl]
  show Port.handles (if i.val + 1 < n then _ else if (config i).write = true then _ else _)
    (List.replicate (config i).multiOutRbNum none) = _
  split_ifs
  · show i.val :: List.filterMap id _ = _
    rw [hmulti]
  · rfl
  · rfl

/-- A step of element `i` is one of `ElSys` on the rings as they are. -/
theorem stepEl_some {i : Fin n} {l : ElLabel} (hs : s.stepEl i l = some s') :
    ∃ e, (s.view i).step l = some e ∧ s' = s.put i e := by
  have hmap : ((s.view i).step l).map (s.put i) = some s' := by
    cases l with
    | call | ctl => exact hs
    | task v =>
      rw [stepEl] at hs
      split_ifs at hs
      exact hs
  obtain ⟨e, he, rfl⟩ := Option.map_eq_some_iff.mp hmap
  exact ⟨e, he, rfl⟩

/-- A call on a ring changes nothing but the ring. -/
theorem ring_some {h : ℕ} {l : RbLabel (Fin n)} (hs : s.step (.ring h l) = some s') :
    s.admits h l = true ∧ ∃ ring, (s.ring h).step l = some ring ∧
      s' = { s with ring := Function.update s.ring h ring } := by
  rw [Chain.step] at hs
  split_ifs at hs with hadmits
  obtain ⟨ring, hring, rfl⟩ := Option.map_eq_some_iff.mp hs
  exact ⟨hadmits, ring, hring, rfl⟩

end Chain

/-- A segment of a step of an element: of its task, or of a call. -/
def ElSeg (T : TaskSpec) (A : ElApi → Prop) (l : ElLabel) (m m' : Mem) : Prop :=
  (∃ v, l = .task v) ∧ T.seg m m' ∨
    ∃ api m₀, A api ∧ (m₀ = m ∨ m₀ = ElSys.noted api m) ∧ ApiSeg api m₀ m'

/-- What the specification says of an element that has a task. -/
def CellOk (T : TaskSpec) (A : ElApi → Prop) (e : ElSys) : Prop :=
  ElOk T apiSpec A e ∧ HasTask e.m

namespace CellOk

variable {n : ℕ} {T : TaskSpec} {A : ElApi → Prop} {e e' : ElSys} {l : ElLabel}

/-- **A step of the element itself.** -/
theorem step (hV : Compatible T apiSpec A)
    (hstack : ∀ {m m'}, T.seg m m' → m'.el.taskStack = m.el.taskStack) (h : CellOk T A e)
    (hl : T.Takes A e l) (hs : e.step l = some e') : CellOk T A e' ∧ ElSeg T A l e.m e'.m := by
  have hst : 0 < e.m.el.taskStack := h.2
  cases l with
  | call api =>
    have ⟨hok, o, hc⟩ := h.1.call hV hl (h.2.noteCall api) hs
    refine ⟨⟨hok, ?_⟩, Or.inr ⟨api, _, hl, Or.inr rfl, hc.seg⟩⟩
    unfold HasTask
    rw [hc.seg.taskStack]
    exact h.2.noteCall api
  | ctl =>
    have ⟨hok, api, p, o, _, hapi, hc⟩ := h.1.ctl hV (fun _ _ _ => h.2) hs
    refine ⟨⟨hok, ?_⟩, Or.inr ⟨api, _, hapi, Or.inl rfl, hc.seg⟩⟩
    unfold HasTask
    rw [hc.seg.taskStack]
    exact hst
  | task v =>
    have ⟨hok, hran⟩ := h.1.task hV hl.1 hl.2 hs
    refine ⟨⟨hok, ?_⟩, Or.inl ⟨⟨v, rfl⟩, hran.seg⟩⟩
    unfold HasTask
    rw [hstack hran.seg]
    exact hst

/-- **The others** change no more than the rings. -/
theorem others (hV : Compatible T apiSpec A) (h : CellOk T A e) {rings : ℕ → Ringbuf}
    (hR : T.rely none e.m { e.m with rings := rings }) :
    CellOk T A { e with m := { e.m with rings := rings } } := by
  refine ⟨⟨h.1.1.rely hV.task hR, ?_⟩, h.2⟩
  have hc := h.1.2
  dsimp only
  cases hctl : e.ctl with
  | idle => trivial
  | calling api p =>
    rw [hctl] at hc
    exact ⟨hc.1, hc.2.rely fun _ _ h => h⟩

end CellOk

end AudioPipeline
