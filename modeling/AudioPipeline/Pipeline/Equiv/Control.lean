import AudioPipeline.Pipeline.Equiv.Cell

/-!
# Rules for the functions that run a pipeline

`Pipe.Has` is an assertion about a pipeline: its state, its list, the calls made so far, and one
assertion for each of its elements.  `wp_callEl` is the rule of a call: only the assertion of the
element called changes.  `wp_forLinked` is the rule of a loop, and `wp_phase` the one of a loop that
leads each linked element from one assertion to another.
-/

namespace AudioPipeline

open Prog

namespace Pipe

variable {p p' : Pipe} {e : ℕ}

@[simp] theorem cell_put_self (p : Pipe) (e : ℕ) (c : Cell) : (p.put e c).cell e = c := by
  simp [cell, put, Cell.withRings]

theorem cell_put_ne {e' : ℕ} (h : e' ≠ e) (p : Pipe) (c : Cell) :
    (p.put e c).cell e' = (p.cell e').withRings c.m.rings := by
  simp [cell, put, Cell.withRings, Function.update_of_ne h]

/-- The task of the element is relied on: `audio_element_resume` has been called, and the pipeline
is not in the error state. -/
def Relies (p : Pipe) (e : ℕ) : Prop := (e, .resume 0) ∈ p.called ∧ p.state ≠ .error

instance (p : Pipe) (e : ℕ) : Decidable (p.Relies e) := inferInstanceAs (Decidable (_ ∧ _))

/-- If the control function is the one that has just returned, its result is among those in
question. -/
def Returns (p : Pipe) (api : ElApi) (V : ℤ → Prop) : Prop :=
  ∀ e v, p.returned = some (e, api, v) → V v

instance (p : Pipe) (api : ElApi) (V : ℤ → Prop) [DecidablePred V] : Decidable (p.Returns api V) :=
  decidable_of_iff (∀ r ∈ p.returned, r.2.1 = api → V r.2.2) <| by
    constructor
    · exact fun h e v hr => h (e, api, v) hr rfl
    · rintro h ⟨e, api', v⟩ hr rfl
      exact h e v hr

/-- A move of the others; `b` says whether tasks are relied on at all. -/
inductive Move (b : Prop) (p : Pipe) : Pipe → Prop
  | task {e : ℕ} {v : ℤ} {p' : Pipe} (h : b → p.Relies e → ¬(p.cell e).task.AllocFails v)
    (hs : p.taskStep e v = some p') : Move b p p'
  | io (rb : ℕ) (ring : Ringbuf) : Move b p (p.setRing rb ring)

/-- Moves of the others. -/
abbrev Moves (b : Prop) : Pipe → Pipe → Prop := Relation.ReflTransGen (Move b)

/-- What the others leave alone. -/
structure Same (p p' : Pipe) : Prop where
  state : p'.state = p.state
  items : p'.items = p.items
  called : p'.called = p.called
  returned : p'.returned = p.returned

theorem Same.refl (p : Pipe) : Same p p := ⟨rfl, rfl, rfl, rfl⟩

theorem Same.trans {p₁ p₂ p₃ : Pipe} (h : Same p₁ p₂) (h' : Same p₂ p₃) : Same p₁ p₃ :=
  ⟨h'.1.trans h.1, h'.2.trans h.2, h'.3.trans h.3, h'.4.trans h.4⟩

theorem Same.relies (h : Same p p') (e : ℕ) : p'.Relies e ↔ p.Relies e := by
  rw [Relies, Relies, h.called, h.state]

/-- A move of the others is a move for every element. -/
theorem Move.cell {b : Prop} (hm : Move b p p') (e : ℕ) :
    Cell.Move (b ∧ p.Relies e) (p.cell e) (p'.cell e) := by
  cases hm with
  | @task e₀ v _ h hs =>
    obtain ⟨c, hc, rfl⟩ := Option.map_eq_some_iff.mp hs
    by_cases he : e = e₀
    · subst he
      rw [cell_put_self]
      exact .task (fun hr => h hr.1 hr.2) hc
    · rw [cell_put_ne he]
      exact .rings _
  | io rb ring => exact .rings (Function.update p.links.rings rb ring)

theorem Move.same {b : Prop} (hm : Move b p p') : Same p p' := by
  cases hm with
  | task h hs =>
    obtain ⟨c, -, rfl⟩ := Option.map_eq_some_iff.mp hs
    exact ⟨rfl, rfl, rfl, rfl⟩
  | io rb ring => exact ⟨rfl, rfl, rfl, rfl⟩

/-- Every element is good. -/
def Good (p : Pipe) : Prop := ∀ e, (p.cell e).Good

theorem Good.move {b : Prop} (h : p.Good) (hm : Move b p p') : p'.Good :=
  fun e => ((h e).move (hm.cell e)).1

theorem Good.moves {b : Prop} (h : p.Good) (hm : Moves b p p') : p'.Good := by
  induction hm with
  | refl => exact h
  | tail _ hm ih => exact ih.move hm

theorem Moves.same {b : Prop} (hm : Moves b p p') : Same p p' := by
  induction hm with
  | refl => exact Same.refl p
  | tail _ hm ih => exact ih.trans hm.same

theorem Moves.cell {b : Prop} (hm : Moves b p p') (e : ℕ) :
    Cell.Moves (b ∧ p.Relies e) (p.cell e) (p'.cell e) := by
  induction hm with
  | refl => exact Relation.ReflTransGen.refl
  | tail hm₀ hm ih =>
    refine ih.tail ?_
    have hcell := hm.cell e
    rw [(Moves.same hm₀).relies] at hcell
    exact hcell

/-- What is known of a pipeline: one assertion for each element. -/
structure Has (st : AelState) (items : List ElementItem) (called : List (ℕ × ElApi))
    (A : ℕ → Cell → Prop) (p : Pipe) : Prop where
  state : p.state = st
  items : p.items = items
  called : p.called = called
  good : p.Good
  cells : ∀ e, A e (p.cell e)

/-- The others keep the assertion of the element. -/
def Stable (b : Prop) (st : AelState) (called : List (ℕ × ElApi)) (e : ℕ)
    (A : Cell → Prop) : Prop :=
  ∀ c c', c.Good → A c → Cell.Move (b ∧ (e, .resume 0) ∈ called ∧ st ≠ .error) c c' → A c'

variable {b : Prop} {st : AelState} {items : List ElementItem} {called : List (ℕ × ElApi)}
  {A A' : ℕ → Cell → Prop}

theorem Has.mono (h : p.Has st items called A) (hA : ∀ e c, A e c → A' e c) :
    p.Has st items called A' :=
  ⟨h.state, h.items, h.called, h.good, fun e => hA e _ (h.cells e)⟩

/-- **The others keep what is known.** -/
theorem Has.moves (h : p.Has st items called A) (hA : ∀ e, Stable b st called e (A e))
    (hm : Moves b p p') : p'.Has st items called A := by
  have hsame := hm.same
  refine ⟨hsame.state.trans h.state, hsame.items.trans h.items, hsame.called.trans h.called,
    h.good.moves hm, fun e => ?_⟩
  refine ((h.good e).moves ?_ (h.cells e) (hm.cell e)).2
  intro c c' hg ha hmove
  rw [Relies, h.called, h.state] at hmove
  exact hA e c c' hg ha hmove

theorem Stable.cons {A : Cell → Prop} (h : Stable b st called e A) (call : ℕ × ElApi) :
    Stable b st (call :: called) e A := by
  intro c c' hg ha hm
  refine h c c' hg ha ?_
  cases hm with
  | task hrel hs => exact .task (fun hr => hrel ⟨hr.1, List.mem_cons_of_mem _ hr.2.1, hr.2.2⟩) hs
  | rings rings => exact .rings rings

/-- What is known of all elements but one. -/
structure Around (st : AelState) (items : List ElementItem) (called : List (ℕ × ElApi)) (e : ℕ)
    (A : ℕ → Cell → Prop) (p : Pipe) : Prop where
  state : p.state = st
  items : p.items = items
  called : p.called = called
  others : ∀ e' ≠ e, (p.cell e').Good ∧ A e' (p.cell e')

theorem Has.around (h : p.Has st items called A) (e : ℕ) : p.Around st items called e A :=
  ⟨h.state, h.items, h.called, fun e' _ => ⟨h.good e', h.cells e'⟩⟩

theorem Around.has (h : p.Around st items called e A) {B : Cell → Prop} (hc : (p.cell e).Good)
    (hB : B (p.cell e)) : p.Has st items called (Function.update A e B) := by
  refine ⟨h.state, h.items, h.called, fun e' => ?_, fun e' => ?_⟩
  · by_cases he : e' = e
    · subst he
      exact hc
    · exact (h.others e' he).1
  · by_cases he : e' = e
    · subst he
      rw [Function.update_self]
      exact hB
    · rw [Function.update_of_ne he]
      exact (h.others e' he).2

theorem Around.put (h : p.Around st items called e A) (hA : ∀ e', Stable b st called e' (A e'))
    (c : Cell) : (p.put e c).Around st items called e A := by
  refine ⟨h.state, h.items, h.called, fun e' he => ?_⟩
  rw [cell_put_ne he]
  have ⟨hg, ha⟩ := h.others e' he
  exact ⟨hg.withRings _, hA e' _ _ hg ha (.rings _)⟩

theorem stable_update (hA : ∀ e', Stable b st called e' (A e')) {B : Cell → Prop}
    (hB : Stable b st called e B) : ∀ e', Stable b st called e' (Function.update A e B e') := by
  intro e'
  by_cases he : e' = e
  · subst he
    rw [Function.update_self]
    exact hB
  · rw [Function.update_of_ne he]
    exact hA e'

end Pipe

section Rules

open Pipe

variable {b : Prop} {goes : Pipe → Prop} {st : AelState} {items : List ElementItem}
  {called : List (ℕ × ElApi)} {A : ℕ → Cell → Prop} {e : ℕ} {fl : Bool} {p₀ p : Pipe}

/-- What the functions of a pipeline assume of the others, and where they may go on. -/
def Others (b : Prop) (goes : Pipe → Prop) (_ : Option (Callback × ℤ)) (p p' : Pipe) : Prop :=
  Moves b p p' ∧ goes p'

/-- Wherever a function of the pipeline may be interrupted, the elements are good. -/
def Sound (_ : Option Callback) (_ p : Pipe) : Prop := p.Good

/-- An action of a function of the pipeline, where this is known of the elements. -/
theorem commit_has {K : Pipe → Pipe → Prop} (h : p.Has st items called A)
    (hA : ∀ e, Stable b st called e (A e)) (hK : ∀ p₀ p, p.Has st items called A → K p₀ p) :
    commit (Others b goes) Sound K fl p₀ p :=
  commit_of (J := fun _ => Has st items called A) h (fun _ _ h => h.good)
    (fun _ _ _ h hR => h.moves hA hR.1) hK

/-- **A call of a control function** changes what is known of its element. -/
theorem wp_callEl {api : ElApi} {B : ℤ → Cell → Prop} {Q : ℤ → Bool → Pipe → Pipe → Prop}
    (h : p.Has st items called A) (hA : ∀ e', Stable b st called e' (A e'))
    (hmeets : Cell.Meets (b ∧ (e, .resume 0) ∈ (e, api) :: called ∧ st ≠ .error) (A e) api B)
    (hB : ∀ v, Stable b st ((e, api) :: called) e (B v))
    (hQ : ∀ v p₀ p, p.Has st items ((e, api) :: called) (Function.update A e (B v)) →
      goes { p with returned := some (e, api, v) } → Q v false p₀ p) :
    wp (Others b goes) Sound Q (callEl e api) fl p₀ p := by
  have hA' : ∀ e', Stable b st ((e, api) :: called) e' (A e') := fun e' => (hA e').cons _
  -- the way back from the function
  have hback : ∀ v fl p₀ p, p.Around st items ((e, api) :: called) e A →
      (p.cell e).Good ∧ B v (p.cell e) →
      wp (Others b goes) Sound Q (do
        Prog.modify fun p : Pipe => { p with returned := some (e, api, v) }
        Prog.sync
        Prog.modify fun p => { p with returned := none }
        return v) fl p₀ p := by
    rintro v fl p₀ p haround ⟨hg, hb⟩
    have hstable := stable_update hA' (hB v)
    simp only [wp_bind, wp_modify, wp_sync, wp_pure, commit_true]
    refine commit_has (haround.has hg hb) hstable ?_
    intro _ p₁ hJ
    refine ⟨hJ.good, ?_⟩
    rintro p₂ ⟨hm, hgoes⟩
    have hJ' : Has st items ((e, api) :: called) (Function.update A e (B v))
        { p₁ with returned := some (e, api, v) } :=
      ⟨hJ.state, hJ.items, hJ.called, hJ.good, hJ.cells⟩
    have hJ₂ := hJ'.moves hstable hm
    have hret : p₂.returned = some (e, api, v) := (Moves.same hm).returned
    refine hQ v _ _ ⟨hJ₂.state, hJ₂.items, hJ₂.called, hJ₂.good, hJ₂.cells⟩ ?_
    rw [← hret]
    exact hgoes
  unfold callEl
  simp only [wp_bind, wp_modify, wp_sync, commit_true]
  refine ⟨h.good, ?_⟩
  rintro p₁ ⟨hm, _⟩
  have h₁ := h.moves hA hm
  have haround : Around st items ((e, api) :: called) e A
      { p₁ with called := (e, api) :: p₁.called } :=
    ⟨h₁.state, h₁.items, by rw [h₁.called], fun e' _ => ⟨h₁.good e', h₁.cells e'⟩⟩
  unfold onEl
  refine wp_zoom (L := fun _ p => p.Around st items ((e, api) :: called) e A) ?_ ?_ ?_ ?_ ?_ _
    haround (hmeets _ (h₁.good e) (h₁.cells e))
  · intro c p
    exact cell_put_self p e c
  · intro _ c p hL
    exact hL.put hA' c
  · rintro _ _ _ p p' hL hg ⟨hm, _⟩
    have hJ := (hL.has (B := fun _ => True) hg trivial).moves
      (stable_update hA' fun _ _ _ _ _ => trivial) hm
    refine ⟨⟨hJ.state, hJ.items, hJ.called, fun e' he => ⟨hJ.good e', ?_⟩⟩, ?_⟩
    · have hcell := hJ.cells e'
      rw [Function.update_of_ne he] at hcell
      exact hcell
    · have hcell := Moves.cell hm e
      rw [Relies, hL.called, hL.state] at hcell
      exact hcell
  · intro _ _ p hL hg e'
    by_cases he : e' = e
    · subst he
      exact hg
    · exact (hL.others e' he).1
  · intro v fl p' p hL hq
    have hwp := hback v fl p' p hL hq
    simpa only [wp_bind, wp_modify, wp_sync, wp_pure, commit_true] using hwp

/-! ### Loops -/

/-- The linked elements of a list, in its order. -/
def linkedEls (items : List ElementItem) : List ℕ := (items.filter (·.linked)).map (·.el)

theorem linkedEls_cons_linked {item : ElementItem} (h : item.linked = true)
    (items : List ElementItem) : linkedEls (item :: items) = item.el :: linkedEls items := by
  rw [linkedEls, List.filter_cons_of_pos h]
  rfl

theorem linkedEls_cons_unlinked {item : ElementItem} (h : item.linked = false)
    (items : List ElementItem) : linkedEls (item :: items) = linkedEls items := by
  rw [linkedEls, List.filter_cons_of_neg (by rw [h]; decide)]
  rfl

theorem mem_linkedEls : e ∈ linkedEls p.items ↔ p.Linked e := by
  simp [linkedEls, Pipe.Linked, and_assoc]

/-- No element is linked twice. -/
theorem nodup_linkedEls (p : Pipe) : (linkedEls p.items).Nodup :=
  p.links.elList.nodup.sublist (List.filter_sublist.map _)

/-- **A loop over the linked elements** keeps what its body keeps; `I rest ret` is what is known
when it has yet to come to `rest` and has collected `ret`. -/
theorem wp_forLinked {R : Option (Callback × ℤ) → Pipe → Pipe → Prop}
    {P : Option Callback → Pipe → Pipe → Prop} {Q : ℤ → Bool → Pipe → Pipe → Prop}
    {body : ℕ → PipeProg ℤ} {I : List ElementItem → ℤ → Pipe → Prop}
    (hbody : ∀ item rest ret fl p₀ p, item.linked = true → item.el ∉ linkedEls rest →
      I (item :: rest) ret p →
      wp R P (fun v _ _ p => I rest (Int.lor ret v) p) (body item.el) fl p₀ p)
    (hskip : ∀ item rest ret p, item.linked = false → I (item :: rest) ret p → I rest ret p)
    (hend : ∀ ret fl p₀ p, I [] ret p → Q ret fl p₀ p) {ret : ℤ}
    (hnodup : (linkedEls items).Nodup) (h : I items ret p) :
    wp R P Q (forLinked body ret items) fl p₀ p := by
  induction items generalizing ret fl p₀ p with
  | nil => exact hend _ _ _ _ h
  | cons item rest ih =>
    unfold forLinked
    cases hl : item.linked with
    | false =>
      rw [linkedEls_cons_unlinked hl] at hnodup
      exact ih hnodup (hskip _ _ _ _ hl h)
    | true =>
      rw [linkedEls_cons_linked hl] at hnodup
      have ⟨hnot, hnodup⟩ := List.nodup_cons.mp hnodup
      simp only [if_true, wp_bind]
      refine wp_post _ ?_ (hbody _ _ _ _ _ _ hl hnot h)
      intro v fl p₀ p hI
      exact ih hnodup hI

/-- Of the linked elements, those in `rest` meet `A` and the others `B`. -/
def Phase (items rest : List ElementItem) (A B : Cell → Prop) (e : ℕ) (c : Cell) : Prop :=
  (e ∈ linkedEls rest → A c) ∧ (e ∈ linkedEls items → e ∉ linkedEls rest → B c)

theorem Phase.start {A B : Cell → Prop} {c : Cell} (h : e ∈ linkedEls items → A c) :
    Phase items items A B e c := ⟨h, fun he hno => absurd he hno⟩

theorem Phase.skip {A B : Cell → Prop} {item : ElementItem} {rest : List ElementItem} {c : Cell}
    (hl : item.linked = false) (h : Phase items (item :: rest) A B e c) :
    Phase items rest A B e c := by
  rw [Phase, linkedEls_cons_unlinked hl] at h
  exact h

/-- The element in front has come to meet `B`. -/
theorem Phase.next {A B B' : Cell → Prop} {item : ElementItem} {rest : List ElementItem} {c : Cell}
    (hl : item.linked = true) (hnot : item.el ∉ linkedEls rest) (hmono : ∀ c, B c → B' c)
    (h : Function.update (Phase items (item :: rest) A B) item.el B' e c) :
    Phase items rest A B' e c := by
  by_cases he : e = item.el
  · subst he
    rw [Function.update_self] at h
    exact ⟨fun hmem => absurd hmem hnot, fun _ _ => h⟩
  · rw [Function.update_of_ne he] at h
    constructor
    · intro hmem
      refine h.1 ?_
      rw [linkedEls_cons_linked hl]
      exact List.mem_cons_of_mem _ hmem
    · intro hmem hno
      refine hmono c (h.2 hmem ?_)
      rw [linkedEls_cons_linked hl]
      exact fun hin => (List.mem_cons.mp hin).elim he hno

theorem Phase.front {A B : Cell → Prop} {item : ElementItem} {rest : List ElementItem} {c : Cell}
    (hl : item.linked = true) (h : Phase items (item :: rest) A B item.el c) : A c := by
  refine h.1 ?_
  rw [linkedEls_cons_linked hl]
  exact List.mem_cons_self

theorem Phase.stable {A B : Cell → Prop} {rest : List ElementItem}
    (hA : e ∈ linkedEls rest → Stable b st called e A)
    (hB : e ∈ linkedEls items → e ∉ linkedEls rest → Stable b st called e B) :
    Stable b st called e (Phase items rest A B e) := by
  intro c c' hg h hm
  exact ⟨fun he => hA he c c' hg (h.1 he) hm, fun he hno => hB he hno c c' hg (h.2 he hno) hm⟩

/-- The functions in `mark` have been called for the element. -/
def Marked (mark : Option ElApi) (called : List (ℕ × ElApi)) (e : ℕ) : Prop :=
  ∀ api ∈ mark, (e, api) ∈ called

theorem marked_none (called : List (ℕ × ElApi)) (e : ℕ) : Marked none called e := by
  intro api hapi
  cases hapi

/-- **A loop that leads every linked element from `A` to `B`.**  `V` holds of what the body returns
and of what the loop collects. -/
theorem wp_phase {body : ℕ → PipeProg ℤ} (mark : Option ElApi) {V : ℤ → Prop} {A : Cell → Prop}
    {B : ℤ → Cell → Prop} {Q : ℤ → Bool → Pipe → Pipe → Prop} {ret : ℤ}
    (hA : ∀ e called, Stable b st called e A)
    (hB : ∀ ret e called, Marked mark called e → Stable b st called e (B ret))
    (hV : ∀ ret v, V ret → V v →
      V (Int.lor ret v) ∧ ∀ c, B ret c ∨ B v c → B (Int.lor ret v) c)
    (hbody : ∀ e called A' fl p₀ p, (∀ e', Stable b st called e' (A' e')) → (∀ c, A' e c → A c) →
      p.Has st items called A' →
      wp (Others b goes) Sound (fun v _ _ p => V v ∧ ∃ called', called ⊆ called' ∧
        Marked mark called' e ∧ p.Has st items called' (Function.update A' e (B v)))
        (body e) fl p₀ p)
    (hQ : ∀ ret fl p₀ p called, V ret → (∀ e ∈ linkedEls items, Marked mark called e) →
      p.Has st items called (fun e c => e ∈ linkedEls items → B ret c) → Q ret fl p₀ p)
    (hret : V ret) (h : p.Has st items called (fun e c => e ∈ linkedEls items → A c)) :
    wp (Others b goes) Sound Q (forLinked body ret items) fl p₀ p := by
  refine wp_forLinked (I := fun rest ret p => V ret ∧ ∃ called,
    (∀ e ∈ linkedEls items, e ∉ linkedEls rest → Marked mark called e) ∧
      p.Has st items called (Phase items rest A (B ret))) ?_ ?_ ?_ ?_
    ⟨hret, called, fun e he hno => absurd he hno, h.mono fun e c hc => Phase.start hc⟩
  · rintro item rest ret fl p₀ p hl hnot ⟨hret, called, hmark, hp⟩
    have hstable : ∀ e, Stable b st called e (Phase items (item :: rest) A (B ret) e) :=
      fun e => Phase.stable (fun _ => hA e called) fun he hno => hB ret e called (hmark e he hno)
    refine wp_post _ ?_
      (hbody item.el called _ fl p₀ p hstable (fun c hc => Phase.front hl hc) hp)
    rintro v fl p₀ p ⟨hv, called', hsub, hmark', hp'⟩
    have ⟨hret', hmono⟩ := hV ret v hret hv
    refine ⟨hret', called', fun e he hno => ?_, hp'.mono fun e c hc => ?_⟩
    · by_cases hel : e = item.el
      · subst hel
        exact hmark'
      · refine fun api hapi => hsub (hmark e he ?_ api hapi)
        rw [linkedEls_cons_linked hl]
        exact fun hin => (List.mem_cons.mp hin).elim hel hno
    · by_cases hel : e = item.el
      · subst hel
        rw [Function.update_self] at hc
        exact ⟨fun hmem => absurd hmem hnot, fun _ _ => hmono c (Or.inr hc)⟩
      · refine Phase.next hl hnot (fun c hc => hmono c (Or.inl hc)) ?_
        rw [Function.update_of_ne hel] at hc ⊢
        exact hc
  · rintro item rest ret p hl ⟨hret, called, hmark, hp⟩
    rw [linkedEls_cons_unlinked hl] at hmark
    exact ⟨hret, called, hmark, hp.mono fun e c hc => Phase.skip hl hc⟩
  · rintro ret fl p₀ p ⟨hret, called, hmark, hp⟩
    exact hQ ret fl p₀ p called hret (fun e he => hmark e he List.not_mem_nil)
      (hp.mono fun e c hc he => hc.2 he List.not_mem_nil)
  · rw [← h.items]
    exact nodup_linkedEls p

/-- A loop of calls: what a call ends in is `B₀`, and `B` where the application may go on. -/
theorem wp_forLinked_callEl {api : ElApi} {V : ℤ → Prop} {A : Cell → Prop}
    {B₀ B : ℤ → Cell → Prop} {Q : ℤ → Bool → Pipe → Pipe → Prop} {ret : ℤ}
    (hmeets : ∀ (e : ℕ) (called : List (ℕ × ElApi)),
      Cell.Meets (b ∧ (e, .resume 0) ∈ (e, api) :: called ∧ st ≠ .error) A api
        fun v c => V v ∧ B₀ v c)
    (hA : ∀ e called, Stable b st called e A)
    (hB₀ : ∀ v e called, (e, api) ∈ called → Stable b st called e (B₀ v))
    (hB : ∀ ret e called, (e, api) ∈ called → Stable b st called e (B ret))
    (hgo : ∀ e v (p : Pipe), goes { p with returned := some (e, api, v) } →
      B₀ v (p.cell e) → B v (p.cell e))
    (hV : ∀ ret v, V ret → V v →
      V (Int.lor ret v) ∧ ∀ c, B ret c ∨ B v c → B (Int.lor ret v) c)
    (hQ : ∀ ret fl p₀ p called, V ret → (∀ e ∈ linkedEls items, (e, api) ∈ called) →
      p.Has st items called (fun e c => e ∈ linkedEls items → B ret c) → Q ret fl p₀ p)
    (hret : V ret) (h : p.Has st items called (fun e c => e ∈ linkedEls items → A c)) :
    wp (Others b goes) Sound Q (forLinked (callEl · api) ret items) fl p₀ p := by
  refine wp_phase (some api) hA (fun ret e called hm => hB ret e called (hm api rfl)) hV ?_
    (fun ret fl p₀ p called hret hm => hQ ret fl p₀ p called hret fun e he => hm e he api rfl)
    hret h
  intro e called A' fl p₀ p hA' hfront hp
  refine wp_callEl hp hA' (B := fun v c => V v ∧ B₀ v c) ?_ ?_ ?_
  · intro c hg ha
    exact hmeets e called c hg (hfront c ha)
  · intro v c c' hg hc hm
    exact ⟨hc.1, hB₀ v e _ List.mem_cons_self c c' hg hc.2 hm⟩
  · intro v p₀ p hp hgoes
    have hcell := hp.cells e
    rw [Function.update_self] at hcell
    refine ⟨hcell.1, (e, api) :: called, List.subset_cons_self _ _, fun api' hapi => ?_, ?_⟩
    · obtain rfl := Option.some.inj hapi
      exact List.mem_cons_self
    · refine ⟨hp.state, hp.items, hp.called, hp.good, fun e' => ?_⟩
      by_cases he : e' = e
      · subst he
        rw [Function.update_self]
        exact hgo _ v p hgoes hcell.2
      · have hother := hp.cells e'
        rw [Function.update_of_ne he] at hother ⊢
        exact hother

end Rules

end AudioPipeline
