import Mathlib.Data.Int.Notation
import Mathlib.Tactic.SplitIfs

/-!
# Programs that other threads interrupt

A `Prog σ κ α` is the code of one thread over a shared state `σ`: it reads the state, updates it,
calls callbacks of kind `κ` that answer with an integer, and returns an `α`.  Between two
*scheduling points* it runs undisturbed.  The scheduling points are the calls and the marks `cut`;
a mark that is followed by nothing but the return is none, since a thread that has returned is at a
scheduling point anyway.

* `Prog.resume` runs a program to its next scheduling point, `Point.step` moves a thread that
  stands at one.
* `Prog.wp R P Q` is its rely-guarantee precondition: `R` is what the others may do to the state
  meanwhile (and which answers a callback may give), `P` must hold at each scheduling point between
  the state where the segment began and the state now, `Q` at the return.  `wp_bind` composes it
  along the program.
* `Prog.zoom` makes the code of a part of the state one of the whole; `wp_zoom` is its frame rule.
* `Prog.Does` is what a program does whatever it finds in the state.
* `Point.Ok` is what is known of a thread that stands at a point.  The others keep it (`Ok.rely`),
  and a step of the thread itself leads to the next one (`Ok.step`).
-/

/-- The code of one thread. -/
inductive Prog (σ κ α : Type) : Type where
  | ret (a : α)
  /-- Read the state. -/
  | look (k : σ → Prog σ κ α)
  /-- Update the state. -/
  | upd (f : σ → σ) (k : Prog σ κ α)
  /-- Other threads may run here. -/
  | cut (k : Prog σ κ α)
  /-- Call back; other threads may run until the answer is there. -/
  | call (c : κ) (k : ℤ → Prog σ κ α)

/-- Where a thread stands between two of its segments. -/
inductive Point (σ κ α : Type) : Type where
  | done (a : α)
  | cut (k : Prog σ κ α)
  | call (c : κ) (k : ℤ → Prog σ κ α)

namespace Prog

variable {σ τ κ α β : Type}

def bind : Prog σ κ α → (α → Prog σ κ β) → Prog σ κ β
  | ret a, f => f a
  | look k, f => look fun s => (k s).bind f
  | upd g k, f => upd g (k.bind f)
  | cut k, f => cut (k.bind f)
  | call c k, f => call c fun v => (k v).bind f

instance : Monad (Prog σ κ) where
  pure := ret
  bind := bind

/-- The state now. -/
def get : Prog σ κ σ := look ret

def modify (f : σ → σ) : Prog σ κ Unit := upd f (ret ())

/-- A scheduling point. -/
def sync : Prog σ κ Unit := cut (ret ())

/-- The answer of a callback. -/
def invoke (c : κ) : Prog σ κ ℤ := call c ret

/-- The program of a part of the state, as a program of the whole. -/
def zoom (view : τ → σ) (put : σ → τ → τ) : Prog σ κ α → Prog τ κ α
  | ret a => ret a
  | look k => look fun t => (k (view t)).zoom view put
  | upd f k => upd (fun t => put (f (view t)) t) (k.zoom view put)
  | cut k => cut (k.zoom view put)
  | call c k => call c fun v => (k v).zoom view put

/-- Run to the next scheduling point.  `pending` says that a `cut` was passed since the last
action: the next action has to wait for the other threads, the return has not. -/
def resume : Prog σ κ α → (pending : Bool) → σ → σ × Point σ κ α
  | ret a, _, s => (s, .done a)
  | look k, false, s => (k s).resume false s
  | upd f k, false, s => k.resume false (f s)
  | call c k, false, s => (s, .call c k)
  | cut k, _, s => k.resume true s
  | look k, true, s => (s, .cut (look k))
  | upd f k, true, s => (s, .cut (upd f k))
  | call c k, true, s => (s, .cut (call c k))

end Prog

namespace Point

variable {σ κ α : Type}

/-- The thread moves on; `v` is the answer of the callback it waits for, if it does. -/
def step : Point σ κ α → ℤ → σ → Option (σ × Point σ κ α)
  | done _, _, _ => none
  | cut k, _, s => some (k.resume false s)
  | call _ k, v, s => some ((k v).resume false s)

/-- The callback whose answer the thread waits for. -/
def callback : Point σ κ α → Option κ
  | call c _ => some c
  | _ => none

/-- The callback and its answer, when the thread moves on. -/
def answer (v : ℤ) : Point σ κ α → Option (κ × ℤ)
  | call c _ => some (c, v)
  | _ => none

end Point

/-! ### Rely and guarantee -/

namespace Prog

variable {σ κ α β : Type} {R R' : Option (κ × ℤ) → σ → σ → Prop} {P P' : Option κ → σ → σ → Prop}
  {Q Q' : α → Bool → σ → σ → Prop} {b : Bool} {s₀ s s' : σ}

/-- An action in state `s` of a segment that began in `s₀`: if a `cut` is pending, the segment
ends here and a new one begins in any state the others may have made of `s`. -/
def commit (R : Option (κ × ℤ) → σ → σ → Prop) (P : Option κ → σ → σ → Prop) (K : σ → σ → Prop) :
    Bool → σ → σ → Prop
  | false, s₀, s => K s₀ s
  | true, s₀, s => P none s₀ s ∧ ∀ s', R none s s' → K s' s'

/-- The weakest precondition of a program whose segment began in `s₀` and is now in `s`. -/
def wp (R : Option (κ × ℤ) → σ → σ → Prop) (P : Option κ → σ → σ → Prop)
    (Q : α → Bool → σ → σ → Prop) :
    Prog σ κ α → Bool → σ → σ → Prop
  | ret a, b, s₀, s => Q a b s₀ s
  | look k, b, s₀, s => commit R P (fun s₀ s => wp R P Q (k s) false s₀ s) b s₀ s
  | upd f k, b, s₀, s => commit R P (fun s₀ s => wp R P Q k false s₀ (f s)) b s₀ s
  | cut k, _, s₀, s => wp R P Q k true s₀ s
  | call c k, b, s₀, s => commit R P (fun s₀ s => P (some c) s₀ s ∧
      ∀ s' v, R (some (c, v)) s s' → wp R P Q (k v) false s' s') b s₀ s

@[simp] theorem commit_false (K : σ → σ → Prop) : commit R P K false s₀ s ↔ K s₀ s := Iff.rfl

@[simp] theorem commit_true (K : σ → σ → Prop) :
    commit R P K true s₀ s ↔ P none s₀ s ∧ ∀ s', R none s s' → K s' s' := Iff.rfl

theorem commit_congr {K K' : σ → σ → Prop} (h : ∀ s₀ s, K s₀ s ↔ K' s₀ s) :
    commit R P K b s₀ s ↔ commit R P K' b s₀ s := by
  cases b with
  | false => exact h s₀ s
  | true => simp only [commit_true, h]

@[simp] theorem wp_pure (a : α) : wp R P Q (pure a) b s₀ s ↔ Q a b s₀ s := Iff.rfl

@[simp] theorem wp_get {Q : σ → Bool → σ → σ → Prop} :
    wp R P Q get b s₀ s ↔ commit R P (fun s₀ s => Q s false s₀ s) b s₀ s := Iff.rfl

@[simp] theorem wp_modify {Q : Unit → Bool → σ → σ → Prop} (f : σ → σ) :
    wp R P Q (modify f) b s₀ s ↔ commit R P (fun s₀ s => Q () false s₀ (f s)) b s₀ s := Iff.rfl

@[simp] theorem wp_sync {Q : Unit → Bool → σ → σ → Prop} :
    wp R P Q sync b s₀ s ↔ Q () true s₀ s := Iff.rfl

@[simp] theorem wp_invoke {Q : ℤ → Bool → σ → σ → Prop} (c : κ) :
    wp R P Q (invoke c) b s₀ s ↔
      commit R P (fun s₀ s => P (some c) s₀ s ∧
        ∀ s' v, R (some (c, v)) s s' → Q v false s' s') b s₀ s :=
  Iff.rfl

/-- **Sequencing**: what the first program must reach is the precondition of the second. -/
@[simp] theorem wp_bind {Q : β → Bool → σ → σ → Prop} (p : Prog σ κ α) (f : α → Prog σ κ β) :
    wp R P Q (p >>= f) b s₀ s ↔ wp R P (fun a => wp R P Q (f a)) p b s₀ s := by
  change wp R P Q (p.bind f) b s₀ s ↔ _
  induction p generalizing b s₀ s with
  | ret a => rfl
  | look k ih => exact commit_congr fun s₀ s => ih s
  | upd g k ih => exact commit_congr fun s₀ s => ih
  | cut k ih => exact ih
  | call c k ih =>
    refine commit_congr fun s₀ s => and_congr_right fun _ => ?_
    exact forall_congr' fun s' => forall_congr' fun v => imp_congr_right fun _ => ih v

theorem wp_ite {p q : Prog σ κ α} {c : Prop} [Decidable c] :
    wp R P Q (if c then p else q) b s₀ s ↔
      (c → wp R P Q p b s₀ s) ∧ (¬c → wp R P Q q b s₀ s) := by
  split_ifs with h <;> simp [h]

/-- An action after an assertion of the segment so far, when the others leave one of a new
segment. -/
theorem commit_of {J : σ → σ → Prop} {K : σ → σ → Prop} (hJ : J s₀ s)
    (hP : ∀ s₀ s, J s₀ s → P none s₀ s) (hR : ∀ s₀ s s', J s₀ s → R none s s' → J s' s')
    (hK : ∀ s₀ s, J s₀ s → K s₀ s) : commit R P K b s₀ s := by
  cases b with
  | false => exact hK s₀ s hJ
  | true => exact ⟨hP s₀ s hJ, fun s' h' => hK s' s' (hR s₀ s s' hJ h')⟩

/-- A weaker claim is met as well, and so is the claim where the others do less. -/
theorem wp_mono (p : Prog σ κ α) (hR : ∀ o s s', R' o s s' → R o s s')
    (hP : ∀ c s₀ s, P c s₀ s → P' c s₀ s) (hQ : ∀ a b s₀ s, Q a b s₀ s → Q' a b s₀ s)
    (h : wp R P Q p b s₀ s) : wp R' P' Q' p b s₀ s := by
  have hcommit : ∀ {K K' : σ → σ → Prop} {b : Bool} {s₀ s : σ},
      (∀ s₀ s, K s₀ s → K' s₀ s) → commit R P K b s₀ s → commit R' P' K' b s₀ s := by
    intro K K' b s₀ s hK h
    cases b with
    | false => exact hK _ _ h
    | true => exact ⟨hP _ _ _ h.1, fun s' hs => hK _ _ (h.2 s' (hR _ _ _ hs))⟩
  induction p generalizing b s₀ s with
  | ret a => exact hQ _ _ _ _ h
  | look k ih => exact hcommit (fun s₀ s hk => ih s hk) h
  | upd g k ih => exact hcommit (fun s₀ s hk => ih hk) h
  | cut k ih => exact ih h
  | call c k ih =>
    refine hcommit (fun s₀ s hk => ⟨hP _ _ _ hk.1, ?_⟩) h
    intro s' v hs
    exact ih v (hk.2 s' v (hR _ _ _ hs))

/-- A program that does more does what is asked. -/
theorem wp_post (p : Prog σ κ α) (hQ : ∀ a b s₀ s, Q a b s₀ s → Q' a b s₀ s)
    (h : wp R P Q p b s₀ s) : wp R P Q' p b s₀ s :=
  wp_mono p (fun _ _ _ h => h) (fun _ _ _ h => h) hQ h

/-- Two claims are met together. -/
theorem wp_and (p : Prog σ κ α) (h : wp R P Q p b s₀ s) (h' : wp R P' Q' p b s₀ s) :
    wp R (fun c s₀ s => P c s₀ s ∧ P' c s₀ s) (fun a b s₀ s => Q a b s₀ s ∧ Q' a b s₀ s)
      p b s₀ s := by
  induction p generalizing b s₀ s with
  | ret a => exact ⟨h, h'⟩
  | look k ih =>
    cases b with
    | false => exact ih s h h'
    | true => exact ⟨⟨h.1, h'.1⟩, fun s' hs => ih s' (h.2 s' hs) (h'.2 s' hs)⟩
  | upd f k ih =>
    cases b with
    | false => exact ih h h'
    | true => exact ⟨⟨h.1, h'.1⟩, fun s' hs => ih (h.2 s' hs) (h'.2 s' hs)⟩
  | cut k ih => exact ih h h'
  | call c k ih =>
    cases b with
    | false =>
      exact ⟨⟨h.1, h'.1⟩, fun s' v hs => ih v (h.2 s' v hs) (h'.2 s' v hs)⟩
    | true =>
      refine ⟨⟨h.1, h'.1⟩, fun s₁ h₁ => ⟨⟨(h.2 s₁ h₁).1, (h'.2 s₁ h₁).1⟩, fun s' v hs => ?_⟩⟩
      exact ih v ((h.2 s₁ h₁).2 s' v hs) ((h'.2 s₁ h₁).2 s' v hs)

/-! ### A part of the state -/

@[simp] theorem zoom_pure {view : τ → σ} {put : σ → τ → τ} (a : α) :
    (pure a : Prog σ κ α).zoom view put = pure a := rfl

@[simp] theorem zoom_bind {view : τ → σ} {put : σ → τ → τ} (p : Prog σ κ α) (f : α → Prog σ κ β) :
    (p >>= f).zoom view put = p.zoom view put >>= fun a => (f a).zoom view put := by
  change (p.bind f).zoom view put = (p.zoom view put).bind _
  induction p with
  | ret a => rfl
  | look k ih => exact congrArg look (funext fun t => ih (view t))
  | upd g k ih => exact congrArg (upd _) ih
  | cut k ih => exact congrArg cut ih
  | call c k ih => exact congrArg (call c) (funext ih)

/-- **The frame rule**: a program that works on a part of the state does there what it does alone.
`L t₀ t` is what is known of the whole in a segment that began in `t₀`; it says nothing of the part
in `t`. -/
theorem wp_zoom {view : τ → σ} {put : σ → τ → τ} {R' : Option (κ × ℤ) → τ → τ → Prop}
    {P' : Option κ → τ → τ → Prop} {Q' : α → Bool → τ → τ → Prop} {L : τ → τ → Prop}
    (hview : ∀ s t, view (put s t) = s) (hput : ∀ t₀ s t, L t₀ t → L t₀ (put s t))
    (hR : ∀ c o t₀ t t', L t₀ t → P c (view t₀) (view t) → R' o t t' →
      L t' t' ∧ R o (view t) (view t'))
    (hP : ∀ c t₀ t, L t₀ t → P c (view t₀) (view t) → P' c t₀ t)
    (hQ : ∀ a b t₀ t, L t₀ t → Q a b (view t₀) (view t) → Q' a b t₀ t)
    (p : Prog σ κ α) {b : Bool} {t₀ t : τ} (ht : L t₀ t) (h : wp R P Q p b (view t₀) (view t)) :
    wp R' P' Q' (p.zoom view put) b t₀ t := by
  induction p generalizing b t₀ t with
  | ret a => exact hQ a b t₀ t ht h
  | look k ih =>
    cases b with
    | false => exact ih _ ht h
    | true =>
      refine ⟨hP _ _ _ ht h.1, fun t' h' => ?_⟩
      have ⟨hL, hR'⟩ := hR _ _ _ _ _ ht h.1 h'
      exact ih _ hL (h.2 _ hR')
  | upd g k ih =>
    have hupd : ∀ t₁ t₂, L t₁ t₂ → wp R P Q k false (view t₁) (g (view t₂)) →
        wp R' P' Q' (k.zoom view put) false t₁ (put (g (view t₂)) t₂) := by
      intro t₁ t₂ h₂ hk
      have hk' : wp R P Q k false (view t₁) (view (put (g (view t₂)) t₂)) := by
        rw [hview]
        exact hk
      exact ih (hput _ _ _ h₂) hk'
    cases b with
    | false => exact hupd _ _ ht h
    | true =>
      refine ⟨hP _ _ _ ht h.1, fun t' h' => ?_⟩
      have ⟨hL, hR'⟩ := hR _ _ _ _ _ ht h.1 h'
      exact hupd _ _ hL (h.2 _ hR')
  | cut k ih => exact ih ht h
  | call c k ih =>
    have hcall : ∀ t₁ t₂, L t₁ t₂ →
        (P (some c) (view t₁) (view t₂) ∧
          ∀ s' v, R (some (c, v)) (view t₂) s' → wp R P Q (k v) false s' s') →
        P' (some c) t₁ t₂ ∧
          ∀ t' v, R' (some (c, v)) t₂ t' → wp R' P' Q' ((k v).zoom view put) false t' t' := by
      intro t₁ t₂ h₂ hk
      refine ⟨hP _ _ _ h₂ hk.1, fun t' v h' => ?_⟩
      have ⟨hL, hR'⟩ := hR _ _ _ _ _ h₂ hk.1 h'
      exact ih v hL (hk.2 _ v hR')
    cases b with
    | false => exact hcall _ _ ht h
    | true =>
      refine ⟨hP _ _ _ ht h.1, fun t' h' => ?_⟩
      have ⟨hL, hR'⟩ := hR _ _ _ _ _ ht h.1 h'
      exact hcall _ _ hL (h.2 _ hR')

/-! ### What a program does whatever the others do -/

/-- Every update of the program is a `G` and every result meets `Q`, whatever the states and the
answers it sees. -/
def Does (G : σ → σ → Prop) : Prog σ κ α → (α → Prop) → Prop
  | ret a, Q => Q a
  | look k, Q => ∀ s, (k s).Does G Q
  | upd g k, Q => (∀ s, G s (g s)) ∧ k.Does G Q
  | cut k, Q => k.Does G Q
  | call _ k, Q => ∀ v, (k v).Does G Q

section Does

variable {G : σ → σ → Prop}

@[simp] theorem does_pure {Q : α → Prop} (a : α) : (pure a : Prog σ κ α).Does G Q ↔ Q a := Iff.rfl

@[simp] theorem does_get {Q : σ → Prop} : (get : Prog σ κ σ).Does G Q ↔ ∀ s, Q s := Iff.rfl

@[simp] theorem does_sync {Q : Unit → Prop} : (sync : Prog σ κ Unit).Does G Q ↔ Q () := Iff.rfl

@[simp] theorem does_invoke {Q : ℤ → Prop} (c : κ) :
    (invoke c : Prog σ κ ℤ).Does G Q ↔ ∀ v, Q v := Iff.rfl

@[simp] theorem does_modify {Q : Unit → Prop} (g : σ → σ) :
    (modify g : Prog σ κ Unit).Does G Q ↔ (∀ s, G s (g s)) ∧ Q () := Iff.rfl

@[simp] theorem does_bind {Q : β → Prop} (p : Prog σ κ α) (f : α → Prog σ κ β) :
    (p >>= f).Does G Q ↔ p.Does G fun a => (f a).Does G Q := by
  change (p.bind f).Does G Q ↔ _
  induction p with
  | ret a => rfl
  | look k ih => exact forall_congr' ih
  | upd g k ih => exact and_congr_right fun _ => ih
  | cut k ih => exact ih
  | call c k ih => exact forall_congr' ih

theorem does_ite {Q : α → Prop} {c : Prop} [Decidable c] {p q : Prog σ κ α} :
    (if c then p else q).Does G Q ↔ (c → p.Does G Q) ∧ (¬c → q.Does G Q) := by
  split_ifs with h <;> simp [h]

end Does

theorem does_post {G : σ → σ → Prop} {Q Q' : α → Prop} (hQ : ∀ a, Q a → Q' a) (p : Prog σ κ α)
    (h : p.Does G Q) : p.Does G Q' := by
  induction p with
  | ret a => exact hQ a h
  | look k ih => exact fun s => ih s (h s)
  | upd g k ih => exact ⟨h.1, ih h.2⟩
  | cut k ih => exact ih h
  | call c k ih => exact fun v => ih v (h v)

theorem does_zoom {view : τ → σ} {put : σ → τ → τ} {G : σ → σ → Prop} {G' : τ → τ → Prop}
    {Q : α → Prop} (hG : ∀ s t, G (view t) s → G' t (put s t)) (p : Prog σ κ α)
    (h : p.Does G Q) : (p.zoom view put).Does G' Q := by
  induction p with
  | ret a => exact h
  | look k ih => exact fun t => ih _ (h (view t))
  | upd g k ih => exact ⟨fun t => hG _ _ (h.1 (view t)), ih h.2⟩
  | cut k ih => exact ih h
  | call c k ih => exact fun v => ih v (h v)

/-- **From the updates to the precondition**: `J` is what is known of a segment so far.  If every
update of the program and the others keep it, it holds at each scheduling point and at the
return. -/
theorem wp_of_does {G : σ → σ → Prop} {J : σ → σ → Prop} {Q₀ : α → Prop}
    (hG : ∀ s₀ s s', J s₀ s → G s s' → J s₀ s') (hR : ∀ o s₀ s s', J s₀ s → R o s s' → J s' s')
    (hP : ∀ c s₀ s, J s₀ s → P c s₀ s) (hQ : ∀ a b s₀ s, Q₀ a → J s₀ s → Q a b s₀ s)
    (p : Prog σ κ α) (h : p.Does G Q₀) (hJ : J s₀ s) : wp R P Q p b s₀ s := by
  have hcommit : ∀ {K : σ → σ → Prop} {b : Bool} {s₀ s : σ},
      J s₀ s → (∀ s₀ s, J s₀ s → K s₀ s) → commit R P K b s₀ s :=
    fun hJ hK => commit_of hJ (hP none) (hR none) hK
  induction p generalizing b s₀ s with
  | ret a => exact hQ _ _ _ _ h hJ
  | look k ih => exact hcommit hJ fun s₀ s hJ => ih s (h s) hJ
  | upd g k ih => exact hcommit hJ fun s₀ s hJ => ih h.2 (hG _ _ _ hJ (h.1 s))
  | cut k ih => exact ih h hJ
  | call c k ih =>
    refine hcommit hJ fun s₀ s hJ => ⟨hP _ _ _ hJ, fun s' v hs => ?_⟩
    exact ih v (h v) (hR _ _ _ _ hJ hs)

end Prog

namespace Point

open Prog

variable {σ κ α : Type} {R : Option (κ × ℤ) → σ → σ → Prop} {P : Option κ → σ → σ → Prop}
  {Q : α → Bool → σ → σ → Prop} {s₀ s s' : σ} {pt pt' : Point σ κ α}

/-- What holds of a thread that stands at a point, whatever the others do from now on. -/
def Ok (R : Option (κ × ℤ) → σ → σ → Prop) (P : Option κ → σ → σ → Prop)
    (Q : α → Bool → σ → σ → Prop) :
    Point σ κ α → σ → Prop
  | done _, _ => True
  | cut k, s => ∀ s', R none s s' → wp R P Q k false s' s'
  | call c k, s => ∀ s' v, R (some (c, v)) s s' → wp R P Q (k v) false s' s'

/-- What holds of the segment from `s₀` to `s` that a thread ended at a point. -/
def Ends (P : Option κ → σ → σ → Prop) (Q : α → Bool → σ → σ → Prop) (s₀ s : σ) :
    Point σ κ α → Prop
  | done a => ∃ b, Q a b s₀ s
  | cut _ => P none s₀ s
  | call c _ => P (some c) s₀ s

/-- What a segment promises wherever it ends. -/
theorem Ends.same {S : σ → σ → Prop} (h : Ends (fun _ => S) (fun _ _ => S) s₀ s pt) : S s₀ s := by
  cases pt with
  | done a =>
    obtain ⟨_, h⟩ := h
    exact h
  | cut k => exact h
  | call c k => exact h

theorem Ok.rely (h : Ok R P Q pt s) (hR : ∀ o s₁, R o s' s₁ → R o s s₁) : Ok R P Q pt s' := by
  cases pt with
  | done _ => trivial
  | cut k => exact fun s₁ h₁ => h s₁ (hR _ s₁ h₁)
  | call c k => exact fun s₁ v h₁ => h s₁ v (hR _ s₁ h₁)

/-- **A segment run from its precondition** ends as promised. -/
theorem ends_resume (p : Prog σ κ α) {b : Bool} (h : wp R P Q p b s₀ s) :
    Ends P Q s₀ (p.resume b s).1 (p.resume b s).2 ∧
      Ok R P Q (p.resume b s).2 (p.resume b s).1 := by
  induction p generalizing b s with
  | ret a => exact ⟨⟨b, h⟩, trivial⟩
  | look k ih =>
    cases b with
    | false => exact ih s h
    | true => exact ⟨h.1, fun s' hs => h.2 s' hs⟩
  | upd f k ih =>
    cases b with
    | false => exact ih h
    | true => exact ⟨h.1, fun s' hs => h.2 s' hs⟩
  | cut k ih => exact ih h
  | call c k ih =>
    cases b with
    | false => exact ⟨h.1, h.2⟩
    | true => exact ⟨h.1, fun s' hs => h.2 s' hs⟩

/-- A thread that is ready moves on, after what the others have done (`s₁`), and ends its segment as
promised. -/
theorem Ok.answered {v : ℤ} {s₁ : σ} (h : Ok R P Q pt s) (hR : R (pt.answer v) s s₁)
    (hs : pt.step v s₁ = some (s', pt')) : Ends P Q s₁ s' pt' ∧ Ok R P Q pt' s' := by
  cases pt with
  | done _ => cases hs
  | cut k =>
    have hk := ends_resume k (h s₁ hR)
    rw [Option.some.inj hs] at hk
    exact hk
  | call c k =>
    have hk := ends_resume (k v) (h s₁ v hR)
    rw [Option.some.inj hs] at hk
    exact hk

/-- A thread that is ready moves on and ends its segment as promised. -/
theorem Ok.step {v : ℤ} (h : Ok R P Q pt s) (hrefl : R (pt.answer v) s s)
    (hs : pt.step v s = some (s', pt')) : Ends P Q s s' pt' ∧ Ok R P Q pt' s' :=
  h.answered hrefl hs

/-! ### Static facts along a run -/

/-- What the rest of the program does. -/
def Does (G : σ → σ → Prop) (Q : α → Prop) : Point σ κ α → Prop
  | done a => Q a
  | cut k => k.Does G Q
  | call _ k => ∀ v, (k v).Does G Q

theorem does_resume {G : σ → σ → Prop} {Q : α → Prop} (hrefl : ∀ s, G s s)
    (htrans : ∀ s s' s'', G s s' → G s' s'' → G s s'') (p : Prog σ κ α) {b : Bool} {s : σ}
    (h : p.Does G Q) : G s (p.resume b s).1 ∧ (p.resume b s).2.Does G Q := by
  induction p generalizing b s with
  | ret a => exact ⟨hrefl s, h⟩
  | look k ih =>
    cases b with
    | false => exact ih s (h s)
    | true => exact ⟨hrefl s, h⟩
  | upd g k ih =>
    cases b with
    | false =>
      have ⟨hG, hd⟩ := ih (b := false) (s := g s) h.2
      exact ⟨htrans _ _ _ (h.1 s) hG, hd⟩
    | true => exact ⟨hrefl s, h⟩
  | cut k ih => exact ih h
  | call c k ih => cases b <;> exact ⟨hrefl s, h⟩

/-- A thread moves on: its segment is a `G`. -/
theorem Does.step {G : σ → σ → Prop} {Q : α → Prop} (hrefl : ∀ s, G s s)
    (htrans : ∀ s s' s'', G s s' → G s' s'' → G s s'') {v : ℤ} (h : pt.Does G Q)
    (hs : pt.step v s = some (s', pt')) : G s s' ∧ pt'.Does G Q := by
  cases pt with
  | done _ => cases hs
  | cut k =>
    have hk := does_resume hrefl htrans k (b := false) (s := s) h
    rw [Option.some.inj hs] at hk
    exact hk
  | call c k =>
    have hk := does_resume hrefl htrans (k v) (b := false) (s := s) (h v)
    rw [Option.some.inj hs] at hk
    exact hk

end Point
