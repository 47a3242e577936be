import Mathlib.Data.List.Nodup
import Mathlib.Data.List.Range
import Mathlib.Logic.Equiv.Basic
import Mathlib.Order.Lattice

/-!
# Binary min-heaps in an array

The children of the entry at `k` are at `2 * k + 1` and `2 * k + 2`, and the heap is the first `n`
entries of `a`.  An entry whose key has grown is carried down by swaps with the smaller child:
`OrderedBut.swap` is one swap, `OrderedBut.ordered` the end of the way, and `Ordered.raise` its
start.
-/

namespace MinHeap

variable {α β : Type*} [LinearOrder β] {key : α → β} {n k : ℕ} {a : ℕ → α} {x : α}

/-- A child has a greater key than its parent. -/
def Ordered (key : α → β) (n : ℕ) (a : ℕ → α) : Prop :=
  ∀ i, 0 < i → i < n → key (a ((i - 1) / 2)) < key (a i)

/-- A heap in which the key at `k` may be too great. -/
structure OrderedBut (key : α → β) (n k : ℕ) (a : ℕ → α) : Prop where
  others : ∀ i, 0 < i → i < n → (i - 1) / 2 ≠ k → key (a ((i - 1) / 2)) < key (a i)
  /-- The parent of `k` and the children of `k`. -/
  around : ∀ i, 0 < i → i < n → (i - 1) / 2 = k → 0 < k → key (a ((k - 1) / 2)) < key (a i)

theorem Ordered.root_le (h : Ordered key n a) : ∀ i < n, key (a 0) ≤ key (a i) := by
  intro i
  induction i using Nat.strong_induction_on with
  | _ i ih =>
    intro hi
    rcases Nat.eq_zero_or_pos i with rfl | hpos
    · exact le_refl _
    · exact (ih ((i - 1) / 2) (by omega) (by omega)).trans (h i hpos hi).le

theorem Ordered.raise (h : Ordered key n a) (hk : k < n)
    (hx : 0 < k → key (a ((k - 1) / 2)) < key x) :
    OrderedBut key n k (Function.update a k x) := by
  refine ⟨fun i hpos hi hne => ?_, fun i hpos hi heq hk0 => ?_⟩
  · rw [Function.update_of_ne hne]
    by_cases hik : i = k
    · subst hik
      rw [Function.update_self]
      exact hx hpos
    · rw [Function.update_of_ne hik]
      exact h i hpos hi
  · have hpk := h k hk0 hk
    have hki := h i hpos hi
    rw [heq] at hki
    rw [Function.update_of_ne (by omega), Function.update_of_ne (by omega)]
    exact hpk.trans hki

/-- At a leaf there is nothing left to do. -/
theorem OrderedBut.ordered (h : OrderedBut key n k a) (hk : n ≤ 2 * k + 1) : Ordered key n a :=
  fun i hpos hi => h.others i hpos hi (by omega)

/-- One swap, with the child `c` of `k` that has the smaller key. -/
theorem OrderedBut.swap {c : ℕ} (h : OrderedBut key n k a) (hpos : 0 < c) (hc : c < n)
    (hck : (c - 1) / 2 = k) (hlt : key (a c) < key (a k))
    (hleast : ∀ d, 0 < d → d < n → (d - 1) / 2 = k → d ≠ c → key (a c) < key (a d)) :
    OrderedBut key n c (a ∘ Equiv.swap k c) := by
  have hkc : k ≠ c := by omega
  have hother : ∀ i, i ≠ k → i ≠ c → (a ∘ Equiv.swap k c) i = a i := fun i hik hic => by
    rw [Function.comp_apply, Equiv.swap_apply_of_ne_of_ne hik hic]
  have hatk : (a ∘ Equiv.swap k c) k = a c := by
    rw [Function.comp_apply, Equiv.swap_apply_left]
  have hatc : (a ∘ Equiv.swap k c) c = a k := by
    rw [Function.comp_apply, Equiv.swap_apply_right]
  refine ⟨fun i hi0 hi hne => ?_, fun i hi0 hi heq _ => ?_⟩
  · by_cases hik : i = k
    · -- The smaller child comes under the parent of `k`.
      subst hik
      rw [hatk, hother _ (by omega) hne]
      exact h.around c hpos hc hck hi0
    · by_cases hpk : (i - 1) / 2 = k
      · rw [hpk, hatk]
        by_cases hic : i = c
        · rw [hic, hatc]
          exact hlt
        · rw [hother i hik hic]
          exact hleast i hi0 hi hpk hic
      · rw [hother _ hpk hne, hother i hik (by rintro rfl; exact hpk hck)]
        exact h.others i hi0 hi hpk
  · have hci := h.others i hi0 hi (by omega)
    rw [heq] at hci
    rw [hck, hatk, hother i (by omega) (by omega)]
    exact hci

/-! ### The entries -/

/-- The entries of the heap. -/
def entries (n : ℕ) (a : ℕ → α) : List α := (List.range n).map a

theorem mem_entries {e : α} : e ∈ entries n a ↔ ∃ i < n, a i = e := by
  simp [entries]

theorem length_entries : (entries n a).length = n := by
  simp [entries]

theorem entries_swap {i j : ℕ} (hi : i < n) (hj : j < n) :
    (entries n (a ∘ Equiv.swap i j)).Perm (entries n a) := by
  unfold entries
  rw [← List.map_map]
  refine List.Perm.map a ?_
  refine (List.perm_ext_iff_of_nodup ((List.nodup_range).map (Equiv.swap i j).injective)
    List.nodup_range).mpr fun k => ?_
  rw [List.mem_map]
  constructor
  · rintro ⟨m, hm, rfl⟩
    rw [List.mem_range] at hm ⊢
    rw [Equiv.swap_apply_def]
    split_ifs <;> assumption
  · intro hk
    refine ⟨Equiv.swap i j k, ?_, Equiv.swap_apply_self i j k⟩
    rw [List.mem_range] at hk ⊢
    rw [Equiv.swap_apply_def]
    split_ifs <;> assumption

theorem entries_update :
    entries n (Function.update a k x) = (entries n a).set k x := by
  refine List.ext_getElem (by simp [entries]) fun i hi _ => ?_
  rw [length_entries] at hi
  rw [List.getElem_set]
  simp only [entries, List.getElem_map, List.getElem_range]
  split_ifs with hik
  · rw [hik, Function.update_self]
  · rw [Function.update_of_ne (Ne.symm hik)]

theorem entries_succ : entries (n + 1) (Function.update a n x) = entries n a ++ [x] := by
  unfold entries
  rw [List.range_succ, List.map_append, List.map_singleton, Function.update_self]
  congr 1
  refine List.map_congr_left fun i hi => Function.update_of_ne ?_ _ _
  exact (List.mem_range.mp hi).ne

end MinHeap
