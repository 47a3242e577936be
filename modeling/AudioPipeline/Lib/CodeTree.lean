import AudioPipeline.Lib.Bits

/-!
# Prefix codes

A prefix code is a tree whose leaves are the symbols: `walk` reads the symbol that a string of bits
begins with, and `find` gives the code word of a symbol.  `walk_find` is their round trip.

A table with `2 ^ m` entries stands for the first `m` levels of a tree (`ofTable`).  Its index is
the next `m` bits, and an entry is repeated for all bits that may follow its code word, or stands
for the tree that the bits behind are looked up in.  `walk_ofTable` says that the table is as good
as the tree.
-/

inductive CodeTree (α : Type*)
  | leaf (a : α)
  | node (zero one : CodeTree α)

namespace CodeTree

open Bits

variable {α : Type*}

/-! ### Code words -/

/-- The symbol that the bits begin with, and the bits behind its code word. -/
def walk : CodeTree α → List Bool → Option (α × List Bool)
  | leaf a, bits => some (a, bits)
  | node _ _, [] => none
  | node zero _, false :: bits => zero.walk bits
  | node _ one, true :: bits => one.walk bits

/-- The first symbol with the property `p`, and its code word. -/
def find (p : α → Bool) : CodeTree α → Option (α × List Bool)
  | leaf a => if p a then some (a, []) else none
  | node zero one =>
    ((zero.find p).map fun r => (r.1, false :: r.2)).or
      ((one.find p).map fun r => (r.1, true :: r.2))

def leaves : CodeTree α → List α
  | leaf a => [a]
  | node zero one => zero.leaves ++ one.leaves

variable {t : CodeTree α} {p : α → Bool} {a : α} {w bits rest : List Bool}

/-- **A code word is read**, whatever follows it. -/
theorem walk_find (h : t.find p = some (a, w)) (rest : List Bool) :
    p a = true ∧ t.walk (w ++ rest) = some (a, rest) := by
  induction t generalizing w with
  | leaf b =>
    unfold find at h
    split_ifs at h with hp
    obtain ⟨rfl, rfl⟩ := Prod.mk.inj (Option.some.inj h)
    exact ⟨hp, rfl⟩
  | node zero one ihz iho =>
    unfold find at h
    rcases Option.or_eq_some_iff.mp h with h | ⟨-, h⟩
    · obtain ⟨r, hr, heq⟩ := Option.map_eq_some_iff.mp h
      obtain ⟨rfl, rfl⟩ := Prod.mk.inj heq
      exact ihz hr
    · obtain ⟨r, hr, heq⟩ := Option.map_eq_some_iff.mp h
      obtain ⟨rfl, rfl⟩ := Prod.mk.inj heq
      exact iho hr

theorem isSome_find (ha : a ∈ t.leaves) (hp : p a = true) : (t.find p).isSome := by
  induction t with
  | leaf b =>
    obtain rfl := List.mem_singleton.mp ha
    unfold find
    rw [if_pos hp]
    rfl
  | node zero one ihz iho =>
    unfold find
    rw [Option.isSome_or, Option.isSome_map, Option.isSome_map, Bool.or_eq_true]
    exact (List.mem_append.mp ha).imp ihz iho

/-- A property of a symbol of the tree has a code word. -/
theorem find_spec (ha : a ∈ t.leaves) (hp : p a = true) :
    ∃ b, p b = true ∧
      ∀ rest, t.walk ((t.find p).elim [] Prod.snd ++ rest) = some (b, rest) := by
  obtain ⟨⟨b, w⟩, hfind⟩ := Option.isSome_iff_exists.mp (isSome_find ha hp)
  rw [hfind]
  exact ⟨b, (walk_find hfind []).1, fun rest => (walk_find hfind rest).2⟩

/-! ### Tables -/

variable [Inhabited α] (len : α → ℕ) (child : α → CodeTree α)

/-- The tree of the entries of a table, whose index has `m` more bits behind `d` bits. -/
def ofTable : ℕ → ℕ → List α → CodeTree α
  | 0, _, entries =>
    let e := entries.headD default
    if len e = 0 then child e else leaf e
  | m + 1, d, entries =>
    let e := entries.headD default
    if len e = d ∧ 0 < d then leaf e
    else
      node (ofTable m (d + 1) (entries.take (2 ^ m))) (ofTable m (d + 1) (entries.drop (2 ^ m)))

/-- Each entry is repeated for all bits that may follow its code word. -/
def tableOk [DecidableEq α] : ℕ → ℕ → List α → Bool
  | 0, d, entries =>
    let e := entries.headD default
    decide (len e = 0 ∨ len e = d)
  | m + 1, d, entries =>
    let e := entries.headD default
    if len e = d ∧ 0 < d then entries.all (fun e' => decide (e' = e))
    else
      tableOk m (d + 1) (entries.take (2 ^ m)) && tableOk m (d + 1) (entries.drop (2 ^ m))

variable {len child} [DecidableEq α] {m d : ℕ} {entries : List α}

/-- **A table is as good as its tree**: the entry that the next `m` bits lead to is the symbol that
is read, or leads to the tree that it is read in. -/
theorem walk_ofTable (hlen : entries.length = 2 ^ m) (hok : tableOk len m d entries = true)
    (h : (ofTable len child m d entries).walk bits = some (a, rest)) :
    ∃ e, entries[field bits m]? = some e ∧
      (len e = 0 ∧ m ≤ bits.length ∧ (child e).walk (bits.drop m) = some (a, rest) ∨
        a = e ∧ 0 < len e ∧ d ≤ len e ∧ len e - d ≤ bits.length ∧
          rest = bits.drop (len e - d)) := by
  induction m generalizing d entries bits with
  | zero =>
    obtain ⟨e, rfl⟩ := List.length_eq_one_iff.mp hlen
    unfold tableOk at hok
    unfold ofTable at h
    dsimp only at hok h
    rw [List.headD_cons] at hok h
    rw [decide_eq_true_iff] at hok
    refine ⟨e, by rw [field_zero]; rfl, ?_⟩
    by_cases h0 : len e = 0
    · rw [if_pos h0] at h
      exact Or.inl ⟨h0, Nat.zero_le _, h⟩
    · rw [if_neg h0] at h
      obtain ⟨rfl, rfl⟩ := Prod.mk.inj (Option.some.inj h)
      have hd := hok.resolve_left h0
      refine Or.inr ⟨rfl, Nat.pos_of_ne_zero h0, hd.ge, ?_, ?_⟩
      · rw [hd, Nat.sub_self]
        exact Nat.zero_le _
      · rw [hd, Nat.sub_self, List.drop_zero]
  | succ m ih =>
    obtain ⟨e, he⟩ : ∃ e, entries.headD default = e := ⟨_, rfl⟩
    unfold tableOk at hok
    unfold ofTable at h
    dsimp only at hok h
    rw [he] at hok h
    by_cases hleaf : len e = d ∧ 0 < d
    · -- the code word ends here: the entry is repeated over the whole range
      rw [if_pos hleaf, List.all_eq_true] at hok
      rw [if_pos hleaf] at h
      obtain ⟨rfl, rfl⟩ := Prod.mk.inj (Option.some.inj h)
      have hlt : field bits (m + 1) < entries.length := hlen ▸ field_lt _ _
      have hentry := hok _ (List.getElem_mem hlt)
      rw [decide_eq_true_iff] at hentry
      refine ⟨e, by rw [List.getElem?_eq_getElem hlt, hentry], Or.inr ⟨rfl, ?_, hleaf.1.ge, ?_, ?_⟩⟩
      · rw [hleaf.1]
        exact hleaf.2
      · rw [hleaf.1, Nat.sub_self]
        exact Nat.zero_le _
      · rw [hleaf.1, Nat.sub_self, List.drop_zero]
    · rw [if_neg hleaf, Bool.and_eq_true] at hok
      rw [if_neg hleaf] at h
      have hpow : 2 ^ (m + 1) = 2 ^ m + 2 ^ m := by rw [Nat.pow_succ, Nat.mul_two]
      cases bits with
      | nil => exact absurd h (by simp [walk])
      | cons b bits =>
        have hfield := field_cons b bits m
        have hlt := field_lt bits m
        -- the entry of a half is that of the whole table, one bit earlier
        have hhalf : ∀ (half : List α) (e' : α), half[field bits m]? = some e' →
            entries[field (b :: bits) (m + 1)]? = half[field bits m]? →
            (len e' = 0 ∧ m ≤ bits.length ∧ (child e').walk (bits.drop m) = some (a, rest) ∨
              a = e' ∧ 0 < len e' ∧ d + 1 ≤ len e' ∧ len e' - (d + 1) ≤ bits.length ∧
                rest = bits.drop (len e' - (d + 1))) →
            ∃ e, entries[field (b :: bits) (m + 1)]? = some e ∧
              (len e = 0 ∧ m + 1 ≤ (b :: bits).length ∧
                  (child e).walk ((b :: bits).drop (m + 1)) = some (a, rest) ∨
                a = e ∧ 0 < len e ∧ d ≤ len e ∧ len e - d ≤ (b :: bits).length ∧
                  rest = (b :: bits).drop (len e - d)) := by
          intro half e' he' heq hcase
          refine ⟨e', heq.trans he', hcase.imp ?_ ?_⟩
          · rintro ⟨h0, hm, hwalk⟩
            exact ⟨h0, Nat.succ_le_succ hm, hwalk⟩
          · rintro ⟨ha, hpos, hd, hle, hrest⟩
            have hnext : len e' - d = len e' - (d + 1) + 1 := by omega
            refine ⟨ha, hpos, (Nat.le_succ d).trans hd, ?_, ?_⟩
            · rw [hnext, List.length_cons]
              exact Nat.succ_le_succ hle
            · rw [hnext, List.drop_succ_cons]
              exact hrest
        cases b with
        | false =>
          have hhlen : (entries.take (2 ^ m)).length = 2 ^ m := by
            rw [List.length_take, hlen, hpow]
            omega
          obtain ⟨e', he', hcase⟩ := ih hhlen hok.1 h
          refine hhalf _ e' he' ?_ hcase
          rw [hfield, Bool.toNat_false, Nat.zero_mul, Nat.zero_add, List.getElem?_take_of_lt hlt]
        | true =>
          have hhlen : (entries.drop (2 ^ m)).length = 2 ^ m := by
            rw [List.length_drop, hlen, hpow]
            omega
          obtain ⟨e', he', hcase⟩ := ih hhlen hok.2 h
          refine hhalf _ e' he' ?_ hcase
          rw [hfield, Bool.toNat_true, Nat.one_mul, List.getElem?_drop]

end CodeTree
