import AudioPipeline.Codec.Equiv.HuffBlock
import AudioPipeline.Lib.CodeTree

/-!
# The codes of the Huffman tables

Each table is the table of a prefix code (`nodeCodes_tables`), which has a code word for each pair
of values up to its greatest (`leafMask_tables`).

* `plainWord_walk`: a code word that is read in the tree of a table is looked up in the table.
-/

namespace AudioPipeline

open Bits

/-! ### Trees -/

/-- The code words of the table at the index `i`, whose tables are at most `depth` deep. -/
def nodeTree (tab : List ℕ) : ℕ → ℕ → CodeTree ℕ
  | 0, _ => .leaf 0
  | depth + 1, i =>
    let maxBits := getMaxbits ((tab.drop i).headD 0)
    CodeTree.ofTable getHLen (fun cw => nodeTree tab depth (i + cw)) maxBits 0
      ((tab.drop i).tail.take (2 ^ maxBits))

/-- The table at the index `i` is that of its tree. -/
def nodeCodes (tab : List ℕ) : ℕ → ℕ → Bool
  | 0, _ => true
  | depth + 1, i =>
    let maxBits := getMaxbits ((tab.drop i).headD 0)
    let entries := (tab.drop i).tail.take (2 ^ maxBits)
    CodeTree.tableOk getHLen maxBits 0 entries &&
      entries.all fun cw => decide (getHLen cw ≠ 0) || nodeCodes tab depth (i + cw)

/-- The numbers of a list, as the bits of a number. -/
def mask (ks : List ℕ) : ℕ := ks.foldl (fun m k => m ||| 2 ^ k) 0

/-- The pairs of values that have a code word. -/
def leafMask (t : CodeTree ℕ) : ℕ := mask (t.leaves.map fun cw => 16 * getCWX cw + getCWY cw)

/-- The pairs of values up to `n`. -/
def squareMask (n : ℕ) : ℕ :=
  mask ((List.range (n + 1)).flatMap fun x => (List.range (n + 1)).map fun y => 16 * x + y)

/-- The tables, with the greatest value of their code words. -/
def codeTables : List (List ℕ × ℕ) :=
  [(huffTable01, 1), (huffTable02, 2), (huffTable03, 2), (huffTable05, 3), (huffTable06, 3),
    (huffTable07, 5), (huffTable08, 5), (huffTable09, 5), (huffTable10, 7), (huffTable11, 7),
    (huffTable12, 7), (huffTable13, 15), (huffTable15, 15), (huffTable16, 15), (huffTable24, 15)]

theorem nodeCodes_tables : ∀ e ∈ codeTables,
    nodeOk e.1 5 0 = true ∧ nodeCodes e.1 5 0 = true ∧ 5 ≤ e.1.length := by
  decide +kernel

theorem leafMask_tables : ∀ e ∈ codeTables, leafMask (nodeTree e.1 5 0) = squareMask e.2 := by
  decide +kernel

theorem testBit_foldl_mask (ks : List ℕ) (m k : ℕ) :
    (ks.foldl (fun m k => m ||| 2 ^ k) m).testBit k = (m.testBit k || decide (k ∈ ks)) := by
  induction ks generalizing m with
  | nil => simp
  | cons j ks ih =>
    rw [List.foldl_cons, ih, Nat.testBit_or, Nat.testBit_two_pow, Bool.or_assoc]
    congr 1
    simp [List.mem_cons, eq_comm]

theorem testBit_mask (ks : List ℕ) (k : ℕ) : (mask ks).testBit k = decide (k ∈ ks) := by
  rw [mask, testBit_foldl_mask, Nat.zero_testBit, Bool.false_or]

/-- The greatest value of the code words of a table. -/
def codeMax (tabIdx : ℕ) : ℕ := [0, 1, 2, 2, 0, 3, 3, 5, 5, 5, 7, 7, 7, 15, 0, 15].getD tabIdx 15

theorem mem_codeTables : ∀ tabIdx < 32, TabUsed tabIdx →
    (huffTabLookup.getD tabIdx (0, .invalidTab)).2 ≠ .noBits →
      (huffTab tabIdx, codeMax tabIdx) ∈ codeTables := by
  intro tabIdx h
  interval_cases tabIdx <;> simp [TabUsed, huffTabLookup, huffTab, codeMax, codeTables]

/-- The entries of a table. -/
theorem node_entries {tab : List ℕ} {depth i : ℕ} (h : nodeOk tab (depth + 1) i = true) :
    (tab.drop i).headD 0 = tab.getD i 0 ∧
      ((tab.drop i).tail.take (2 ^ getMaxbits (tab.getD i 0))).length =
        2 ^ getMaxbits (tab.getD i 0) ∧
      ∀ (k cw : ℕ), ((tab.drop i).tail.take (2 ^ getMaxbits (tab.getD i 0)))[k]? = some cw →
        tab.getD (i + k + 1) 0 = cw := by
  have hhead : (tab.drop i).headD 0 = tab.getD i 0 := by
    rw [List.headD_eq_head?_getD, List.head?_drop, List.getD_eq_getElem?_getD]
  rw [nodeOk, Bool.and_eq_true, decide_eq_true_iff, hhead] at h
  refine ⟨hhead, h.1.2.2, fun k cw hcw => ?_⟩
  rw [List.getElem?_take] at hcw
  split_ifs at hcw with hk
  rw [List.getElem?_tail, List.getElem?_drop] at hcw
  rw [Nat.add_assoc, List.getD_eq_getElem?_getD, hcw, Option.getD_some]

/-- **A table and its tree**: what is read in the tree is looked up in the table. -/
theorem plainWord_walk {tab : List ℕ} {bits rest : List Bool} {depth i fuel used cw : ℕ}
    (hok : nodeOk tab depth i = true) (hcodes : nodeCodes tab depth i = true)
    (hfuel : depth ≤ fuel) (hused : used ≤ bits.length)
    (h : (nodeTree tab depth i).walk (bits.drop used) = some (cw, rest)) :
    ∃ k, plainWord tab bits fuel i used = (cw, used + k) ∧ used + k ≤ bits.length ∧
      rest = bits.drop (used + k) := by
  induction depth generalizing i fuel used with
  | zero => exact (Bool.false_ne_true hok).elim
  | succ depth ih =>
    obtain ⟨fuel, rfl⟩ := Nat.exists_eq_succ_of_ne_zero (Nat.ne_of_gt (Nat.lt_of_lt_of_le
      (Nat.succ_pos depth) hfuel))
    obtain ⟨hhead, hlen, hentry⟩ := node_entries hok
    unfold nodeCodes at hcodes
    unfold nodeTree at h
    dsimp only at hcodes h
    rw [hhead] at hcodes h
    rw [Bool.and_eq_true, List.all_eq_true] at hcodes
    obtain ⟨e, he, hcase⟩ := CodeTree.walk_ofTable hlen hcodes.1 h
    have hget := hentry _ _ he
    unfold plainWord
    dsimp only
    rw [hget]
    rw [List.length_drop] at hcase
    rcases hcase with ⟨h0, hm, hwalk⟩ | ⟨rfl, hpos, -, hle, hrest⟩
    · -- the entry has no length: it is the offset of the next table
      have hmem := List.mem_of_getElem? he
      have hchild := hcodes.2 e hmem
      rw [Bool.or_eq_true, decide_eq_true_iff] at hchild
      have hnode : nodeOk tab depth (i + e) = true := by
        rw [nodeOk, Bool.and_eq_true, List.all_eq_true, hhead] at hok
        have := hok.2 e hmem
        rwa [if_pos h0] at this
      rw [List.drop_drop] at hwalk
      obtain ⟨k, hk, hle, hrest⟩ := ih hnode (hchild.resolve_left (not_not.mpr h0))
        (Nat.le_of_succ_le_succ hfuel) (by omega) hwalk
      rw [if_pos h0, hk, Nat.add_assoc]
      rw [Nat.add_assoc] at hle hrest
      exact ⟨_, rfl, hle, hrest⟩
    · rw [if_neg hpos.ne']
      rw [Nat.sub_zero] at hle hrest
      rw [List.drop_drop] at hrest
      exact ⟨_, rfl, by omega, hrest⟩

end AudioPipeline
