import AudioPipeline.Codec.Equiv.HuffCodes

/-!
# Writing the values of a block

`Spectrum.bits` writes the values of a block: pairs with the tables of the regions, and quads behind
them.

* `huffman_round_trip`: what is written is decoded by `DecodeHuffman`, with zeros behind it.
-/

namespace AudioPipeline

open Bits

/-! ### Values -/

/-- A value in `huffDecBuf`: its magnitude, with the sign in the highest bit. -/
def huffVal (z : ℤ) : ℕ := z.natAbs ||| (decide (z < 0)).toNat * 2 ^ 31

def signBits (z : ℤ) : List Bool := if z ≠ 0 then [decide (z < 0)] else []

/-- What the code word says of a value. -/
def codeVal (linBits : ℕ) (z : ℤ) : ℕ := if linBits ≠ 0 then min z.natAbs 15 else z.natAbs

/-- What the code word does not say of the magnitude. -/
def escapeBits (linBits : ℕ) (z : ℤ) : List Bool :=
  if linBits ≠ 0 ∧ 15 ≤ z.natAbs then ofNat linBits (z.natAbs - 15) else []

section

variable {bits rest : List Bool} {used : ℕ}

theorem drop_add {w : List Bool} (hat : bits.drop used = w ++ rest) :
    bits.drop (used + w.length) = rest := by
  rw [← List.drop_drop, hat, List.drop_left]

theorem plainSign_spec (z : ℤ) (hat : bits.drop used = signBits z ++ rest) :
    plainSign bits z.natAbs used = (huffVal z, used + (signBits z).length) := by
  unfold plainSign huffVal signBits at *
  by_cases hz : z = 0
  · subst hz
    rfl
  · have hbit : field (decide (z < 0) :: rest) 1 = (decide (z < 0)).toNat := by
      rw [field_cons, field_zero, Nat.pow_zero, Nat.mul_one, Nat.add_zero]
    rw [if_pos hz, List.singleton_append] at hat
    rw [if_pos hz, if_pos (Int.natAbs_ne_zero.mpr hz), hat, hbit]
    rfl

theorem plainLinbits_spec {linBits : ℕ} {z : ℤ} (hz : linBits ≠ 0 → z.natAbs ≤ 14 + 2 ^ linBits)
    (hat : bits.drop used = escapeBits linBits z ++ rest) :
    plainLinbits linBits bits (codeVal linBits z) used =
      (z.natAbs, used + (escapeBits linBits z).length) := by
  unfold plainLinbits codeVal escapeBits at *
  by_cases hlin : linBits = 0
  · subst hlin
    simp
  · have hpow := Nat.two_pow_pos linBits
    have hle := hz hlin
    rw [if_pos hlin]
    rcases Nat.lt_or_ge z.natAbs 15 with hlt | hge
    · rw [if_neg (by omega), if_neg (by omega), Nat.min_eq_left hlt.le]
      rfl
    · rw [if_pos ⟨hlin, hge⟩] at hat
      rw [if_pos ⟨Nat.min_eq_right hge, hlin⟩, if_pos ⟨hlin, hge⟩, hat, Nat.min_eq_right hge,
        field_ofNat_append (by omega), length_ofNat, Nat.add_sub_cancel' hge]

end

/-! ### Pairs -/

/-- The greatest value that a table can write. -/
def valueMax (tabIdx : ℕ) : ℕ :=
  let linBits := (huffTabLookup.getD tabIdx (0, .invalidTab)).1
  if linBits ≠ 0 then 14 + 2 ^ linBits else codeMax tabIdx

/-- The code word of a pair of values. -/
def codeWord (tabIdx x y : ℕ) : List Bool :=
  ((nodeTree (huffTab tabIdx) 5 0).find fun cw =>
    decide (getCWX cw = x ∧ getCWY cw = y)).elim [] Prod.snd

def valueBits (linBits : ℕ) (z : ℤ) : List Bool := escapeBits linBits z ++ signBits z

/-- A pair, written with a table. -/
def pairBits (tabIdx : ℕ) (p : ℤ × ℤ) : List Bool :=
  let linBits := (huffTabLookup.getD tabIdx (0, .invalidTab)).1
  codeWord tabIdx (codeVal linBits p.1) (codeVal linBits p.2) ++
    (valueBits linBits p.1 ++ valueBits linBits p.2)

def pairVals (p : ℤ × ℤ) : List ℕ := [huffVal p.1, huffVal p.2]

/-- A table can write the pair. -/
def InTable (tabIdx : ℕ) (p : ℤ × ℤ) : Prop :=
  p.1.natAbs ≤ valueMax tabIdx ∧ p.2.natAbs ≤ valueMax tabIdx

instance (tabIdx : ℕ) (p : ℤ × ℤ) : Decidable (InTable tabIdx p) :=
  inferInstanceAs (Decidable (_ ∧ _))

/-- A table with escapes has code words up to 15. -/
theorem codeMax_of_linBits : ∀ tabIdx < 32,
    (huffTabLookup.getD tabIdx (0, .invalidTab)).1 ≠ 0 → codeMax tabIdx = 15 := by
  decide

section

variable {tabIdx : ℕ} {bits rest : List Bool} {used : ℕ}

/-- Each pair of values has a code word. -/
theorem codeWord_spec (hmem : (huffTab tabIdx, codeMax tabIdx) ∈ codeTables) {x y : ℕ}
    (hx : x ≤ codeMax tabIdx) (hy : y ≤ codeMax tabIdx) :
    ∃ cw, getCWX cw = x ∧ getCWY cw = y ∧ ∀ rest,
      (nodeTree (huffTab tabIdx) 5 0).walk (codeWord tabIdx x y ++ rest) = some (cw, rest) := by
  obtain ⟨t, ht⟩ : ∃ t, nodeTree (huffTab tabIdx) 5 0 = t := ⟨_, rfl⟩
  have hmask := leafMask_tables _ hmem
  -- the pair is one of the square, so a leaf has it
  have hbit : (squareMask (codeMax tabIdx)).testBit (16 * x + y) = true := by
    rw [squareMask, testBit_mask, decide_eq_true_iff]
    exact List.mem_flatMap.mpr ⟨x, List.mem_range.mpr (Nat.lt_succ_of_le hx),
      List.mem_map.mpr ⟨y, List.mem_range.mpr (Nat.lt_succ_of_le hy), rfl⟩⟩
  rw [← hmask, ht, leafMask, testBit_mask, decide_eq_true_iff] at hbit
  obtain ⟨cw, hcw, hkey⟩ := List.mem_map.mp hbit
  have hmax : codeMax tabIdx ≤ 15 := by
    rcases Nat.lt_or_ge tabIdx 16 with hlt | hge
    · interval_cases tabIdx <;> decide
    · rw [codeMax, List.getD_eq_default _ _ hge]
  -- its key determines both values, as they are nibbles
  have hX : getCWX cw ≤ 15 := Nat.and_le_right
  have hY : getCWY cw ≤ 15 := Nat.and_le_right
  have hpair : getCWX cw = x ∧ getCWY cw = y := by omega
  obtain ⟨cw', hcw', hwalk⟩ := CodeTree.find_spec
    (p := fun cw => decide (getCWX cw = x ∧ getCWY cw = y)) hcw (decide_eq_true_iff.mpr hpair)
  obtain ⟨hx', hy'⟩ := decide_eq_true_iff.mp hcw'
  rw [codeWord, ht]
  exact ⟨cw', hx', hy', hwalk⟩

theorem plainValues_spec {linBits cw : ℕ} {p : ℤ × ℤ}
    (hp : linBits ≠ 0 → p.1.natAbs ≤ 14 + 2 ^ linBits ∧ p.2.natAbs ≤ 14 + 2 ^ linBits)
    (hx : getCWX cw = codeVal linBits p.1) (hy : getCWY cw = codeVal linBits p.2)
    (hat : bits.drop used = valueBits linBits p.1 ++ (valueBits linBits p.2 ++ rest)) :
    plainValues linBits bits cw used =
      (pairVals p, used + (valueBits linBits p.1 ++ valueBits linBits p.2).length) := by
  -- the bits behind each part: both escapes, each with its sign behind it
  unfold valueBits at hat
  rw [List.append_assoc] at hat
  have hat₁ := drop_add hat
  have hat₂ := drop_add hat₁
  rw [List.append_assoc] at hat₂
  have hat₃ := drop_add hat₂
  unfold plainValues
  dsimp only
  rw [hx, hy, plainLinbits_spec (fun h => (hp h).1) hat]
  dsimp only
  rw [plainSign_spec p.1 hat₁]
  dsimp only
  rw [plainLinbits_spec (fun h => (hp h).2) hat₂]
  dsimp only
  rw [plainSign_spec p.2 hat₃]
  refine Prod.ext rfl ?_
  simp only [valueBits, List.length_append]
  omega

/-- **Pairs that are written are read.** -/
theorem plainPairs_spec (hused : TabUsed tabIdx)
    (hbits : (huffTabLookup.getD tabIdx (0, .invalidTab)).2 ≠ .noBits) (ps : List (ℤ × ℤ))
    (hin : ∀ p ∈ ps, InTable tabIdx p) (hle : used ≤ bits.length)
    (hat : bits.drop used = ps.flatMap (pairBits tabIdx) ++ rest) :
    plainPairs (huffTab tabIdx) (huffTabLookup.getD tabIdx (0, .invalidTab)).1 bits ps.length used =
      some (ps.flatMap pairVals, used + (ps.flatMap (pairBits tabIdx)).length) := by
  have hlt := lt_of_validTab hused
  have hmem := mem_codeTables tabIdx hlt hused hbits
  obtain ⟨hok, hcodes, hfive⟩ := nodeCodes_tables _ hmem
  obtain ⟨linBits, hlin⟩ : ∃ linBits,
      (huffTabLookup.getD tabIdx (0, .invalidTab)).1 = linBits := ⟨_, rfl⟩
  -- by induction on the pairs, for any position that they are written at
  induction ps generalizing used with
  | nil => rfl
  | cons p ps ih =>
    obtain ⟨hin₁, hin₂⟩ := hin p List.mem_cons_self
    have hmax := codeMax_of_linBits tabIdx hlt
    unfold valueMax at hin₁ hin₂
    dsimp only at hin₁ hin₂
    rw [hlin] at hin₁ hin₂ hmax
    -- what the code word says of a value is in the table, with an escape or without
    have hcode : ∀ z : ℤ, z.natAbs ≤ (if linBits ≠ 0 then 14 + 2 ^ linBits else codeMax tabIdx) →
        codeVal linBits z ≤ codeMax tabIdx := by
      intro z hz
      unfold codeVal
      by_cases h0 : linBits ≠ 0
      · rw [if_pos h0, hmax h0]
        exact Nat.min_le_right _ _
      · rw [if_neg h0] at hz ⊢
        exact hz
    obtain ⟨cw, hx, hy, hwalk⟩ := codeWord_spec hmem (hcode _ hin₁) (hcode _ hin₂)
    rw [List.flatMap_cons, List.append_assoc] at hat
    have hat' := hat
    unfold pairBits at hat'
    dsimp only at hat'
    rw [hlin, List.append_assoc, List.append_assoc] at hat'
    obtain ⟨k, hk, hkle, hkrest⟩ := plainWord_walk hok hcodes hfive hle
      (by rw [hat']; exact hwalk _)
    have hlen := congrArg List.length hat
    rw [List.length_drop, List.length_append] at hlen
    have hvals := plainValues_spec (fun h0 => by
      rw [if_pos h0] at hin₁ hin₂
      exact ⟨hin₁, hin₂⟩) hx hy hkrest.symm
    -- the code word and the values end where the pair does
    have hword : k + (valueBits linBits p.1 ++ valueBits linBits p.2).length =
        (pairBits tabIdx p).length := by
      have h₁ := congrArg List.length hat'
      have h₂ := congrArg List.length hkrest
      unfold pairBits
      dsimp only
      rw [hlin]
      simp only [List.length_append, List.length_drop] at h₁ h₂ ⊢
      omega
    rw [List.length_cons]
    unfold plainPairs
    dsimp only
    rw [hlin, hk, hvals]
    dsimp only
    rw [Nat.add_assoc, hword, if_pos (by omega), ← hlin,
      ih (fun q hq => hin q (List.mem_cons_of_mem p hq)) (by omega) (drop_add hat), Option.map_some,
      List.flatMap_cons, List.flatMap_cons, List.length_append, Nat.add_assoc]

/-- A region, written with its table. -/
def regionBits (tabIdx : ℕ) (ps : List (ℤ × ℤ)) : List Bool :=
  if (huffTabLookup.getD tabIdx (0, .invalidTab)).2 = .noBits then []
  else ps.flatMap (pairBits tabIdx)

theorem valueMax_of_noBits : ∀ tabIdx < 32,
    (huffTabLookup.getD tabIdx (0, .invalidTab)).2 = .noBits → valueMax tabIdx = 0 := by
  decide

theorem flatMap_zeros {ps : List (ℤ × ℤ)} (h : ∀ p ∈ ps, p = (0, 0)) :
    ps.flatMap pairVals = List.replicate (2 * ps.length) 0 := by
  induction ps with
  | nil => rfl
  | cons p ps ih =>
    rw [List.flatMap_cons, ih fun q hq => h q (List.mem_cons_of_mem p hq), h p List.mem_cons_self,
      List.length_cons, Nat.mul_succ, Nat.add_comm, List.replicate_add]
    rfl

/-- **A region that is written is read.** -/
theorem plainRegion_bits (ps : List (ℤ × ℤ)) (hused : ps ≠ [] → TabUsed tabIdx)
    (hin : ∀ p ∈ ps, InTable tabIdx p) (rest : List Bool) :
    plainRegion ((2 * ps.length : ℕ) : ℤ) tabIdx (regionBits tabIdx ps ++ rest) =
      some (ps.flatMap pairVals, rest) := by
  unfold plainRegion regionBits
  dsimp only
  by_cases hne : ps = []
  · subst hne
    rw [if_pos (by simp)]
    split_ifs <;> rfl
  have hpos := List.length_pos_iff.mpr hne
  rw [if_neg (by omega), Int.toNat_natCast]
  by_cases hzero : (huffTabLookup.getD tabIdx (0, .invalidTab)).2 = .noBits
  · -- a table that has no bits has zeros only
    have hmax := valueMax_of_noBits tabIdx (lt_of_validTab (hused hne)) hzero
    rw [if_pos hzero, if_pos hzero, flatMap_zeros fun p hp => ?_]
    · rfl
    · obtain ⟨h₁, h₂⟩ := hin p hp
      rw [hmax] at h₁ h₂
      exact Prod.ext (Int.natAbs_eq_zero.mp (Nat.le_zero.mp h₁))
        (Int.natAbs_eq_zero.mp (Nat.le_zero.mp h₂))
  · rw [if_neg hzero, if_neg hzero, Nat.mul_div_cancel_left _ (by decide),
      plainPairs_spec (hused hne) hzero ps hin (Nat.zero_le _) (List.drop_zero), Option.map_some,
      Nat.zero_add, List.drop_left]

end

/-! ### Quads -/

structure Quad where
  v : ℤ
  w : ℤ
  x : ℤ
  y : ℤ
  deriving DecidableEq, Repr

/-- The values of quads are -1, 0 and 1. -/
structure Quad.Small (q : Quad) : Prop where
  v : q.v.natAbs ≤ 1
  w : q.w.natAbs ≤ 1
  x : q.x.natAbs ≤ 1
  y : q.y.natAbs ≤ 1

instance (q : Quad) : Decidable q.Small :=
  decidable_of_iff (q.v.natAbs ≤ 1 ∧ q.w.natAbs ≤ 1 ∧ q.x.natAbs ≤ 1 ∧ q.y.natAbs ≤ 1)
    ⟨fun h => ⟨h.1, h.2.1, h.2.2.1, h.2.2.2⟩, fun h => ⟨h.v, h.w, h.x, h.y⟩⟩

/-- The code words of a table of quads. -/
def quadTree (tabIdx : ℕ) : CodeTree ℕ :=
  let maxBits := quadTabMaxBits.getD tabIdx 0
  CodeTree.ofTable getHLenQ (fun _ => .leaf 0) maxBits 0
    ((quadTable.drop (quadTabOffset.getD tabIdx 0)).take (2 ^ maxBits))

def quadKey (cw : ℕ) : ℕ := 8 * getCWVQ cw + (4 * getCWWQ cw + (2 * getCWXQ cw + getCWYQ cw))

theorem quadTree_tables : ∀ tabIdx < 2,
    CodeTree.tableOk getHLenQ (quadTabMaxBits.getD tabIdx 0) 0
        ((quadTable.drop (quadTabOffset.getD tabIdx 0)).take (2 ^ quadTabMaxBits.getD tabIdx 0)) =
          true ∧
      ((quadTable.drop (quadTabOffset.getD tabIdx 0)).take
        (2 ^ quadTabMaxBits.getD tabIdx 0)).length = 2 ^ quadTabMaxBits.getD tabIdx 0 ∧
      mask ((quadTree tabIdx).leaves.map quadKey) = 2 ^ 16 - 1 := by
  decide

def quadWord (tabIdx : ℕ) (q : Quad) : List Bool :=
  ((quadTree tabIdx).find fun cw => decide (getCWVQ cw = q.v.natAbs ∧ getCWWQ cw = q.w.natAbs ∧
    getCWXQ cw = q.x.natAbs ∧ getCWYQ cw = q.y.natAbs)).elim [] Prod.snd

def quadBits (tabIdx : ℕ) (q : Quad) : List Bool :=
  quadWord tabIdx q ++ (signBits q.v ++ (signBits q.w ++ (signBits q.x ++ signBits q.y)))

def Quad.vals (q : Quad) : List ℕ := [huffVal q.v, huffVal q.w, huffVal q.x, huffVal q.y]

section

variable {tabIdx : ℕ} {bits rest : List Bool} {used : ℕ}

theorem quadWord_spec (htab : tabIdx < 2) {q : Quad} (hq : q.Small) :
    ∃ cw, getCWVQ cw = q.v.natAbs ∧ getCWWQ cw = q.w.natAbs ∧ getCWXQ cw = q.x.natAbs ∧
      getCWYQ cw = q.y.natAbs ∧
      ∀ rest, (quadTree tabIdx).walk (quadWord tabIdx q ++ rest) = some (cw, rest) := by
  obtain ⟨-, -, hmask⟩ := quadTree_tables tabIdx htab
  obtain ⟨hv, hw, hx, hy⟩ := hq
  obtain ⟨key, hkey⟩ : ∃ key,
      8 * q.v.natAbs + (4 * q.w.natAbs + (2 * q.x.natAbs + q.y.natAbs)) = key := ⟨_, rfl⟩
  -- all 16 quads have a leaf
  have hbit : (2 ^ 16 - 1).testBit key = true := by
    rw [Nat.testBit_two_pow_sub_one, decide_eq_true_iff]
    omega
  rw [← hmask, testBit_mask, decide_eq_true_iff] at hbit
  obtain ⟨cw, hcw, heq⟩ := List.mem_map.mp hbit
  have hV : getCWVQ cw ≤ 1 := Nat.and_le_right
  have hW : getCWWQ cw ≤ 1 := Nat.and_le_right
  have hX : getCWXQ cw ≤ 1 := Nat.and_le_right
  have hY : getCWYQ cw ≤ 1 := Nat.and_le_right
  unfold quadKey at heq
  have hquad : getCWVQ cw = q.v.natAbs ∧ getCWWQ cw = q.w.natAbs ∧
      getCWXQ cw = q.x.natAbs ∧ getCWYQ cw = q.y.natAbs := by omega
  obtain ⟨cw', hcw', hwalk⟩ := CodeTree.find_spec
    (p := fun cw => decide (getCWVQ cw = q.v.natAbs ∧ getCWWQ cw = q.w.natAbs ∧
      getCWXQ cw = q.x.natAbs ∧ getCWYQ cw = q.y.natAbs)) hcw (decide_eq_true_iff.mpr hquad)
  obtain ⟨hv', hw', hx', hy'⟩ := decide_eq_true_iff.mp hcw'
  exact ⟨cw', hv', hw', hx', hy', hwalk⟩

/-- **A quad that is written is read.** -/
theorem plainQuad_spec (htab : tabIdx < 2) {q : Quad} (hq : q.Small)
    (hat : bits.drop used = quadBits tabIdx q ++ rest) :
    plainQuad tabIdx bits used = (q.vals, used + (quadBits tabIdx q).length) := by
  obtain ⟨cw, hv, hw, hx, hy, hwalk⟩ := quadWord_spec htab hq
  obtain ⟨hok, hlen, -⟩ := quadTree_tables tabIdx htab
  unfold quadBits at hat
  rw [List.append_assoc, List.append_assoc, List.append_assoc, List.append_assoc] at hat
  have htree : (quadTree tabIdx).walk (bits.drop used) = some (cw, _) := hat ▸ hwalk _
  unfold quadTree at htree
  obtain ⟨e, he, hcase⟩ := CodeTree.walk_ofTable hlen hok htree
  have hentry : quadEntry tabIdx (field (bits.drop used) (quadTabMaxBits.getD tabIdx 0)) = e := by
    rw [List.getElem?_take_of_lt (field_lt _ _), List.getElem?_drop] at he
    rw [quadEntry, List.getD_eq_getElem?_getD, he, Option.getD_some]
  have hpos := (quadEntry_len tabIdx htab _ (field_lt (bits.drop used) _)).1
  rw [hentry] at hpos
  obtain ⟨rfl, -, -, hle, hrest⟩ := hcase.resolve_left fun h => hpos.ne' h.1
  rw [Nat.sub_zero] at hle hrest
  -- the entry says how long the code word is, which the tree does not
  have hword : (quadWord tabIdx q).length = getHLenQ cw := by
    have h₁ := congrArg List.length hat
    have h₂ := congrArg List.length hrest
    rw [List.length_append] at h₁
    rw [List.length_drop] at h₂
    omega
  have hat₁ := drop_add hat
  have hat₂ := drop_add hat₁
  have hat₃ := drop_add hat₂
  have hat₄ := drop_add hat₃
  rw [hword] at hat₁ hat₂ hat₃ hat₄
  unfold plainQuad
  dsimp only
  rw [hentry, hv, hw, hx, hy, plainSign_spec q.v hat₁]
  dsimp only
  rw [plainSign_spec q.w hat₂]
  dsimp only
  rw [plainSign_spec q.x hat₃]
  dsimp only
  rw [plainSign_spec q.y hat₄]
  refine Prod.ext rfl ?_
  simp only [quadBits, List.length_append, hword]
  omega

/-- **Quads that are written up to the last bit are read.** -/
theorem plainQuads_spec (htab : tabIdx < 2) (qs : List Quad) (hqs : ∀ q ∈ qs, q.Small) {n : ℕ}
    (hn : qs.length ≤ n) (hle : used ≤ bits.length)
    (hat : bits.drop used = qs.flatMap (quadBits tabIdx)) :
    plainQuads tabIdx bits n used = qs.flatMap Quad.vals := by
  induction qs generalizing n used with
  | nil =>
    -- a quad takes a bit at least, and there is none: the loop ends
    have hend : used = bits.length := by
      have := congrArg List.length hat
      rw [List.length_drop, List.flatMap_nil, List.length_nil] at this
      omega
    cases n with
    | zero => rfl
    | succ n =>
      have hlt := lt_plainQuad htab bits used
      unfold plainQuads
      dsimp only
      rw [if_neg (by omega)]
      rfl
  | cons q qs ih =>
    obtain ⟨n, rfl⟩ := Nat.exists_eq_succ_of_ne_zero (Nat.ne_of_gt (Nat.lt_of_lt_of_le
      (Nat.succ_pos _) hn))
    rw [List.flatMap_cons] at hat
    have hlen := congrArg List.length hat
    rw [List.length_drop, List.length_append] at hlen
    unfold plainQuads
    dsimp only
    rw [plainQuad_spec htab (hqs q List.mem_cons_self) hat]
    dsimp only
    rw [if_pos (by omega), ih (fun q' hq' => hqs q' (List.mem_cons_of_mem q hq'))
      (Nat.le_of_succ_le_succ hn) (by omega) (drop_add hat), List.flatMap_cons]

end

/-! ### A block -/

/-- The values of a block: pairs, and quads behind them. -/
structure Spectrum where
  big : List (ℤ × ℤ)
  quads : List Quad

namespace Spectrum

/-- The pairs of a region. -/
def region (s : Spectrum) (lo hi : ℕ) : List (ℤ × ℤ) := (s.big.take (hi / 2)).drop (lo / 2)

def vals (s : Spectrum) : List ℕ := s.big.flatMap pairVals ++ s.quads.flatMap Quad.vals

/-- The bits of a block. -/
def bits (fh : FrameHeader) (sis : SideInfoSub) (s : Spectrum) : List Bool :=
  (regionEnds fh sis).toOption.elim [] fun e =>
    regionBits sis.tableSelect.1 (s.region 0 e.1) ++
      (regionBits sis.tableSelect.2.1 (s.region e.1 e.2.1) ++
        (regionBits sis.tableSelect.2.2 (s.region e.2.1 e.2.2) ++
          s.quads.flatMap (quadBits sis.count1TableSelect)))

/-- The side information is that of the values. -/
structure Fits (fh : FrameHeader) (sis : SideInfoSub) (s : Spectrum) : Prop where
  sound : sis.Sound fh
  big : s.big.length = min 288 sis.nBigvals
  quads : 2 * s.big.length + 4 * s.quads.length ≤ 576
  tables : ∀ e ∈ (regionEnds fh sis).toOption,
    (∀ p ∈ s.region 0 e.1, InTable sis.tableSelect.1 p) ∧
      (∀ p ∈ s.region e.1 e.2.1, InTable sis.tableSelect.2.1 p) ∧
      ∀ p ∈ s.region e.2.1 e.2.2, InTable sis.tableSelect.2.2 p
  small : ∀ q ∈ s.quads, q.Small

instance (fh : FrameHeader) (sis : SideInfoSub) (s : Spectrum) : Decidable (s.Fits fh sis) :=
  decidable_of_iff (sis.Sound fh ∧ s.big.length = min 288 sis.nBigvals ∧
      2 * s.big.length + 4 * s.quads.length ≤ 576 ∧
      (∀ e ∈ (regionEnds fh sis).toOption,
        (∀ p ∈ s.region 0 e.1, InTable sis.tableSelect.1 p) ∧
          (∀ p ∈ s.region e.1 e.2.1, InTable sis.tableSelect.2.1 p) ∧
          ∀ p ∈ s.region e.2.1 e.2.2, InTable sis.tableSelect.2.2 p) ∧
      ∀ q ∈ s.quads, q.Small)
    ⟨fun h => ⟨h.1, h.2.1, h.2.2.1, h.2.2.2.1, h.2.2.2.2⟩,
      fun h => ⟨h.sound, h.big, h.quads, h.tables, h.small⟩⟩

end Spectrum

section

variable {fh : FrameHeader} {sis : SideInfoSub} {s : Spectrum}

theorem regionEnds_last {e : ℕ × ℕ × ℕ} (h : regionEnds fh sis = .ok e) :
    e.2.2 = min 576 (2 * sis.nBigvals) := by
  unfold regionEnds at h
  cases hr : regionStarts fh sis with
  | ok r =>
    rw [hr] at h
    obtain rfl := Except.ok.inj h
    rfl
  | error err =>
    rw [hr] at h
    cases h

theorem Spectrum.length_region {lo hi : ℕ} (hhi : hi ≤ 2 * s.big.length) :
    (s.region lo hi).length = hi / 2 - lo / 2 := by
  rw [region, List.length_drop, List.length_take]
  omega

theorem Spectrum.region_append {lo mid hi : ℕ} (h₁ : lo ≤ mid) (h₂ : mid ≤ hi) :
    s.region lo mid ++ s.region mid hi = s.region lo hi := by
  have htake : s.big.take (mid / 2) = (s.big.take (hi / 2)).take (mid / 2) := by
    rw [List.take_take, Nat.min_eq_left (Nat.div_le_div_right h₂)]
  have hdrop : mid / 2 = lo / 2 + (mid / 2 - lo / 2) :=
    (Nat.add_sub_cancel' (Nat.div_le_div_right h₁)).symm
  unfold region
  rw [htake, List.drop_take]
  nth_rewrite 2 [hdrop]
  rw [← List.drop_drop, List.take_append_drop]

theorem Spectrum.region_all {hi : ℕ} (hhi : hi = 2 * s.big.length) : s.region 0 hi = s.big := by
  rw [region, hhi, Nat.mul_div_cancel_left _ (by decide), List.take_length]
  rfl

/-- A region that is not empty has pairs. -/
theorem Spectrum.lt_of_region_ne_nil {lo hi : ℕ} (h : s.region lo hi ≠ []) : lo < hi := by
  by_contra hge
  refine h (List.drop_eq_nil_of_le ?_)
  rw [List.length_take]
  omega

theorem Spectrum.plainRegion_region {tabIdx lo hi : ℕ} (hused : lo < hi → TabUsed tabIdx)
    (hle : lo ≤ hi) (hhi : hi ≤ 2 * s.big.length) (hlo : lo % 2 = 0) (heven : hi % 2 = 0)
    (hin : ∀ p ∈ s.region lo hi, InTable tabIdx p) (rest : List Bool) :
    plainRegion ((hi : ℤ) - lo) tabIdx (regionBits tabIdx (s.region lo hi) ++ rest) =
      some ((s.region lo hi).flatMap pairVals, rest) := by
  have hlen : (s.region lo hi).length = hi / 2 - lo / 2 := s.length_region hhi
  rw [← plainRegion_bits (s.region lo hi) (fun hne => hused (lt_of_region_ne_nil hne)) hin rest,
    hlen]
  congr 1
  omega

/-- **A block that is written is read**, bit by bit. -/
theorem plainHuffman_bits (hsr : fh.srIdx < 3) (hsis : sis.InRange) (h : s.Fits fh sis) :
    plainHuffman fh sis (s.bits fh sis) = some s.vals := by
  obtain ⟨e, he, hle₁, hle₂, hle₃, heven₁, heven₂, heven₃⟩ := regionEnds_ok hsr hsis h.sound.bands
  have hlast := regionEnds_last he
  have hopt : (regionEnds fh sis).toOption = some e := by rw [he]; rfl
  obtain ⟨hused₁, hused₂, hused₃⟩ := h.sound.tables e hopt
  obtain ⟨hin₁, hin₂, hin₃⟩ := h.tables e hopt
  have hbig := h.big
  have hquads := h.quads
  have hcount : e.2.2 = 2 * s.big.length := by omega
  -- the three regions are all of the pairs
  have hvals : (s.region 0 e.1).flatMap pairVals ++ (s.region e.1 e.2.1).flatMap pairVals ++
      (s.region e.2.1 e.2.2).flatMap pairVals = s.big.flatMap pairVals := by
    rw [← List.flatMap_append, ← List.flatMap_append, s.region_append (Nat.zero_le _) hle₁,
      s.region_append (Nat.zero_le _) hle₂, s.region_all hcount]
  unfold plainHuffman Spectrum.bits
  rw [if_pos h.sound, hopt, Option.bind_some, Option.elim_some]
  have h₁ := s.plainRegion_region hused₁ (Nat.zero_le _) (by omega) rfl heven₁ hin₁
  rw [Nat.cast_zero, Int.sub_zero] at h₁
  rw [h₁, Option.bind_some, s.plainRegion_region hused₂ hle₁ (by omega) heven₁ heven₂ hin₂,
    Option.bind_some, s.plainRegion_region hused₃ hle₂ hcount.le heven₂ heven₃ hin₃,
    Option.map_some]
  dsimp only
  rw [hvals, plainQuads_spec hsis.count1TableSelect s.quads h.small ?_ (Nat.zero_le _)
    List.drop_zero]
  · rfl
  · show s.quads.length ≤ (576 - e.2.2) / 4
    omega

/-- **Huffman codes round trip**: a block that is written anywhere in the data is decoded, whatever
was in the buffer before. -/
theorem huffman_round_trip {buf : List UInt8} {start : ℕ} {rest : List Bool} (hsr : fh.srIdx < 3)
    (hsis : sis.InRange) (h : s.Fits fh sis) (hoff : start < 8) (hstart : start ≤ 8 * buf.length)
    (hdata : (ofBytes buf).drop start = s.bits fh sis ++ rest) (hi : HuffmanInfo) :
    ∃ p, decodeHuffman fh sis hi buf start (s.bits fh sis).length = .ok p ∧
      8 * p.ptr + p.bitOffset = start + (s.bits fh sis).length ∧ p.bitOffset < 8 ∧
      p.hi = .ofVals s.vals := by
  have hlen := congrArg List.length hdata
  rw [List.length_drop, length_ofBytes, List.length_append] at hlen
  have htake : ((ofBytes buf).drop start).take (s.bits fh sis).length = s.bits fh sis := by
    rw [hdata, List.take_left]
  obtain ⟨p, hp, hend, hlt, hvals, -⟩ := huffman_plain hsr hsis hoff (by omega)
    (htake.symm ▸ plainHuffman_bits hsr hsis h) hi
  exact ⟨p, hp, hend, hlt, hvals⟩

end

/-- A pair and a quad. -/
def smallSpectrum : Spectrum where
  big := [(1, -1)]
  quads := [⟨0, 1, 0, -1⟩]

def pairHeader : FrameHeader := FrameHeader.read [0xff, 0xf3, 0x14, 0xc0]

def pairBlock : SideInfoSub :=
  { SideInfoSub.zero with
    part23Length := 11
    nBigvals := 1
    tableSelect := (1, 0, 0)
    count1TableSelect := 1 }

theorem pairBlock_inRange : pairBlock.InRange := by
  constructor <;> decide

theorem huffman_round_trip_small :
    ∃ p, decodeHuffman pairHeader pairBlock .zero [0xe1, 0xa7] 3 11 = .ok p ∧
      8 * p.ptr + p.bitOffset = 14 ∧ p.bitOffset < 8 ∧
      p.hi = .ofVals [1, 1 + 2 ^ 31, 0, 1, 0, 1 + 2 ^ 31] := by
  have hbits : smallSpectrum.bits pairHeader pairBlock =
      [false, false, false, false, true, true, false, true, false, false, true] := by
    decide
  have hdata : (ofBytes [0xe1, 0xa7]).drop 3 =
      smallSpectrum.bits pairHeader pairBlock ++ [true, true] := by
    rw [hbits]
    decide
  have h := huffman_round_trip (by decide) pairBlock_inRange (by decide) (by decide) (by decide)
    hdata .zero
  rwa [hbits] at h

end AudioPipeline
