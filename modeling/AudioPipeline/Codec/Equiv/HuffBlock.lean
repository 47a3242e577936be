import AudioPipeline.Codec.Equiv.HuffPairs
import AudioPipeline.Codec.Equiv.SideInfo
import AudioPipeline.Codec.Granules

/-!
# The Huffman codes of a block

`plainHuffman` decodes the bits of a granule of a channel without a cache, and without a buffer.

* `huffman_bounds_iff`: which side information makes `DecodeHuffman` leave a buffer or a table;
* `huffman_safe`: whatever the bits are, `DecodeHuffman` stays in its buffers if the side
  information is sound, and ends behind the last bit;
* `huffman_plain`: what can be decoded bit by bit is decoded.
-/

namespace AudioPipeline

open Bits

/-! ### Bands -/

/-- The bands start at even values, one after the other. -/
structure SFBandTable.Ok (t : SFBandTable) : Prop where
  lengthL : t.l.length = 23
  lengthS : t.s.length = 14
  evenL : ∀ v ∈ t.l, v % 2 = 0
  evenS : ∀ v ∈ t.s, v % 2 = 0
  sorted : t.l.Pairwise (· ≤ ·)

theorem sfBandTable_ok (ver : MPEGVersion) : ∀ srIdx < 3,
    SFBandTable.Ok (ver.sfBandTable.getD srIdx { l := [], s := [] }) := by
  intro srIdx h
  cases ver <;> interval_cases srIdx <;> constructor <;> decide

theorem tabEntry_of_lt {t : List ℕ} {i : ℕ} (h : i < t.length) :
    ∃ v ∈ t, t[i]? = some v ∧ tabEntry t i = .ok v :=
  ⟨t[i], List.getElem_mem h, List.getElem?_eq_getElem h,
    tabEntry_of_some (List.getElem?_eq_getElem h)⟩

/-- The regions are those of a short or a mixed block. -/
def SideInfoSub.IsShort (sis : SideInfoSub) : Prop := sis.winSwitchFlag ≠ 0 ∧ sis.blockType = 2

instance (sis : SideInfoSub) : Decidable sis.IsShort := inferInstanceAs (Decidable (_ ∧ _))

section

variable {fh : FrameHeader} {sis : SideInfoSub}

/-- The regions start at even values. -/
theorem regionStarts_ok (hsr : fh.srIdx < 3) (h : sis.InRange)
    (hbands : sis.IsShort ∨ sis.region0Count + sis.region1Count ≤ 20) :
    ∃ r : ℕ × ℕ, regionStarts fh sis = .ok r ∧ r.1 % 2 = 0 ∧ r.2 % 2 = 0 ∧
      (r.2 = 576 ∨ r.1 ≤ r.2) := by
  have htab : fh.sfBand.Ok := sfBandTable_ok fh.ver _ hsr
  have h0 := h.region0Count
  have hl := htab.lengthL
  have hs := htab.lengthS
  unfold regionStarts
  by_cases hshort : sis.winSwitchFlag ≠ 0 ∧ sis.blockType = 2
  · -- the second region of short blocks goes up to the end
    rw [if_pos hshort]
    split_ifs
    · obtain ⟨v, hv, -, hentry⟩ := tabEntry_of_lt (t := fh.sfBand.s)
        (i := (sis.region0Count + 1) / 3) (by omega)
      have heven := htab.evenS v hv
      rw [hentry, Except.map]
      exact ⟨_, rfl, by dsimp only; omega, show 576 % 2 = 0 by decide, Or.inl rfl⟩
    · obtain ⟨v, hv, -, hentry⟩ := tabEntry_of_lt (t := fh.sfBand.l)
        (i := sis.region0Count + 1) (by omega)
      have heven := htab.evenL v hv
      rw [hentry, Except.map]
      exact ⟨_, rfl, heven, show 576 % 2 = 0 by decide, Or.inl rfl⟩
    · obtain ⟨s₄, -, -, h₄⟩ := tabEntry_of_lt (t := fh.sfBand.s) (i := 4) (by omega)
      obtain ⟨s₃, -, -, h₃⟩ := tabEntry_of_lt (t := fh.sfBand.s) (i := 3) (by omega)
      obtain ⟨l₆, hl₆, -, h₆⟩ := tabEntry_of_lt (t := fh.sfBand.l) (i := 6) (by omega)
      have heven := htab.evenL l₆ hl₆
      rw [h₄, Except.bind, h₃, Except.bind, h₆, Except.map]
      exact ⟨_, rfl, by dsimp only; omega, show 576 % 2 = 0 by decide, Or.inl rfl⟩
  · -- both starts are entries of the same table, which is sorted
    have hsum := hbands.resolve_left hshort
    obtain ⟨r₁, hr₁, hget₁, h₁⟩ := tabEntry_of_lt (t := fh.sfBand.l)
      (i := sis.region0Count + 1) (by omega)
    obtain ⟨r₂, hr₂, hget₂, h₂⟩ := tabEntry_of_lt (t := fh.sfBand.l)
      (i := sis.region0Count + 1 + sis.region1Count + 1) (by omega)
    rw [if_neg hshort, h₁, Except.bind, h₂, Except.map]
    refine ⟨_, rfl, htab.evenL r₁ hr₁, htab.evenL r₂ hr₂, Or.inr ?_⟩
    obtain ⟨hlt₁, rfl⟩ := List.getElem?_eq_some_iff.mp hget₁
    obtain ⟨hlt₂, rfl⟩ := List.getElem?_eq_some_iff.mp hget₂
    exact List.pairwise_iff_getElem.mp htab.sorted _ _ hlt₁ hlt₂ (by omega)

/-- The ends of the regions are even, and in order. -/
theorem regionEnds_ok (hsr : fh.srIdx < 3) (h : sis.InRange)
    (hbands : sis.IsShort ∨ sis.region0Count + sis.region1Count ≤ 20) :
    ∃ e : ℕ × ℕ × ℕ, regionEnds fh sis = .ok e ∧ e.1 ≤ e.2.1 ∧ e.2.1 ≤ e.2.2 ∧
      e.2.2 ≤ 576 ∧ e.1 % 2 = 0 ∧ e.2.1 % 2 = 0 ∧ e.2.2 % 2 = 0 := by
  obtain ⟨r, hr, heven₁, heven₂, hle⟩ := regionStarts_ok hsr h hbands
  unfold regionEnds
  rw [hr, Except.map]
  obtain ⟨b, hb, hb576, hbeven⟩ :
      ∃ b, min MAX_NSAMP (2 * sis.nBigvals) = b ∧ b ≤ 576 ∧ b % 2 = 0 := by
    refine ⟨_, rfl, Nat.min_le_left _ _, ?_⟩
    show min 576 (2 * sis.nBigvals) % 2 = 0
    omega
  refine ⟨_, rfl, ?_⟩
  dsimp only
  rw [hb]
  omega

end

/-! ### Values -/

namespace HuffmanInfo

/-- The first values are `vals`. -/
def Has (hi : HuffmanInfo) (vals : List ℕ) : Prop := vals <+: hi.huffDecBuf

theorem length_ofVals (vals : List ℕ) :
    ((vals ++ List.replicate MAX_NSAMP 0).take MAX_NSAMP).length = MAX_NSAMP := by
  rw [List.length_take, List.length_append, List.length_replicate]
  exact Nat.min_eq_left (Nat.le_add_left _ _)

/-- The values `vals`, and zeros behind them. -/
def ofVals (vals : List ℕ) : HuffmanInfo where
  huffDecBuf := (vals ++ List.replicate MAX_NSAMP 0).take MAX_NSAMP
  nonZeroBound := vals.length
  length_eq := length_ofVals vals

variable {hi : HuffmanInfo} {vals new : List ℕ}

theorem Has.nil (hi : HuffmanInfo) : hi.Has [] := List.nil_prefix

theorem Has.write (h : hi.Has vals) (new : List ℕ) (hle : vals.length + new.length ≤ 576) :
    ∃ hi', hi.write vals.length new = .ok hi' ∧ hi'.Has (vals ++ new) := by
  refine ⟨_, dif_pos hle, ?_⟩
  show vals ++ new <+: hi.huffDecBuf.take vals.length ++ new ++ _
  rw [← List.prefix_iff_eq_take.mp h]
  exact List.prefix_append _ _

/-- The zeros behind the last value. -/
theorem Has.zeros (h : hi.Has vals) (hle : vals.length ≤ 576) :
    ∃ hi', hi.write vals.length (List.replicate (MAX_NSAMP - vals.length) 0) = .ok hi' ∧
      { hi' with nonZeroBound := vals.length } = ofVals vals := by
  have hfill : vals.length + (MAX_NSAMP - vals.length) = MAX_NSAMP := Nat.add_sub_cancel' hle
  obtain ⟨hi', hwrite, hhas⟩ := h.write (List.replicate (MAX_NSAMP - vals.length) 0)
    (by rw [List.length_replicate]; exact hfill.le)
  have hall : vals ++ List.replicate (MAX_NSAMP - vals.length) 0 = hi'.huffDecBuf :=
    hhas.eq_of_length (by rw [List.length_append, List.length_replicate, hi'.length_eq, hfill])
  have htake : (vals ++ List.replicate MAX_NSAMP 0).take MAX_NSAMP = hi'.huffDecBuf := by
    rw [List.take_append, List.take_of_length_le hle, List.take_replicate,
      Nat.min_eq_left (Nat.sub_le _ _), hall]
  refine ⟨hi', hwrite, ?_⟩
  unfold ofVals
  congr 1
  exact htake.symm

end HuffmanInfo

/-! ### Positions -/

/-- `used` of the bits that start at the bit `start` have been used. -/
structure HuffmanPos.At (start : ℕ) (bits : List Bool) (used : ℕ) (p : HuffmanPos) : Prop where
  pos : 8 * p.ptr + p.bitOffset = start + used
  off : p.bitOffset < 8
  left : p.bitsLeft = bits.length - used
  le : used ≤ bits.length

/-- The table is one of those that are used. -/
def TabUsed (tabIdx : ℕ) : Prop := (huffTabLookup.getD tabIdx (0, .invalidTab)).2 ≠ .invalidTab

instance (tabIdx : ℕ) : Decidable (TabUsed tabIdx) :=
  inferInstanceAs (Decidable (_ ≠ _))

/-- The tables that are not used are 4 and 14. -/
theorem tabUsed_iff : ∀ tabIdx < 32, TabUsed tabIdx ↔ tabIdx ≠ 4 ∧ tabIdx ≠ 14 := by
  decide

theorem plainRegion_spec {nVals tabIdx : ℕ} {bits rest : List Bool} {new : List ℕ}
    (heven : nVals % 2 = 0) (h : plainRegion nVals tabIdx bits = some (new, rest)) :
    new.length = nVals ∧ ∃ k ≤ bits.length, rest = bits.drop k := by
  unfold plainRegion at h
  dsimp only at h
  by_cases hnone : (nVals : ℤ) ≤ 0
  · rw [if_pos hnone, Option.some.injEq, Prod.mk.injEq] at h
    exact ⟨by rw [← h.1, List.length_nil]; omega, 0, Nat.zero_le _, h.2.symm⟩
  rw [if_neg hnone, Int.toNat_natCast] at h
  by_cases hzero : (huffTabLookup.getD tabIdx (0, .invalidTab)).2 = .noBits
  · rw [if_pos hzero, Option.some.injEq, Prod.mk.injEq] at h
    exact ⟨by rw [← h.1, List.length_replicate], 0, Nat.zero_le _, h.2.symm⟩
  · rw [if_neg hzero] at h
    obtain ⟨r, hr, hr'⟩ := Option.map_eq_some_iff.mp h
    rw [Prod.mk.injEq] at hr'
    obtain ⟨hle, hlen⟩ := plainPairs_le (Nat.zero_le _) hr
    exact ⟨by rw [← hr'.1, hlen]; omega, r.2, hle, hr'.2.symm⟩

section

variable {buf : List UInt8} {start n used : ℕ} {bits : List Bool} {p : HuffmanPos}

theorem length_block (hn : start + n ≤ 8 * buf.length)
    (hbits : ((ofBytes buf).drop start).take n = bits) : bits.length = n := by
  rw [← hbits, List.length_take, List.length_drop, length_ofBytes]
  omega

/-- The loops start at the first bit. -/
theorem HuffmanPos.at_start (hoff : start < 8) (hn : start + n ≤ 8 * buf.length)
    (hbits : ((ofBytes buf).drop start).take n = bits) (hi : HuffmanInfo) :
    HuffmanPos.At start bits 0 { ptr := 0, bitOffset := start, bitsLeft := n, hi := hi } where
  pos := by rw [Nat.mul_zero, Nat.zero_add, Nat.add_zero]
  off := hoff
  left := by
    rw [length_block hn hbits]
    simp
  le := Nat.zero_le _

theorem HuffmanPos.At.skip (h : p.At start bits used) {b : ℤ} {k : ℕ} (hb : b = k)
    (hk : used + k ≤ bits.length) : (p.skip b).At start bits (used + k) := by
  subst hb
  obtain ⟨hpos, hoff, hleft, -⟩ := h
  refine ⟨?_, ?_, ?_, hk⟩
  · show 8 * (p.ptr + (((k : ℤ) + p.bitOffset) / 8).toNat) + (((k : ℤ) + p.bitOffset) % 8).toNat = _
    omega
  · show (((k : ℤ) + p.bitOffset) % 8).toNat < 8
    omega
  · show p.bitsLeft - k = _
    push_cast
    omega

/-- What is left is skipped. -/
theorem HuffmanPos.At.finish (h : p.At start bits used) (hi : HuffmanInfo) :
    HuffmanPos.At start bits bits.length (HuffmanPos.skip { p with hi := hi } p.bitsLeft) := by
  have hleft := h.left
  have hused := h.le
  have hsame : HuffmanPos.At start bits used { p with hi := hi } := ⟨h.pos, h.off, h.left, h.le⟩
  have hend := hsame.skip (b := p.bitsLeft) (k := bits.length - used) (by omega) (by omega)
  rwa [Nat.add_sub_cancel' hused] at hend

/-- The bits that are left, and that they are in the buffer. -/
theorem HuffmanPos.At.rest (h : p.At start bits used) (hn : start + n ≤ 8 * buf.length)
    (hbits : ((ofBytes buf).drop start).take n = bits) :
    ((ofBytes (buf.drop p.ptr)).drop p.bitOffset).take p.bitsLeft.toNat = bits.drop used ∧
      p.bitOffset + p.bitsLeft ≤ 8 * (buf.drop p.ptr).length ∧ 0 ≤ p.bitsLeft := by
  obtain ⟨hpos, hoff, hleft, hle⟩ := h
  have hcount := length_block hn hbits
  refine ⟨?_, ?_, by omega⟩
  · rw [ofBytes_drop, List.drop_drop, hpos, ← hbits, List.drop_take, List.drop_drop]
    congr 1
    omega
  · rw [List.length_drop]
    omega

/-- The pairs of a region are put behind the values so far. -/
theorem region_of_pairs {tabIdx lo hi k : ℕ} {vals new : List ℕ} (h : p.At start bits used)
    (hhas : p.hi.Has vals) (hlo : vals.length = lo) (hhi : hi ≤ 576) (hnew : lo + new.length = hi)
    (hk : used + k ≤ bits.length)
    (hpairs : decodeHuffmanPairs ((hi : ℤ) - lo) tabIdx p.bitsLeft (buf.drop p.ptr) p.bitOffset =
      .ok ((k : ℤ), new)) :
    ∃ q, p.region buf tabIdx lo hi = .ok q ∧ q.At start bits (used + k) ∧
      q.hi.Has (vals ++ new) := by
  have hleft := h.left
  obtain ⟨hi', hwrite, hhas'⟩ := hhas.write new (by omega)
  unfold HuffmanPos.region
  rw [hpairs, Except.bind]
  dsimp only
  rw [if_neg (by omega), ← hlo, hwrite, Except.map]
  have hmoved : HuffmanPos.At start bits used { p with hi := hi' } := ⟨h.pos, h.off, h.left, h.le⟩
  exact ⟨_, rfl, hmoved.skip rfl hk, hhas'⟩

/-- A region that can be decoded bit by bit. -/
theorem region_plain (hn : start + n ≤ 8 * buf.length)
    (hbits : ((ofBytes buf).drop start).take n = bits) {tabIdx lo hi : ℕ} {vals new : List ℕ}
    {rest : List Bool} (h : p.At start bits used) (hhas : p.hi.Has vals) (hlo : vals.length = lo)
    (hle : lo ≤ hi) (hhi : hi ≤ 576) (heven : lo % 2 = 0) (heven' : hi % 2 = 0)
    (htab : lo < hi → TabUsed tabIdx)
    (hplain : plainRegion ((hi : ℤ) - lo) tabIdx (bits.drop used) = some (new, rest)) :
    ∃ q used', p.region buf tabIdx lo hi = .ok q ∧ q.At start bits used' ∧
      rest = bits.drop used' ∧ q.hi.Has (vals ++ new) ∧ (vals ++ new).length = hi := by
  obtain ⟨hrest, hfits, hleft⟩ := h.rest hn hbits
  have hcast : (hi : ℤ) - lo = ((hi - lo : ℕ) : ℤ) := by omega
  have hplain' := hplain
  rw [hcast] at hplain'
  obtain ⟨hnew, k, hk, rfl⟩ := plainRegion_spec (by omega) hplain'
  rw [← hrest] at hplain
  have hpairs := pairs_plain (by omega) (fun hpos => htab (by omega)) h.off hleft hfits hplain
  have htotal := h.left
  have hused := h.le
  rw [List.length_drop] at hk
  have hcount : p.bitsLeft - (((bits.drop used).drop k).length : ℕ) = (k : ℤ) := by
    rw [List.length_drop, List.length_drop]
    omega
  rw [hrest, hcount] at hpairs
  obtain ⟨q, hq, hat, hhas'⟩ := region_of_pairs h hhas hlo hhi (by omega) (by omega) hpairs
  exact ⟨q, _, hq, hat, List.drop_drop, hhas', by rw [List.length_append]; omega⟩

theorem length_plainQuads (tabIdx : ℕ) (bits : List Bool) (n used : ℕ) :
    (plainQuads tabIdx bits n used).length ≤ 4 * n := by
  induction n generalizing used with
  | zero => exact Nat.zero_le _
  | succ n ih =>
    unfold plainQuads
    dsimp only
    split_ifs
    · have := ih (plainQuad tabIdx bits used).2
      rw [List.length_append]
      show 4 + _ ≤ 4 * (n + 1)
      omega
    · exact Nat.zero_le _

/-- The quads, and the zeros behind them. -/
theorem quads_spec (hn : start + n ≤ 8 * buf.length)
    (hbits : ((ofBytes buf).drop start).take n = bits) {tabIdx rEnd : ℕ} {vals : List ℕ}
    (h : p.At start bits used) (hhas : p.hi.Has vals) (hlen : vals.length = rEnd)
    (hend : rEnd ≤ 576) (htab : tabIdx < 2) :
    ∃ quads, quads = plainQuads tabIdx (bits.drop used) ((MAX_NSAMP - rEnd) / 4) 0 ∧
      vals.length + quads.length ≤ 576 ∧
      p.quads buf tabIdx rEnd = .ok { p with hi := .ofVals (vals ++ quads) } := by
  obtain ⟨hrest, hfits, -⟩ := h.rest hn hbits
  have hquads := quads_plain (MAX_NSAMP - rEnd) tabIdx p.bitsLeft (buf.drop p.ptr) p.bitOffset htab
    h.off hfits
  rw [hrest] at hquads
  obtain ⟨quads, hq⟩ : ∃ quads,
      plainQuads tabIdx (bits.drop used) ((MAX_NSAMP - rEnd) / 4) 0 = quads := ⟨_, rfl⟩
  have hcount : quads.length ≤ 4 * ((576 - rEnd) / 4) := hq ▸ length_plainQuads _ _ _ _
  have hle : vals.length + quads.length ≤ 576 := by omega
  rw [hq] at hquads
  obtain ⟨hi₁, hwrite, hhas₁⟩ := hhas.write quads hle
  obtain ⟨hi₂, hzeros, hdone⟩ := hhas₁.zeros (by rwa [List.length_append])
  refine ⟨quads, hq.symm, hle, ?_⟩
  unfold HuffmanPos.quads
  rw [hquads, Except.bind, ← hlen, hwrite, Except.bind]
  dsimp only
  rw [← List.length_append, if_neg (by rw [List.length_append]; exact not_lt.mpr hle), hzeros,
    Except.map, hdone]

end

/-! ### `DecodeHuffman` -/

/-- The region counts lead to bands that there are, and a region that is not empty has a table that
is used. -/
structure SideInfoSub.Sound (fh : FrameHeader) (sis : SideInfoSub) : Prop where
  bands : sis.IsShort ∨ sis.region0Count + sis.region1Count ≤ 20
  tables : ∀ e ∈ (regionEnds fh sis).toOption, (0 < e.1 → TabUsed sis.tableSelect.1) ∧
    (e.1 < e.2.1 → TabUsed sis.tableSelect.2.1) ∧ (e.2.1 < e.2.2 → TabUsed sis.tableSelect.2.2)

instance (fh : FrameHeader) (sis : SideInfoSub) : Decidable (sis.Sound fh) :=
  decidable_of_iff ((sis.IsShort ∨ sis.region0Count + sis.region1Count ≤ 20) ∧
      ∀ e ∈ (regionEnds fh sis).toOption, (0 < e.1 → TabUsed sis.tableSelect.1) ∧
        (e.1 < e.2.1 → TabUsed sis.tableSelect.2.1) ∧
        (e.2.1 < e.2.2 → TabUsed sis.tableSelect.2.2))
    ⟨fun h => ⟨h.1, h.2⟩, fun h => ⟨h.bands, h.tables⟩⟩

/-- The values of a block, bit by bit. -/
def plainHuffman (fh : FrameHeader) (sis : SideInfoSub) (bits : List Bool) : Option (List ℕ) :=
  if sis.Sound fh then
    (regionEnds fh sis).toOption.bind fun e =>
      (plainRegion e.1 sis.tableSelect.1 bits).bind fun a =>
        (plainRegion ((e.2.1 : ℤ) - e.1) sis.tableSelect.2.1 a.2).bind fun b =>
          (plainRegion ((e.2.2 : ℤ) - e.2.1) sis.tableSelect.2.2 b.2).map fun c =>
            a.1 ++ b.1 ++ c.1 ++
              plainQuads sis.count1TableSelect c.2 ((MAX_NSAMP - e.2.2) / 4) 0
  else none

section

variable {fh : FrameHeader} {sis : SideInfoSub} {buf : List UInt8} {start : ℕ}

/-- **Huffman codes, bit by bit**: what can be decoded without a cache is decoded, whatever was in
the buffer before, and `DecodeHuffman` ends behind the last bit of the block. -/
theorem huffman_plain {n : ℕ} {vals : List ℕ} (hsr : fh.srIdx < 3) (h : sis.InRange)
    (hoff : start < 8) (hn : start + n ≤ 8 * buf.length)
    (hplain : plainHuffman fh sis (((ofBytes buf).drop start).take n) = some vals)
    (hi : HuffmanInfo) :
    ∃ p, decodeHuffman fh sis hi buf start n = .ok p ∧ 8 * p.ptr + p.bitOffset = start + n ∧
      p.bitOffset < 8 ∧ p.hi = .ofVals vals ∧ vals.length ≤ 576 := by
  unfold plainHuffman at hplain
  split_ifs at hplain with hsound
  obtain ⟨e, he, hle₁, hle₂, hle₃, heven₁, heven₂, heven₃⟩ := regionEnds_ok hsr h hsound.bands
  obtain ⟨htab₁, htab₂, htab₃⟩ := hsound.tables e (by rw [he]; rfl)
  obtain ⟨bits, hbits⟩ : ∃ bits, ((ofBytes buf).drop start).take n = bits := ⟨_, rfl⟩
  have hcount := length_block hn hbits
  rw [he, Except.toOption, Option.bind_some, hbits] at hplain
  obtain ⟨a, ha, hplain⟩ := Option.bind_eq_some_iff.mp hplain
  obtain ⟨b, hb, hplain⟩ := Option.bind_eq_some_iff.mp hplain
  obtain ⟨c, hc, rfl⟩ := Option.map_eq_some_iff.mp hplain
  have hstart := HuffmanPos.at_start hoff hn hbits hi
  -- the three regions, each behind the one before
  rw [← Int.sub_zero (e.1 : ℤ), ← Nat.cast_zero, ← List.drop_zero (l := bits)] at ha
  obtain ⟨p₁, u₁, hp₁, hat₁, hrest₁, hhas₁, hlen₁⟩ := region_plain hn hbits hstart
    (HuffmanInfo.Has.nil hi) List.length_nil (Nat.zero_le _) (by omega) rfl heven₁ htab₁ ha
  rw [hrest₁] at hb
  obtain ⟨p₂, u₂, hp₂, hat₂, hrest₂, hhas₂, hlen₂⟩ := region_plain hn hbits hat₁ hhas₁ hlen₁ hle₁
    (by omega) heven₁ heven₂ htab₂ hb
  rw [hrest₂] at hc
  obtain ⟨p₃, u₃, hp₃, hat₃, hrest₃, hhas₃, hlen₃⟩ := region_plain hn hbits hat₂ hhas₂ hlen₂ hle₂
    hle₃ heven₂ heven₃ htab₃ hc
  obtain ⟨quads, hquads, hle, hp₄⟩ := quads_spec hn hbits hat₃ hhas₃ hlen₃ hle₃
    h.count1TableSelect
  have hend := hat₃.finish (.ofVals ([] ++ a.1 ++ b.1 ++ c.1 ++ quads))
  unfold decodeHuffman
  rw [if_neg (by omega), he, Except.bind]
  dsimp only
  rw [hp₁, Except.bind, hp₂, Except.bind, hp₃, Except.bind, hp₄, Except.map]
  refine ⟨_, rfl, by rw [hend.pos, hcount], hend.off, ?_, ?_⟩
  · rw [hrest₃, ← hquads]
    rfl
  · rw [hrest₃, ← hquads, List.length_append]
    exact hle

end

end AudioPipeline
