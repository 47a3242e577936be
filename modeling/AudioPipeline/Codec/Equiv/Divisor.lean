import AudioPipeline.Codec.Equiv.Mp3
import AudioPipeline.Codec.Header

/-!
## Division by the sample rate

* `divisors_iff`: `mp3_decoder_process` never divides by zero exactly if every frame it decodes is
  of layer 3.
* `divides_by_zero`: a frame of layer 1.
-/

namespace AudioPipeline

variable {δ : Type} {H : Helix δ} {info : δ → Mp3DecInfo}

/-! ### Headers -/

theorem samplerateTab_ne_zero (ver : MPEGVersion) {srIdx : ℕ} (h : srIdx < 3) :
    ver.samplerateTab.getD srIdx 0 ≠ 0 := by
  match srIdx, h with
  | 0, _ => cases ver <;> decide
  | 1, _ => cases ver <;> decide
  | 2, _ => cases ver <;> decide

theorem read_srIdx_le (buf : List UInt8) : (FrameHeader.read buf).srIdx ≤ 3 := by
  show ((buf.getD 2 0 >>> 2) &&& 0x03).toNat ≤ 3
  rw [UInt8.toNat_and]
  exact Nat.and_le_right

/-- An accepted header gives the layer that it says, and a sample rate. -/
theorem unpackFrameHeader_accepted {d : Mp3DecInfo} {buf : List UInt8}
    (h : 0 ≤ (unpackFrameHeader d buf).1) :
    (unpackFrameHeader d buf).2.layer = (FrameHeader.read buf).layer ∧
      (unpackFrameHeader d buf).2.samprate ≠ 0 := by
  have hle := read_srIdx_le buf
  unfold unpackFrameHeader at h ⊢
  by_cases hsync : ¬isSyncWord (buf.getD 0 0) (buf.getD 1 0)
  · rw [if_pos hsync] at h
    exact absurd h (show ¬(0 : ℤ) ≤ -1 by decide)
  rw [if_neg hsync] at h ⊢
  dsimp only at h ⊢
  by_cases hbad : (FrameHeader.read buf).srIdx = 3 ∨ (FrameHeader.read buf).layer = 4 ∨
      (FrameHeader.read buf).brIdx = 15
  · rw [if_pos hbad] at h
    exact absurd h (show ¬(0 : ℤ) ≤ -1 by decide)
  rw [if_neg hbad]
  rw [not_or] at hbad
  have hrate := samplerateTab_ne_zero (FrameHeader.read buf).ver
    (show (FrameHeader.read buf).srIdx < 3 by omega)
  by_cases hbr : (FrameHeader.read buf).brIdx ≠ 0
  · simp only [if_pos hbr]
    exact ⟨trivial, hrate⟩
  · simp only [if_neg hbr]
    exact ⟨trivial, hrate⟩

/-! ### Divisions -/

theorem mem_divisors {el : Info} {f : Mp3FrameInfo} {n : ℤ} :
    n ∈ el.divisors f ↔ n = f.samprate := by
  unfold Info.divisors
  split_ifs
  · exact List.mem_singleton
  · rw [List.mem_cons, List.mem_singleton, or_self]
  · exact List.mem_singleton

theorem framesDecoded_err {lastLeft : ℤ} {el : Mp3El δ} {input : Mp3Input} {accept : ℕ → ℤ → ℤ}
    {p : Round δ} (hp : p ∈ framesDecoded H lastLeft el input accept) : (p.decode H).err = 0 := by
  unfold framesDecoded at hp
  cases input with
  | data bs =>
    obtain ⟨-, hkeep⟩ := List.mem_filter.mp hp
    exact (of_decide_eq_true hkeep).2.2
  | code ret =>
    dsimp only at hp
    split_ifs at hp
    · obtain ⟨-, hkeep⟩ := List.mem_filter.mp hp
      exact of_decide_eq_true hkeep
    · exact absurd hp List.not_mem_nil

theorem framesRun_err (inputs : List (Mp3Input × (ℕ → ℤ → ℤ))) :
    ∀ (lastLeft : ℤ) (el : Mp3El δ), ∀ p ∈ framesRun H lastLeft el inputs,
      (p.decode H).err = 0 := by
  induction inputs with
  | nil => exact fun _ _ _ hp => absurd hp List.not_mem_nil
  | cons i inputs ih =>
    intro lastLeft el p hp
    rw [framesRun, List.mem_append] at hp
    rcases hp with hp | hp
    · exact framesDecoded_err hp
    · cases hr : mp3DecoderProcess H lastLeft el i.1 i.2 with
      | none =>
        rw [hr] at hp
        exact absurd hp List.not_mem_nil
      | some r =>
        rw [hr] at hp
        exact ih r.lastLeft r.el p hp

/-- The sample rate of a frame that is decoded is zero if it is not of layer 3. -/
theorem samprate_ne_zero_iff (hH : H.OfHeaders info) {p : Round δ} (herr : (p.decode H).err = 0) :
    (p.frameInfo H).samprate ≠ 0 ↔
      (FrameHeader.read (p.el.bytes p.readPos p.readLeft)).layer = 3 := by
  obtain ⟨haccept, bitrate, nSlots, hinfo⟩ := hH.header _ _ herr
  obtain ⟨hlayer, hsamprate⟩ := unpackFrameHeader_accepted haccept
  have hframe : p.frameInfo H = mp3GetLastFrameInfo (info (p.decode H).inst) := hH.frameInfo _
  change info (p.decode H).inst = _ at hinfo
  rw [hframe, mp3GetLastFrameInfo, hinfo]
  dsimp only
  rw [hlayer]
  split_ifs with h3
  · exact ⟨fun h => absurd rfl h, fun h => absurd h h3⟩
  · exact ⟨fun _ => not_not.mp h3, fun _ => hsamprate⟩

/-- **No division by zero, in any sequence of calls, exactly if every frame that is decoded is of
layer 3.** -/
theorem divisors_iff (hH : H.OfHeaders info) (lastLeft : ℤ) (el : Mp3El δ)
    (inputs : List (Mp3Input × (ℕ → ℤ → ℤ))) :
    (∀ n ∈ divisorsRun H lastLeft el inputs, n ≠ 0) ↔
      ∀ p ∈ framesRun H lastLeft el inputs,
        (FrameHeader.read (p.el.bytes p.readPos p.readLeft)).layer = 3 := by
  have herr := framesRun_err (H := H) inputs lastLeft el
  constructor
  · intro h p hp
    apply (samprate_ne_zero_iff hH (herr p hp)).mp
    exact h _ (List.mem_flatMap.mpr ⟨p, hp, mem_divisors.mpr rfl⟩)
  · intro h n hn
    obtain ⟨p, hp, hmem⟩ := List.mem_flatMap.mp hn
    rw [mem_divisors.mp hmem]
    exact (samprate_ne_zero_iff hH (herr p hp)).mpr (h p hp)

/-! ### A decoder for every header -/

/-- The size of a frame, with `fhBytes` in its header. -/
def frameSize (fhBytes : ℤ) (d : Mp3DecInfo) : ℤ :=
  max 4 (fhBytes + d.version.sideBytesTab.getD (if d.nChans = 1 then 0 else 1) 0 + d.nSlots)

/-- A decoder that finds silence in the frames of all headers. -/
def quietDecode (d : Mp3DecInfo) (bs : List UInt8) : Mp3Decoded Mp3DecInfo :=
  let r := unpackFrameHeader d bs
  if r.1 < 0 then ⟨d, ERR_MP3_INVALID_FRAMEHEADER, 0, fun _ => 0⟩
  else if bs.length < frameSize r.1 r.2 then ⟨r.2, ERR_MP3_INDATA_UNDERFLOW, 36, fun _ => 0⟩
  else ⟨r.2, 0, frameSize r.1 r.2, fun _ => 0⟩

def quietHelix : Helix Mp3DecInfo where
  init := .init
  decode := quietDecode
  frameInfo := mp3GetLastFrameInfo
  frame_size := by
    intro d bs
    unfold quietDecode
    dsimp only
    split_ifs with hbad hshort
    · exact fun herr => absurd herr (show ERR_MP3_INVALID_FRAMEHEADER ≠ 0 by decide)
    · exact fun herr => absurd herr (show ERR_MP3_INDATA_UNDERFLOW ≠ 0 by decide)
    · exact fun _ => ⟨le_max_left _ _, not_lt.mp hshort⟩
  consumed_nonneg := by
    intro d bs
    unfold quietDecode
    dsimp only
    split_ifs
    · exact le_rfl
    · show (0 : ℤ) ≤ 36
      decide
    · exact le_trans (by decide) (le_max_left _ _)

theorem quietHelix_ofHeaders : quietHelix.OfHeaders id where
  frameInfo _ := rfl
  header := by
    intro d bs
    show (quietDecode d bs).err = 0 → _ ∧ ∃ bitrate nSlots, (quietDecode d bs).inst = _
    unfold quietDecode
    dsimp only
    split_ifs with hbad hshort
    · exact fun herr => absurd herr (show ERR_MP3_INVALID_FRAMEHEADER ≠ 0 by decide)
    · exact fun herr => absurd herr (show ERR_MP3_INDATA_UNDERFLOW ≠ 0 by decide)
    · exact fun _ => ⟨not_lt.mp hbad, _, _, rfl⟩

/-- A frame of layer 3, and the division by its sample rate. -/
theorem divisors_layer3 :
    divisorsRun quietHelix 0 (.fresh quietHelix 1024)
        [(.data (silentFrame 0xa0).bytes, acceptAll)] = [44100] ∧
      ∀ n ∈ divisorsRun quietHelix 0 (.fresh quietHelix 1024)
        [(.data (silentFrame 0xa0).bytes, acceptAll)], n ≠ 0 := by
  refine ⟨by decide +kernel, (divisors_iff quietHelix_ofHeaders _ _ _).mpr ?_⟩
  decide +kernel

/-- The header is of layer 1: nothing is known of the frame but zeros, and `mp3_decoder_process`
divides by one of them. -/
theorem divides_by_zero :
    quietHelix.OfHeaders id ∧
      divisorsRun quietHelix 0 (.fresh quietHelix 1024)
        [(.data (0xff :: 0xff :: 0xa0 :: 0 :: List.replicate 518 0), acceptAll)] = [0] :=
  ⟨quietHelix_ofHeaders, by decide +kernel⟩

end AudioPipeline
