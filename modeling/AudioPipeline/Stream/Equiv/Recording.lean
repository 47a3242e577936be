import AudioPipeline.Lib.Lts
import AudioPipeline.Stream.Basic
import Mathlib.Data.Int.ModEq
import Mathlib.Tactic.Common
import Mathlib.Tactic.Ring

/-!
## Recording a WAV file

* `wav_recording_iff`: after a close, the file is the recording exactly if nothing of it had been
  accepted before the last open.

While the file is open it is a header and the payload since the open (`Recorder.Open`), whereas
`byte_pos` counts the payload of the whole recording.
-/

namespace AudioPipeline

/-! ### The writer in a recording -/

/-- A fatfs writer with the payload that `write` has accepted in the current recording. -/
structure Recorder where
  el : FatfsEl
  /-- the payload of the recording so far -/
  accepted : List UInt8
  /-- the payload of the recording before the file was opened for the last time -/
  before : List UInt8
  /-- the last close has ended the recording, or there was none -/
  ended : Bool

inductive RecorderEvent
  | open
  | write (buffer : List UInt8) (accepted : Option ℕ)
  /-- a pause closes with the state `AEL_STATE_PAUSED` -/
  | close (paused : Bool) (wavInfo : WavHeader)

namespace Recorder

/-- The element opens a closed file, and writes to and closes an open one. -/
def step (formatToBits : PcmFormat → ℕ) (r : Recorder) : RecorderEvent → Option Recorder
  | .open =>
    if r.el.isOpen then none
    else
      let payload := if r.ended then [] else r.accepted
      some ⟨(r.el.fatfsOpen true 0 true).2, payload, payload, false⟩
  | .write buffer accepted =>
    if r.el.isOpen ∧ (buffer.length : ℤ) ≤ INT_MAX then
      let result := r.el.fatfsWrite buffer accepted
      some { r with el := result.2, accepted := r.accepted ++ buffer.take result.1.toNat }
    else none
  | .close paused wavInfo =>
    if r.el.isOpen then
      let el := { r.el with paused := paused }
      some { r with el := (el.fatfsClose formatToBits wavInfo).2, ended := !paused }
    else none

/-- A new writer of a WAV file. -/
structure Starts (r : Recorder) : Prop where
  type : r.el.type = .writer
  closed : r.el.isOpen = false
  header : r.el.writeHeader = true
  path : ∃ path, r.el.path = some path ∧ getType path = .wav
  bytePos : r.el.info.bytePos = 0
  ended : r.ended = true
  bits : r.el.info.bits = 16 ∨ r.el.info.bits = 24 ∨ r.el.info.bits = 32

/-- The file is a header and the payload of the recording, and the fields of the header say so. -/
def Consistent (r : Recorder) : Prop :=
  ∃ w : WavHeader, r.el.content = w.bytes ++ r.accepted ∧
    w.dataSize.toNat = r.accepted.length ∧
    w.riffSize.toNat = r.el.content.length - 8 ∧
    (w.blockAlign.toNat * 8 : ℤ) = r.el.info.channels * w.bitsPerSample.toNat ∧
    w.byterate.toNat = w.samplerate.toNat * w.blockAlign.toNat % 2 ^ 32

/-- What the events leave alone. -/
structure Static (r₀ r : Recorder) : Prop where
  type : r.el.type = .writer
  header : r.el.writeHeader = true
  path : ∃ path, r.el.path = some path ∧ getType path = .wav
  sampleRates : r.el.info.sampleRates = r₀.el.info.sampleRates
  bits : r.el.info.bits = r₀.el.info.bits
  channels : r.el.info.channels = r₀.el.info.channels

/-- While the file is open, it is 44 bytes for the header and the payload since the open. -/
structure Open (r : Recorder) : Prop where
  wType : r.el.wType = .wav
  ended : r.ended = false
  content : ∃ header since, r.el.content = header ++ since ∧ header.length = 44 ∧
    r.accepted = r.before ++ since
  offset : r.el.offset = some r.el.content.length

/-- The invariant of a recorder. -/
structure Inv (r₀ r : Recorder) : Prop where
  static : r₀.Static r
  bytePos : r.el.info.bytePos = if r.ended then 0 else toInt64 r.accepted.length
  opened : r.el.isOpen = true → r.Open

end Recorder

/-! ### Fields and bytes -/

theorem toU16_toNat_emod (n : ℤ) : ((toU16 n).toNat : ℤ) = n % 2 ^ 16 := by
  rw [toU16, UInt16.toNat_ofNat']
  omega

theorem toU32_toNat_emod (n : ℤ) : ((toU32 n).toNat : ℤ) = n % 2 ^ 32 := by
  rw [toU32, UInt32.toNat_ofNat']
  omega

/-- The bytes of a field determine it. -/
theorem le16_inj {m n : UInt16} (h : le16 m = le16 n) : m = n := by
  simp only [le16, List.cons.injEq, and_true] at h
  have h0 := congrArg UInt8.toNat h.1
  have h1 := congrArg UInt8.toNat h.2
  have hm := m.toNat_lt
  have hn := n.toNat_lt
  have h8 : (8 : UInt16).toNat % 16 = 8 := by decide
  simp only [UInt16.toNat_toUInt8, UInt16.toNat_shiftRight, Nat.shiftRight_eq_div_pow, h8] at h0 h1
  apply UInt16.toNat_inj.mp
  omega

theorem le32_inj {m n : UInt32} (h : le32 m = le32 n) : m = n := by
  simp only [le32, List.cons.injEq, and_true] at h
  have h0 := congrArg UInt8.toNat h.1
  have h1 := congrArg UInt8.toNat h.2.1
  have h2 := congrArg UInt8.toNat h.2.2.1
  have h3 := congrArg UInt8.toNat h.2.2.2
  have hm := m.toNat_lt
  have hn := n.toNat_lt
  have h8 : (8 : UInt32).toNat % 32 = 8 := by decide
  have h16 : (16 : UInt32).toNat % 32 = 16 := by decide
  have h24 : (24 : UInt32).toNat % 32 = 24 := by decide
  simp only [UInt32.toNat_toUInt8, UInt32.toNat_shiftRight, Nat.shiftRight_eq_div_pow, h8, h16,
    h24] at h0 h1 h2 h3
  apply UInt32.toNat_inj.mp
  omega

/-- The bytes of a header determine it. -/
theorem WavHeader.bytes_inj {w w' : WavHeader} (h : w.bytes = w'.bytes) : w = w' := by
  unfold WavHeader.bytes at h
  obtain ⟨h, hdataSize⟩ := List.append_inj' h rfl
  obtain ⟨h, hdataId⟩ := List.append_inj' h rfl
  obtain ⟨h, hbits⟩ := List.append_inj' h rfl
  obtain ⟨h, halign⟩ := List.append_inj' h rfl
  obtain ⟨h, hbyterate⟩ := List.append_inj' h rfl
  obtain ⟨h, hsamplerate⟩ := List.append_inj' h rfl
  obtain ⟨h, hchannels⟩ := List.append_inj' h rfl
  obtain ⟨h, haudio⟩ := List.append_inj' h rfl
  obtain ⟨h, hfmtSize⟩ := List.append_inj' h rfl
  obtain ⟨h, hfmtId⟩ := List.append_inj' h rfl
  obtain ⟨h, hformat⟩ := List.append_inj' h rfl
  obtain ⟨hriffId, hriffSize⟩ := List.append_inj' h rfl
  cases w
  cases w'
  rw [WavHeader.mk.injEq]
  exact ⟨le32_inj hriffId, le32_inj hriffSize, le32_inj hformat, le32_inj hfmtId,
    le32_inj hfmtSize, le16_inj haudio, le16_inj hchannels, le32_inj hsamplerate,
    le32_inj hbyterate, le16_inj halign, le16_inj hbits, le32_inj hdataId, le32_inj hdataSize⟩

/-! ### The header that a close writes -/

/-- The bytes of a sample in the header: those of 24 bits are padded. -/
def sampleBytes (bits : ℤ) : ℤ := if bits = 16 then 2 else 4

section

variable {formatToBits : PcmFormat → ℕ}

/-- **`wav_head_init`** on a number of bits that it knows. -/
theorem wavHeadInit_fields
    (hformat : formatToBits .s16Le = 16 ∧ formatToBits .s24Le = 32 ∧ formatToBits .s32Le = 32)
    (w : WavHeader) (sampleRate channels : ℤ) {bits : ℤ}
    (hbits : bits = 16 ∨ bits = 24 ∨ bits = 32) :
    let head := wavHeadInit formatToBits w sampleRate bits channels
    (head.bitsPerSample.toNat : ℤ) = 8 * sampleBytes bits ∧
      head.blockAlign = toU16 (channels * sampleBytes bits) ∧
      head.byterate = toU32 (sampleBytes bits * channels * sampleRate) ∧
      head.samplerate = toU32 sampleRate := by
  obtain ⟨h16, h24, h32⟩ := hformat
  have hpcm : pcmFormat 16 = some .s16Le ∧ pcmFormat 24 = some .s24Le ∧
      pcmFormat 32 = some .s32Le := by decide
  have hu16 : (toU16 16).toNat = 16 := by decide
  have hu32 : (toU16 32).toNat = 32 := by decide
  rcases hbits with rfl | rfl | rfl
  · simp [wavHeadInit, hpcm.1, h16, hu16, sampleBytes]
  · simp [wavHeadInit, hpcm.2.1, h24, hu32, sampleBytes]
  · simp [wavHeadInit, hpcm.2.2, h32, hu32, sampleBytes]

/-- `block_align` holds the bytes of a frame exactly if they fit 16 bits. -/
theorem blockAlign_iff {channels size : ℤ} :
    ((toU16 (channels * size)).toNat * 8 : ℤ) = channels * (8 * size) ↔
      0 ≤ channels * size ∧ channels * size < 2 ^ 16 := by
  have hmod := toU16_toNat_emod (channels * size)
  have hlt := Int.emod_lt_of_pos (channels * size) (show (0 : ℤ) < 2 ^ 16 by decide)
  have hnonneg := Int.emod_nonneg (channels * size) (show (2 ^ 16 : ℤ) ≠ 0 by decide)
  have hassoc : channels * (8 * size) = channels * size * 8 := by ring
  rw [hassoc]
  constructor
  · intro h
    omega
  · rintro ⟨h0, h1⟩
    rw [hmod, Int.emod_eq_of_lt h0 h1]

/-- `byterate` then is the rate of the frames times their bytes. -/
theorem byterate_eq {channels size rate : ℤ} (h0 : 0 ≤ channels * size)
    (h1 : channels * size < 2 ^ 16) :
    (toU32 (size * channels * rate)).toNat =
      (toU32 rate).toNat * (toU16 (channels * size)).toNat % 2 ^ 32 := by
  have hrate := toU32_toNat_emod rate
  have hbyterate := toU32_toNat_emod (size * channels * rate)
  have halign : ((toU16 (channels * size)).toNat : ℤ) = channels * size := by
    rw [toU16_toNat_emod, Int.emod_eq_of_lt h0 h1]
  have hcomm : size * channels * rate = rate * (channels * size) := by ring
  apply Int.natCast_inj.mp
  rw [hbyterate, Int.natCast_mod, Int.natCast_mul, hrate, halign, hcomm]
  show _ = rate % 2 ^ 32 * (channels * size) % 2 ^ 32
  exact ((Int.mod_modEq rate (2 ^ 32)).mul_right _).symm

end

/-! ### The callbacks on an open file -/

section

variable {el : FatfsEl}

/-- Bytes written at the end of the file. -/
theorem FatfsEl.put_end (h : el.offset = some el.content.length) (bytes : List UInt8) :
    el.put bytes =
      { el with
        content := el.content ++ bytes, offset := some (el.content.length + bytes.length) } := by
  have hdrop : el.content.drop (el.content.length + bytes.length) = [] :=
    List.drop_eq_nil_of_le (by omega)
  rw [put, h]
  simp only [List.take_length, Nat.sub_self, List.replicate_zero, List.append_nil, hdrop]

/-- As many bytes written at the front. -/
theorem FatfsEl.put_front {header since bytes : List UInt8}
    (hcontent : el.content = header ++ since)
    (hlen : header.length = bytes.length) (hopen : el.offset ≠ none) :
    ((el.seek 0).put bytes).content = bytes ++ since := by
  obtain ⟨offset, hoffset⟩ := Option.ne_none_iff_exists'.mp hopen
  rw [put, seek, hoffset]
  simp only [Option.map_some, List.take_zero, Nat.zero_sub, List.replicate_zero, List.nil_append,
    Nat.zero_add, hcontent]
  rw [← hlen, List.drop_left]

/-- **`_fatfs_open`** of a writer of a WAV file: the file is a header of zeros. -/
theorem FatfsEl.fatfsOpen_wav (htype : el.type = .writer) (hclosed : el.isOpen = false)
    (hheader : el.writeHeader = true) {path : List UInt8} (hpath : el.path = some path)
    (hwav : getType path = .wav) :
    (el.fatfsOpen true 0 true).2 =
      { el with
        isOpen := true, wType := .wav, content := WavHeader.zero.bytes, offset := some 44,
        info := el.info.setTotalBytes el.info.totalBytes } := by
  obtain ⟨type, isOpen, wType, writeHeader, uri, info, paused, content, offset⟩ := el
  dsimp only at htype hclosed hheader hpath
  subst htype hclosed hheader hpath
  have hoffset :
      (⟨.writer, false, .wav, true, some path, info, paused, [], some 0⟩ : FatfsEl).offset =
        some ([] : List UInt8).length := rfl
  have hput := put_end hoffset WavHeader.zero.bytes
  simp only [fatfsOpen, hwav, and_self, if_true, hput]
  rfl

/-- **`_fatfs_write`** at the end of the file. -/
theorem FatfsEl.fatfsWrite_end (h : el.offset = some el.content.length) (buffer : List UInt8)
    (accepted : Option ℕ) :
    ∃ bytes, buffer.take (el.fatfsWrite buffer accepted).1.toNat = bytes ∧
      bytes.length ≤ buffer.length ∧
      (el.fatfsWrite buffer accepted).2 =
        { el with
          content := el.content ++ bytes
          offset := some (el.content ++ bytes).length
          info := if 0 < bytes.length then el.info.updateBytePos bytes.length else el.info } := by
  cases accepted with
  | none =>
    have hnone : el.fatfsWrite buffer none = (-1, el) := by
      unfold fatfsWrite
      rw [h]
    refine ⟨[], ?_, Nat.zero_le _, ?_⟩
    · rw [hnone]
      rfl
    · rw [hnone, List.append_nil, ← h]
      rfl
  | some n =>
    have hsome : el.fatfsWrite buffer (some n) =
        (((buffer.take n).length : ℤ),
          if 0 < (buffer.take n).length then
            { el.put (buffer.take n) with
              info := (el.put (buffer.take n)).info.updateBytePos (buffer.take n).length }
          else el.put (buffer.take n)) := by
      unfold fatfsWrite
      rw [h]
    refine ⟨buffer.take n, ?_, List.length_take_le' _ _, ?_⟩
    · rw [hsome, Int.toNat_natCast, List.length_take, ← List.take_eq_take_min]
    · rw [hsome, put_end h, List.length_append]
      split_ifs <;> rfl

/-- **`_fatfs_close`** of a WAV file. -/
theorem FatfsEl.fatfsClose_wav (formatToBits : PcmFormat → ℕ) (el : FatfsEl)
    (wavInfo : WavHeader) (htype : el.type = .writer)
    (hheader : el.writeHeader = true) (hwav : el.wType = .wav) (hopen : el.isOpen = true)
    (hoffset : el.offset ≠ none) {header since : List UInt8}
    (hcontent : el.content = header ++ since) (hlen : header.length = 44) :
    let w := wavHeadSize (wavHeadInit formatToBits wavInfo el.info.sampleRates el.info.bits
      el.info.channels) (toU32 el.info.bytePos)
    (fatfsClose formatToBits wavInfo el).2 =
      { el with
        content := w.bytes ++ since, isOpen := false, offset := none,
        info := if el.paused then el.info else el.info.setBytePos 0 } := by
  intro w
  have hput : ((el.seek 0).put w.bytes).content = w.bytes ++ since :=
    put_front hcontent (hlen.trans w.length_bytes.symm) hoffset
  obtain ⟨offset, hsome⟩ := Option.ne_none_iff_exists'.mp hoffset
  have hframe : (el.seek 0).put w.bytes =
      { el with content := w.bytes ++ since, offset := some (0 + w.bytes.length) } := by
    rw [← hput]
    unfold put seek
    rw [hsome]
    rfl
  have hpatch : (if el.type = .writer ∧ el.writeHeader ∧ el.wType = .wav then
      (el.seek 0).put w.bytes else el) =
      { el with content := w.bytes ++ since, offset := some (0 + w.bytes.length) } := by
    rw [if_pos ⟨htype, hheader, hwav⟩, hframe]
  unfold fatfsClose
  dsimp only
  rw [hpatch]
  dsimp only
  rw [if_pos hopen]
  cases el.paused <;> rfl

end

/-! ### The invariant -/

theorem toInt64_zero : toInt64 0 = 0 := by decide

theorem toInt64_add (a n : ℤ) : toInt64 (toInt64 a + n) = toInt64 (a + n) := Int.bmod_add_bmod

theorem toCInt_length {n : ℕ} (h : (n : ℤ) ≤ INT_MAX) : toCInt n = n := by
  have hmax : INT_MAX = 2 ^ 31 - 1 := by decide
  refine Int.bmod_eq_of_le_mul_two ?_ ?_ <;> omega

namespace Recorder

variable {formatToBits : PcmFormat → ℕ} {r₀ r r' : Recorder}

theorem Starts.inv (h : r₀.Starts) : Inv r₀ r₀ where
  static := ⟨h.type, h.header, h.path, rfl, rfl, rfl⟩
  bytePos := by rw [h.bytePos, h.ended, if_pos rfl]
  opened := fun hopen => absurd hopen (by rw [h.closed]; exact Bool.false_ne_true)

/-- The payload of the recording at an open. -/
def payload (r : Recorder) : List UInt8 := if r.ended then [] else r.accepted

/-- An open starts the file again, but not the recording. -/
theorem Inv.open (h : Inv r₀ r) (hs : r.step formatToBits .open = some r') :
    Inv r₀ r' ∧ r'.before = r'.accepted := by
  obtain ⟨path, hpath, hwav⟩ := h.static.path
  cases hopen : r.el.isOpen with
  | true =>
    rw [step, if_pos hopen] at hs
    exact nomatch hs
  | false =>
    rw [step, if_neg (by rw [hopen]; exact Bool.false_ne_true)] at hs
    have hel := FatfsEl.fatfsOpen_wav h.static.type hopen h.static.header hpath hwav
    obtain rfl : r' =
        ⟨{ r.el with
          isOpen := true, wType := .wav, content := WavHeader.zero.bytes, offset := some 44,
          info := r.el.info.setTotalBytes r.el.info.totalBytes }, r.payload, r.payload, false⟩ := by
      rw [← hel]
      exact (Option.some.inj hs).symm
    have hstart : ∃ header since, WavHeader.zero.bytes = header ++ since ∧ header.length = 44 ∧
        r.payload = r.payload ++ since :=
      ⟨WavHeader.zero.bytes, [], (List.append_nil _).symm, WavHeader.zero.length_bytes,
        (List.append_nil _).symm⟩
    have hoffset : some 44 = some WavHeader.zero.bytes.length := by
      rw [WavHeader.zero.length_bytes]
    have hpos : r.el.info.bytePos = toInt64 r.payload.length := by
      rw [h.bytePos, payload]
      split_ifs
      · exact toInt64_zero.symm
      · rfl
    refine ⟨⟨⟨h.static.type, h.static.header, h.static.path, h.static.sampleRates, h.static.bits,
      h.static.channels⟩, ?_, fun _ => ⟨rfl, rfl, hstart, hoffset⟩⟩, rfl⟩
    rw [if_neg Bool.false_ne_true]
    exact hpos

/-- A write puts the same bytes behind the file and behind the recording. -/
theorem Inv.write {buffer : List UInt8} {accepted : Option ℕ} (h : Inv r₀ r)
    (hs : r.step formatToBits (.write buffer accepted) = some r') :
    Inv r₀ r' ∧ r'.before = r.before := by
  rw [step] at hs
  split_ifs at hs with hcond
  obtain ⟨hopen, hlen⟩ := hcond
  have hfile := h.opened hopen
  obtain ⟨header, since, hcontent, hheader, haccepted⟩ := hfile.content
  obtain ⟨bytes, htake, hle, hel⟩ := FatfsEl.fatfsWrite_end hfile.offset buffer accepted
  have hcount : (bytes.length : ℤ) ≤ INT_MAX := by omega
  have hold := h.bytePos
  rw [hfile.ended, if_neg Bool.false_ne_true] at hold
  -- the element after the write, with the information in one piece
  obtain ⟨info, hinfo⟩ : ∃ info, info =
    if 0 < bytes.length then r.el.info.updateBytePos bytes.length else r.el.info := ⟨_, rfl⟩
  have hpos : info.bytePos = toInt64 (r.accepted ++ bytes).length := by
    rw [List.length_append, Nat.cast_add, hinfo]
    split_ifs with hbytes
    · show toInt64 (r.el.info.bytePos + toCInt bytes.length) = _
      rw [hold, toCInt_length hcount, toInt64_add]
    · rw [hold, Nat.eq_zero_of_not_pos hbytes, Nat.cast_zero, add_zero]
  have hmusic : info.sampleRates = r.el.info.sampleRates ∧ info.bits = r.el.info.bits ∧
      info.channels = r.el.info.channels := by
    rw [hinfo]
    split_ifs <;> exact ⟨rfl, rfl, rfl⟩
  rw [← hinfo] at hel
  obtain rfl : r' =
      { r with
        el := { r.el with
          content := r.el.content ++ bytes
          offset := some (r.el.content ++ bytes).length
          info := info }
        accepted := r.accepted ++ bytes } := by
    rw [← hel, ← htake]
    exact (Option.some.inj hs).symm
  have hstatic := h.static
  refine ⟨⟨⟨hstatic.type, hstatic.header, hstatic.path, hmusic.1.trans hstatic.sampleRates,
    hmusic.2.1.trans hstatic.bits, hmusic.2.2.trans hstatic.channels⟩, ?_, fun _ =>
    ⟨hfile.wType, hfile.ended, ⟨header, since ++ bytes, ?_, hheader, ?_⟩, rfl⟩⟩, rfl⟩
  · dsimp only
    rw [hfile.ended, if_neg Bool.false_ne_true]
    exact hpos
  · show r.el.content ++ bytes = _
    rw [hcontent, List.append_assoc]
  · show r.accepted ++ bytes = _
    rw [haccepted, List.append_assoc]

/-- The header that a close writes. -/
def closing (formatToBits : PcmFormat → ℕ) (wavInfo : WavHeader) (r : Recorder) : WavHeader :=
  wavHeadSize (wavHeadInit formatToBits wavInfo r.el.info.sampleRates r.el.info.bits
    r.el.info.channels) (toU32 r.el.info.bytePos)

/-- A close writes the header over the first 44 bytes. -/
theorem Inv.close {paused : Bool} {wavInfo : WavHeader} (h : Inv r₀ r)
    (hs : r.step formatToBits (.close paused wavInfo) = some r') :
    Inv r₀ r' ∧ r'.before = r.before ∧ r'.accepted = r.accepted ∧ r.ended = false ∧
      ∃ since, r.accepted = r.before ++ since ∧
        r'.el.content = (closing formatToBits wavInfo r).bytes ++ since := by
  rw [step] at hs
  split_ifs at hs with hopen
  have hfile := h.opened hopen
  have hstatic := h.static
  obtain ⟨header, since, hcontent, hheader, haccepted⟩ := hfile.content
  have hoffset : r.el.offset ≠ none := by
    rw [hfile.offset]
    exact Option.some_ne_none _
  have hel := FatfsEl.fatfsClose_wav formatToBits { r.el with paused := paused } wavInfo
    hstatic.type hstatic.header hfile.wType hopen hoffset
    hcontent hheader
  have hbytePos := h.bytePos
  rw [hfile.ended, if_neg Bool.false_ne_true] at hbytePos
  -- the element after the close, with the information in one piece
  obtain ⟨info, hinfo⟩ : ∃ info, info = if paused then r.el.info else r.el.info.setBytePos 0 :=
    ⟨_, rfl⟩
  have hpos : info.bytePos = if !paused then 0 else toInt64 r.accepted.length := by
    rw [hinfo]
    cases paused with
    | true =>
      rw [if_pos rfl, Bool.not_true, if_neg Bool.false_ne_true]
      exact hbytePos
    | false =>
      rw [if_neg Bool.false_ne_true, Bool.not_false, if_pos rfl]
      show toCInt 0 = 0
      decide
  have hmusic : info.sampleRates = r.el.info.sampleRates ∧ info.bits = r.el.info.bits ∧
      info.channels = r.el.info.channels := by
    rw [hinfo]
    split_ifs <;> exact ⟨rfl, rfl, rfl⟩
  obtain rfl : r' =
      { r with
        el := { r.el with
          content := (closing formatToBits wavInfo r).bytes ++ since
          isOpen := false
          offset := none
          paused := paused
          info := info }
        ended := !paused } := by
    rw [← Option.some.inj hs, hel, hinfo]
    rfl
  exact ⟨⟨⟨hstatic.type, hstatic.header, hstatic.path, hmusic.1.trans hstatic.sampleRates,
    hmusic.2.1.trans hstatic.bits, hmusic.2.2.trans hstatic.channels⟩, hpos,
    fun hopen' => absurd hopen' Bool.false_ne_true⟩, rfl, rfl, hfile.ended, since, haccepted, rfl⟩

/-- **A run** keeps the invariant. -/
theorem Reach.inv {P : Recorder → RecorderEvent → Prop} (hstart : r₀.Starts)
    (hr : Lts.Reach (step formatToBits) P r₀ r) : Inv r₀ r := by
  refine hr.invariant (I := Inv r₀) hstart.inv ?_
  intro r event r' h _ hs
  cases event with
  | «open» => exact (h.open hs).1
  | write buffer accepted => exact (h.write hs).1
  | close paused wavInfo => exact (h.close hs).1

/-- The sizes in the header of a close are those of the recording. -/
theorem closing_sizes (formatToBits : PcmFormat → ℕ) (wavInfo : WavHeader)
    (h : r.el.info.bytePos = toInt64 r.accepted.length)
    (hsize : r.accepted.length < 2 ^ 32 - 36) :
    (closing formatToBits wavInfo r).dataSize.toNat = r.accepted.length ∧
      (closing formatToBits wavInfo r).riffSize.toNat = r.accepted.length + 36 := by
  have hcount : toInt64 r.accepted.length = r.accepted.length := by
    refine Int.bmod_eq_of_le_mul_two ?_ ?_ <;> omega
  have hdata : (closing formatToBits wavInfo r).dataSize.toNat = r.accepted.length := by
    have hmod := toU32_toNat_emod r.el.info.bytePos
    rw [h, hcount] at hmod
    show (toU32 r.el.info.bytePos).toNat = _
    rw [h, hcount]
    omega
  refine ⟨hdata, ?_⟩
  have hmod := toU32_toNat_emod ((closing formatToBits wavInfo r).dataSize.toNat + 44 - 8)
  show (toU32 ((closing formatToBits wavInfo r).dataSize.toNat + 44 - 8)).toNat = _
  rw [hdata] at hmod ⊢
  omega

end Recorder

/-- **A recorded WAV file** is consistent after a close exactly if no payload of the recording was
accepted before the last open, and the bytes of a frame fit `block_align`. -/
theorem wav_recording_iff {formatToBits : PcmFormat → ℕ}
    (hformat : formatToBits .s16Le = 16 ∧ formatToBits .s24Le = 32 ∧ formatToBits .s32Le = 32)
    {r₀ r r' : Recorder} {paused : Bool} {wavInfo : WavHeader} (hstart : r₀.Starts)
    (hr : Lts.Reach (Recorder.step formatToBits) (fun _ _ => True) r₀ r)
    (hs : r.step formatToBits (.close paused wavInfo) = some r')
    (hsize : r'.accepted.length < 2 ^ 32 - 36) :
    r'.Consistent ↔ r'.before = [] ∧
      0 ≤ r₀.el.info.channels * sampleBytes r₀.el.info.bits ∧
      r₀.el.info.channels * sampleBytes r₀.el.info.bits < 2 ^ 16 := by
  have hinv := Recorder.Reach.inv hstart hr
  obtain ⟨hinv', hbefore, hsame, hended, since, haccepted, hcontent⟩ := hinv.close hs
  rw [hsame] at hsize
  have hpos := hinv.bytePos
  rw [hended, if_neg Bool.false_ne_true] at hpos
  obtain ⟨hdata, hriff⟩ := Recorder.closing_sizes formatToBits wavInfo hpos hsize
  obtain ⟨hbits, halign, hbyterate, hsamplerate⟩ := wavHeadInit_fields hformat wavInfo
    r.el.info.sampleRates r.el.info.channels (hinv.static.bits ▸ hstart.bits)
  -- `wav_head_size` leaves these fields alone
  change ((r.closing formatToBits wavInfo).bitsPerSample.toNat : ℤ) = _ at hbits
  change (r.closing formatToBits wavInfo).blockAlign = _ at halign
  change (r.closing formatToBits wavInfo).byterate = _ at hbyterate
  change (r.closing formatToBits wavInfo).samplerate = _ at hsamplerate
  have hlen : (r.closing formatToBits wavInfo).bytes.length = 44 := WavHeader.length_bytes _
  rw [← hinv.static.channels, ← hinv.static.bits, hbefore]
  have hchannels : r'.el.info.channels = r.el.info.channels :=
    hinv'.static.channels.trans hinv.static.channels.symm
  constructor
  · rintro ⟨w, hfile, -, -, hblock, -⟩
    rw [hcontent, hsame, haccepted] at hfile
    have hlengths := congrArg List.length hfile
    rw [List.length_append, List.length_append, List.length_append, hlen, w.length_bytes] at hlengths
    have hnil : r.before = [] := List.eq_nil_of_length_eq_zero (by omega)
    rw [hnil, List.nil_append] at hfile
    obtain rfl := WavHeader.bytes_inj (List.append_cancel_right hfile)
    rw [halign, hbits, hchannels] at hblock
    exact ⟨hnil, blockAlign_iff.mp hblock⟩
  · rintro ⟨hnil, hfit⟩
    rw [hnil, List.nil_append] at haccepted
    refine ⟨r.closing formatToBits wavInfo, ?_, ?_, ?_, ?_, ?_⟩
    · rw [hcontent, hsame, haccepted]
    · rw [hsame, hdata]
    · rw [hcontent, hriff, List.length_append, hlen, haccepted]
      omega
    · rw [halign, hbits, hchannels]
      exact blockAlign_iff.mpr hfit
    · rw [halign, hbyterate, hsamplerate]
      exact byterate_eq hfit.1 hfit.2

/-- `pcm_format_to_bits` of these formats. -/
def paddedBits : PcmFormat → ℕ
  | .s16Le => 16
  | .s24Le => 32
  | .s32Le => 32

/-- A writer of `a.wav` with two channels of 16 bits. -/
def Recorder.stereo : Recorder where
  el :=
    { type := .writer, isOpen := false, wType := .unknow, writeHeader := true,
      path := some [0x61, 0x2E, 0x77, 0x61, 0x76], info := .default, paused := false,
      content := [], offset := none }
  accepted := []
  before := []
  ended := true

theorem Recorder.starts_stereo : stereo.Starts where
  type := rfl
  closed := rfl
  header := rfl
  path := ⟨_, rfl, by decide⟩
  bytePos := rfl
  ended := rfl
  bits := Or.inl rfl

/-- A recording of 4 bytes without a pause. -/
theorem wav_recording_four : ∃ r r' : Recorder,
    Lts.Reach (Recorder.step paddedBits) (fun _ _ => True) .stereo r ∧
      r.step paddedBits (.close false .zero) = some r' ∧ r'.Consistent := by
  obtain ⟨r, hr⟩ : ∃ r, Lts.run (Recorder.step paddedBits) (fun _ _ => True) .stereo
      [.open, .write [1, 2, 3, 4] (some 4)] = some r := ⟨_, rfl⟩
  have hreach := Lts.Reach.of_run _ Lts.Reach.refl hr
  obtain rfl := Option.some.inj hr
  refine ⟨_, _, hreach, rfl, ?_⟩
  exact (wav_recording_iff ⟨rfl, rfl, rfl⟩ Recorder.starts_stereo hreach rfl (by decide)).mpr
    ⟨rfl, by decide, by decide⟩

/-- A recording of one byte, a pause, and another byte. -/
theorem wav_recording_paused :
    ¬∀ (r₀ r r' : Recorder) (paused : Bool) (wavInfo : WavHeader), r₀.Starts →
      Lts.Reach (Recorder.step paddedBits) (fun _ _ => True) r₀ r →
      r.step paddedBits (.close paused wavInfo) = some r' →
      r'.accepted.length < 2 ^ 32 - 36 → r'.Consistent := by
  intro h
  obtain ⟨r, hr⟩ : ∃ r, Lts.run (Recorder.step paddedBits) (fun _ _ => True) .stereo
      [.open, .write [1] (some 1), .close true .zero, .open, .write [2] (some 1)] = some r :=
    ⟨_, rfl⟩
  have hreach := Lts.Reach.of_run _ Lts.Reach.refl hr
  obtain rfl := Option.some.inj hr
  obtain ⟨w, hfile, -⟩ := h _ _ _ false .zero Recorder.starts_stereo hreach rfl (by decide)
  have hlengths := congrArg List.length hfile
  rw [List.length_append, w.length_bytes] at hlengths
  exact absurd hlengths (by decide)

end AudioPipeline
