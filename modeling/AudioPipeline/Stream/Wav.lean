import Mathlib.Algebra.Order.Ring.Int

/-!
# WAV headers (`wav_head.c`)

`wav_header_t` is packed: its fields stand behind one another in the file, low byte first.
-/

namespace AudioPipeline

/-! ### Conversions -/

/-- An integer as an `int`. -/
def toCInt (n : ℤ) : ℤ := n.bmod (2 ^ 32)

/-- An integer as an `int64_t`. -/
def toInt64 (n : ℤ) : ℤ := n.bmod (2 ^ 64)

/-- An integer as a `uint16_t`. -/
def toU16 (n : ℤ) : UInt16 := UInt16.ofNat (n % 2 ^ 16).toNat

/-- An integer as a `uint32_t`. -/
def toU32 (n : ℤ) : UInt32 := UInt32.ofNat (n % 2 ^ 32).toNat

/-- The bytes of a `uint16_t`. -/
def le16 (n : UInt16) : List UInt8 := [n.toUInt8, (n >>> 8).toUInt8]

/-- The bytes of a `uint32_t`. -/
def le32 (n : UInt32) : List UInt8 :=
  [n.toUInt8, (n >>> 8).toUInt8, (n >>> 16).toUInt8, (n >>> 24).toUInt8]

/-! ### The header -/

/-- `wav_header_t`: the fields of `riff`, `fmt` and `data`. -/
structure WavHeader where
  riffId : UInt32
  riffSize : UInt32
  riffFormat : UInt32
  fmtId : UInt32
  fmtSize : UInt32
  audioFormat : UInt16
  numOfChannels : UInt16
  samplerate : UInt32
  byterate : UInt32
  blockAlign : UInt16
  bitsPerSample : UInt16
  dataId : UInt32
  dataSize : UInt32
  deriving DecidableEq

namespace WavHeader

/-- `{0}`. -/
def zero : WavHeader := ⟨0, 0, 0, 0, 0, 0, 0, 0, 0, 0, 0, 0, 0⟩

/-- The bytes of the header in memory. -/
def bytes (w : WavHeader) : List UInt8 :=
  le32 w.riffId ++ le32 w.riffSize ++ le32 w.riffFormat ++ le32 w.fmtId ++ le32 w.fmtSize ++
    le16 w.audioFormat ++ le16 w.numOfChannels ++ le32 w.samplerate ++ le32 w.byterate ++
    le16 w.blockAlign ++ le16 w.bitsPerSample ++ le32 w.dataId ++ le32 w.dataSize

/-- `sizeof(wav_header_t)`. -/
theorem length_bytes (w : WavHeader) : w.bytes.length = 44 := by
  simp only [bytes, le16, le32, List.length_append, List.length_cons, List.length_nil]

end WavHeader

/-- The formats that `wav_head_init` chooses from. -/
inductive PcmFormat
  | s16Le
  | s24Le
  | s32Le
  deriving DecidableEq

/-- The format for a number of bits. -/
def pcmFormat (bits : ℤ) : Option PcmFormat :=
  if bits = 32 then some .s32Le
  else if bits = 24 then some .s24Le
  else if bits = 16 then some .s16Le
  else none

/-- `wav_head_init`; `formatToBits` is `pcm_format_to_bits`.  For a number of bits that it does not
know, it leaves the rest of the header as it is. -/
def wavHeadInit (formatToBits : PcmFormat → ℕ) (wavhead : WavHeader)
    (sampleRate bits channels : ℤ) : WavHeader :=
  let wavhead :=
    { wavhead with
      riffId := 0x46464952
      riffSize := 0
      riffFormat := 0x45564157
      fmtId := 0x20746D66
      fmtSize := 16
      audioFormat := 0x0001
      numOfChannels := toU16 channels
      samplerate := toU32 sampleRate }
  match pcmFormat bits with
  | none => wavhead
  | some format =>
    let bitsPerSample := toU16 (formatToBits format)
    let sampleBytes : ℤ := bitsPerSample.toNat / 8
    { wavhead with
      bitsPerSample := bitsPerSample
      byterate := toU32 (sampleBytes * channels * sampleRate)
      blockAlign := toU16 (channels * sampleBytes)
      dataId := 0x61746164
      dataSize := 0 }

/-- `wav_head_size`. -/
def wavHeadSize (wavhead : WavHeader) (dataSize : UInt32) : WavHeader :=
  { wavhead with
    dataSize := dataSize
    riffSize := toU32 (dataSize.toNat + 44 - 8) }

end AudioPipeline
