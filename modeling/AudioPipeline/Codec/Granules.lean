import AudioPipeline.Codec.Huffman
import AudioPipeline.Codec.MainData
import AudioPipeline.Codec.Scalefact

/-!
# Granules (`huffman.c`, `mp3dec.c`)

`DecodeHuffman` decodes the Huffman codes of a granule of a channel, and the loop of `MP3Decode` the
scale factors and the codes of all granules and channels.  What `Dequantize`, `IMDCT` and `Subband`
make of them, and keep for the next granule, is a parameter (`Synth`).

`none` is what it is in `MainData`, or an access behind the end of a buffer or of a table.
-/

namespace AudioPipeline

abbrev MAX_NSAMP : ℕ := 576

abbrev ERR_MP3_INVALID_SCALEFACT : ℤ := -8
abbrev ERR_MP3_INVALID_HUFFCODES : ℤ := -9

/-! ### Bands (`mp3tabs.c`) -/

/-- `SFBandTable`: where the long bands start, and the short ones. -/
structure SFBandTable where
  l : List ℕ
  s : List ℕ
  deriving DecidableEq, Repr

/-- `sfBandTable`, for each sample rate. -/
def MPEGVersion.sfBandTable : MPEGVersion → List SFBandTable
  | mpeg1 =>
    [{ l := [0, 4, 8, 12, 16, 20, 24, 30, 36, 44, 52, 62, 74, 90, 110, 134, 162, 196, 238, 288, 342,
          418, 576]
       s := [0, 4, 8, 12, 16, 22, 30, 40, 52, 66, 84, 106, 136, 192] },
      { l := [0, 4, 8, 12, 16, 20, 24, 30, 36, 42, 50, 60, 72, 88, 106, 128, 156, 190, 230, 276,
          330, 384, 576]
        s := [0, 4, 8, 12, 16, 22, 28, 38, 50, 64, 80, 100, 126, 192] },
      { l := [0, 4, 8, 12, 16, 20, 24, 30, 36, 44, 54, 66, 82, 102, 126, 156, 194, 240, 296, 364,
          448, 550, 576]
        s := [0, 4, 8, 12, 16, 22, 30, 42, 58, 78, 104, 138, 180, 192] }]
  | mpeg2 =>
    [{ l := [0, 6, 12, 18, 24, 30, 36, 44, 54, 66, 80, 96, 116, 140, 168, 200, 238, 284, 336, 396,
          464, 522, 576]
       s := [0, 4, 8, 12, 18, 24, 32, 42, 56, 74, 100, 132, 174, 192] },
      { l := [0, 6, 12, 18, 24, 30, 36, 44, 54, 66, 80, 96, 114, 136, 162, 194, 232, 278, 332, 394,
          464, 540, 576]
        s := [0, 4, 8, 12, 18, 26, 36, 48, 62, 80, 104, 136, 180, 192] },
      { l := [0, 6, 12, 18, 24, 30, 36, 44, 54, 66, 80, 96, 116, 140, 168, 200, 238, 284, 336, 396,
          464, 522, 576]
        s := [0, 4, 8, 12, 18, 26, 36, 48, 62, 80, 104, 134, 174, 192] }]
  | mpeg25 =>
    [{ l := [0, 6, 12, 18, 24, 30, 36, 44, 54, 66, 80, 96, 116, 140, 168, 200, 238, 284, 336, 396,
          464, 522, 576]
       s := [0, 4, 8, 12, 18, 26, 36, 48, 62, 80, 104, 134, 174, 192] },
      { l := [0, 6, 12, 18, 24, 30, 36, 44, 54, 66, 80, 96, 116, 140, 168, 200, 238, 284, 336, 396,
          464, 522, 576]
        s := [0, 4, 8, 12, 18, 26, 36, 48, 62, 80, 104, 134, 174, 192] },
      { l := [0, 12, 24, 36, 48, 60, 72, 88, 108, 132, 160, 192, 232, 280, 336, 400, 476, 566, 568,
          570, 572, 574, 576]
        s := [0, 8, 16, 24, 36, 52, 72, 96, 124, 160, 162, 164, 166, 192] }]

namespace FrameHeader

/-- `fh->sfBand`. -/
def sfBand (fh : FrameHeader) : SFBandTable :=
  fh.ver.sfBandTable.getD fh.srIdx { l := [], s := [] }

/-- `fh->modeExt`, as `UnpackFrameHeader` reads it: 0 unless the frame is in joint stereo. -/
def modeExt (buf : List UInt8) : ℕ :=
  if (buf.getD 3 0 >>> 6) &&& 0x03 = 0x01 then ((buf.getD 3 0 >>> 4) &&& 0x03).toNat else 0

end FrameHeader

/-! ### `DecodeHuffman` -/

/-- `huffDecBuf[ch]` and `nonZeroBound[ch]` of `HuffmanInfo`. -/
structure HuffmanInfo where
  huffDecBuf : List ℕ
  nonZeroBound : ℕ
  length_eq : huffDecBuf.length = MAX_NSAMP

namespace HuffmanInfo

/-- What `AllocateBuffers` leaves. -/
def zero : HuffmanInfo where
  huffDecBuf := List.replicate MAX_NSAMP 0
  nonZeroBound := 0
  length_eq := List.length_replicate

theorem length_write {buf vals : List ℕ} (h : buf.length = MAX_NSAMP) {i : ℕ}
    (hi : i + vals.length ≤ MAX_NSAMP) :
    (buf.take i ++ vals ++ buf.drop (i + vals.length)).length = MAX_NSAMP := by
  simp only [List.length_append, List.length_take, List.length_drop]
  omega

/-- The values `vals` from `huffDecBuf[i]` on. -/
def write (hi : HuffmanInfo) (i : ℕ) (vals : List ℕ) : Except HuffError HuffmanInfo :=
  if h : i + vals.length ≤ MAX_NSAMP then
    .ok
      { hi with
        huffDecBuf := hi.huffDecBuf.take i ++ vals ++ hi.huffDecBuf.drop (i + vals.length)
        length_eq := length_write hi.length_eq h }
  else .error .outOfBounds

end HuffmanInfo

/-- `r1Start` and `r2Start`. -/
def regionStarts (fh : FrameHeader) (sis : SideInfoSub) : Except HuffError (ℕ × ℕ) :=
  if sis.winSwitchFlag ≠ 0 ∧ sis.blockType = 2 then
    if sis.mixedBlock = 0 then
      (tabEntry fh.sfBand.s ((sis.region0Count + 1) / 3)).map fun r => (r * 3, MAX_NSAMP)
    else if fh.ver = .mpeg1 then
      (tabEntry fh.sfBand.l (sis.region0Count + 1)).map fun r => (r, MAX_NSAMP)
    else
      (tabEntry fh.sfBand.s 4).bind fun s₄ => (tabEntry fh.sfBand.s 3).bind fun s₃ =>
        (tabEntry fh.sfBand.l 6).map fun r => (r + 2 * (s₄ - s₃), MAX_NSAMP)
  else
    (tabEntry fh.sfBand.l (sis.region0Count + 1)).bind fun r₁ =>
      (tabEntry fh.sfBand.l (sis.region0Count + 1 + sis.region1Count + 1)).map fun r₂ => (r₁, r₂)

/-- `rEnd[1]`, `rEnd[2]` and `rEnd[3]`. -/
def regionEnds (fh : FrameHeader) (sis : SideInfoSub) : Except HuffError (ℕ × ℕ × ℕ) :=
  (regionStarts fh sis).map fun r =>
    let rEnd := min MAX_NSAMP (2 * sis.nBigvals)
    (min r.1 rEnd, min r.2 rEnd, rEnd)

/-- The variables of `DecodeHuffman`: `ptr` is `buf - startBuf`. -/
structure HuffmanPos where
  ptr : ℕ
  bitOffset : ℕ
  bitsLeft : ℤ
  hi : HuffmanInfo

namespace HuffmanPos

/-- `bits` more bits. -/
def skip (p : HuffmanPos) (bits : ℤ) : HuffmanPos :=
  { p with
    ptr := p.ptr + ((bits + p.bitOffset) / 8).toNat
    bitOffset := ((bits + p.bitOffset) % 8).toNat
    bitsLeft := p.bitsLeft - bits }

/-- The pairs of a region. -/
def region (buf : List UInt8) (tabIdx lo hi : ℕ) (p : HuffmanPos) : Except HuffError HuffmanPos :=
  (decodeHuffmanPairs ((hi : ℤ) - lo) tabIdx p.bitsLeft (buf.drop p.ptr) p.bitOffset).bind fun r =>
    if r.1 < 0 ∨ p.bitsLeft < r.1 then .error .outOfBits
    else (p.hi.write lo r.2).map fun hi => { p with hi := hi }.skip r.1

/-- The quads behind the pairs, and the zeros behind the quads. -/
def quads (buf : List UInt8) (tabIdx rEnd : ℕ) (p : HuffmanPos) : Except HuffError HuffmanPos :=
  (decodeHuffmanQuads (MAX_NSAMP - rEnd) tabIdx p.bitsLeft (buf.drop p.ptr) p.bitOffset).bind
    fun vals =>
      (p.hi.write rEnd vals).bind fun hi =>
        let nonZeroBound := rEnd + vals.length
        if MAX_NSAMP < nonZeroBound then .error .assertion
        else
          (hi.write nonZeroBound (List.replicate (MAX_NSAMP - nonZeroBound) 0)).map fun hi =>
            { p with hi := { hi with nonZeroBound := nonZeroBound } }

end HuffmanPos

/-- `DecodeHuffman`: the position behind the codes, with what has been decoded. -/
def decodeHuffman (fh : FrameHeader) (sis : SideInfoSub) (hi : HuffmanInfo) (buf : List UInt8)
    (bitOffset : ℕ) (huffBlockBits : ℤ) : Except HuffError HuffmanPos :=
  if huffBlockBits < 0 then .error .outOfBits
  else
    (regionEnds fh sis).bind fun rEnd =>
      let p : HuffmanPos :=
        { ptr := 0, bitOffset := bitOffset, bitsLeft := huffBlockBits, hi := hi }
      (p.region buf sis.tableSelect.1 0 rEnd.1).bind fun p =>
        (p.region buf sis.tableSelect.2.1 rEnd.1 rEnd.2.1).bind fun p =>
          (p.region buf sis.tableSelect.2.2 rEnd.2.1 rEnd.2.2).bind fun p =>
            (p.quads buf sis.count1TableSelect rEnd.2.2).map fun p => p.skip p.bitsLeft

/-! ### The granules -/

/-- `Dequantize`, `IMDCT` and `Subband`, for all channels of a granule: what they keep, what they
leave in `HuffmanInfo`, and the samples. -/
abbrev Synth (S : Type) : Type :=
  FrameHeader → ℕ → ℕ → SideInfo → ScaleFactorInfo → (ℕ → HuffmanInfo) → S →
    S × (ℕ → HuffmanInfo) × List UInt16

/-- The variables of `MP3Decode`, and what it keeps for the next frame: `mainPtr` is the memory from
`mainPtr` on. -/
structure GranuleState (S : Type) where
  mainPtr : List UInt8
  bitOffset : ℕ
  mainBits : ℤ
  si : SideInfo
  sfi : ScaleFactorInfo
  hi : ℕ → HuffmanInfo
  synth : S
  outbuf : List UInt16

namespace GranuleState

variable {S : Type}

/-- The Huffman codes of a granule of a channel, which have `huffBlockBits` bits. -/
def codes (fh : FrameHeader) (gr ch : ℕ) (huffBlockBits : ℤ) (g : GranuleState S) :
    Option (ℤ × GranuleState S) :=
  match decodeHuffman fh (g.si.sis gr ch) (g.hi ch) g.mainPtr g.bitOffset huffBlockBits with
  | .ok p =>
    some (ERR_MP3_NONE,
      { g with
        mainPtr := g.mainPtr.drop p.ptr
        bitOffset := p.bitOffset
        mainBits := g.mainBits - (8 * p.ptr - g.bitOffset + p.bitOffset)
        hi := Function.update g.hi ch p.hi })
  | .error .outOfBits => some (ERR_MP3_INVALID_HUFFCODES, g)
  | .error _ => none

/-- The scale factors of a granule of a channel: `sfBlockBits`, and what is behind them. -/
def scaleFactors (fh : FrameHeader) (modeExt gr ch : ℕ) (g : GranuleState S) :
    ℤ × GranuleState S :=
  let r := unpackScaleFactors fh.ver modeExt g.si g.sfi g.mainPtr g.bitOffset g.mainBits gr ch
  let sfBlockBits : ℤ := 8 * r.offset - g.bitOffset + r.bitOffset
  (sfBlockBits,
    { g with
      mainPtr := g.mainPtr.drop r.offset
      bitOffset := r.bitOffset
      mainBits := g.mainBits - sfBlockBits
      si := r.si
      sfi := r.sfi })

/-- The bytes that `UnpackScaleFactors` gives to the bit reader, all of which it may load. -/
def sfBytesCount (g : GranuleState S) : ℤ := (g.mainBits + g.bitOffset + 7).tdiv 8

/-- The scale factors and the codes of a granule of a channel; `none` if the bit reader of the scale
factors is given bytes that are not there. -/
def block (fh : FrameHeader) (modeExt gr ch : ℕ) (g : GranuleState S) :
    Option (ℤ × GranuleState S) :=
  if g.sfBytesCount < 0 ∨ g.mainPtr.length < g.sfBytesCount then none
  else
    let r := g.scaleFactors fh modeExt gr ch
    let huffBlockBits : ℤ := (r.2.si.sis gr ch).part23Length - r.1
    if r.2.mainBits < huffBlockBits then some (ERR_MP3_INVALID_SCALEFACT, r.2)
    else r.2.codes fh gr ch huffBlockBits

/-- The loop over the channels. -/
def channels (fh : FrameHeader) (modeExt gr : ℕ) : List ℕ → GranuleState S →
    Option (ℤ × GranuleState S)
  | [], g => some (ERR_MP3_NONE, g)
  | ch :: chs, g =>
    (g.block fh modeExt gr ch).bind fun r =>
      if r.1 ≠ ERR_MP3_NONE then some r else channels fh modeExt gr chs r.2

/-- The samples of a granule. -/
def granule (synth : Synth S) (fh : FrameHeader) (modeExt gr : ℕ) (g : GranuleState S) :
    GranuleState S :=
  let r := synth fh modeExt gr g.si g.sfi g.hi g.synth
  { g with synth := r.1, hi := r.2.1, outbuf := g.outbuf ++ r.2.2 }

/-- The loop over the granules. -/
def granules (synth : Synth S) (fh : FrameHeader) (modeExt : ℕ) : List ℕ → GranuleState S →
    Option (ℤ × GranuleState S)
  | [], g => some (ERR_MP3_NONE, g)
  | gr :: grs, g =>
    (channels fh modeExt gr (List.range fh.channels) g).bind fun r =>
      if r.1 ≠ ERR_MP3_NONE then some r
      else granules synth fh modeExt grs (r.2.granule synth fh modeExt gr)

end GranuleState

/-! ### `MP3Decode` -/

/-- The decoder instance. -/
structure Mp3Decoder (S : Type) where
  front : Mp3Front
  sfi : ScaleFactorInfo
  hi : ℕ → HuffmanInfo
  synth : S

/-- What `MP3Decode` returns, leaves, takes from `bytesLeft`, and writes to `outbuf`. -/
structure DecodeResult (S : Type) where
  err : ℤ
  dec : Mp3Decoder S
  consumed : ℤ
  outbuf : List UInt16

/-- `MP3ClearBadFrame`: as many zeros as the frame would have samples. -/
def clearBadFrame (fh : FrameHeader) : List UInt16 :=
  let nGranSamps := (fh.ver.samplesPerFrameTab.getD (fh.layer - 1) 0).toNat / fh.ver.nGrans
  List.replicate (fh.ver.nGrans * nGranSamps * fh.channels) 0

namespace Mp3Decoder

variable {S : Type}

/-- `MP3InitDecoder`. -/
def init (s : S) : Mp3Decoder S where
  front := .init
  sfi := .zero
  hi := fun _ => .zero
  synth := s

/-- `MP3Decode`. -/
def decode (synth : Synth S) (d : Mp3Decoder S) (inbuf : List UInt8) (bytesLeft : ℤ)
    (useSize : Bool) : Option (DecodeResult S) :=
  (d.front.decode inbuf bytesLeft useSize).bind fun r =>
    let fh := FrameHeader.read inbuf
    if r.err ≠ ERR_MP3_NONE then
      some
        { err := r.err
          dec := { d with front := r.front }
          consumed := r.consumed
          outbuf := if 0 ≤ (unpackFrameHeader d.front.info inbuf).1 then clearBadFrame fh else [] }
    else
      (GranuleState.granules synth fh (FrameHeader.modeExt inbuf) (List.range fh.ver.nGrans)
        { mainPtr := r.mainPtr, bitOffset := 0, mainBits := r.front.mainDataBytes * 8,
          si := r.front.si, sfi := d.sfi, hi := d.hi, synth := d.synth, outbuf := [] }).map
        fun g =>
          { err := g.1
            dec :=
              { front := { r.front with si := g.2.si }
                sfi := g.2.sfi
                hi := g.2.hi
                synth := g.2.synth }
            consumed := r.consumed
            outbuf := if g.1 = ERR_MP3_NONE then g.2.outbuf else clearBadFrame fh }

end Mp3Decoder

end AudioPipeline
