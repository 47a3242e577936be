import AudioPipeline.Codec.Rounds

/-!
# Frame headers (`bitstream.c`, `mp3dec.c`)

`UnpackFrameHeader` reads the fields of a frame header and fills the part of `MP3DecInfo` that the
caller of the decoder can ask for with `MP3GetLastFrameInfo`.  `OfHeaders` says of a decoder that it
does so.
-/

namespace AudioPipeline

inductive MPEGVersion
  | mpeg1
  | mpeg2
  | mpeg25
  deriving DecidableEq, Repr

namespace MPEGVersion

/-! ### Tables (`mp3tabs.c`) -/

def samplerateTab : MPEGVersion → List ℤ
  | mpeg1 => [44100, 48000, 32000]
  | mpeg2 => [22050, 24000, 16000]
  | mpeg25 => [11025, 12000, 8000]

/-- The bitrates of layer 1, 2 and 3, in kbit/s. -/
def bitrateTab : MPEGVersion → List (List ℤ)
  | mpeg1 =>
    [[0, 32, 64, 96, 128, 160, 192, 224, 256, 288, 320, 352, 384, 416, 448],
      [0, 32, 48, 56, 64, 80, 96, 112, 128, 160, 192, 224, 256, 320, 384],
      [0, 32, 40, 48, 56, 64, 80, 96, 112, 128, 160, 192, 224, 256, 320]]
  | mpeg2 | mpeg25 =>
    [[0, 32, 48, 56, 64, 80, 96, 112, 128, 144, 160, 176, 192, 224, 256],
      [0, 8, 16, 24, 32, 40, 48, 56, 64, 80, 96, 112, 128, 144, 160],
      [0, 8, 16, 24, 32, 40, 48, 56, 64, 80, 96, 112, 128, 144, 160]]

def samplesPerFrameTab : MPEGVersion → List ℤ
  | mpeg1 => [384, 1152, 1152]
  | mpeg2 | mpeg25 => [384, 1152, 576]

/-- The bytes of the side information of one channel, and of two. -/
def sideBytesTab : MPEGVersion → List ℤ
  | mpeg1 => [17, 32]
  | mpeg2 | mpeg25 => [9, 17]

/-- The bytes of a frame of layer 3, for each sample rate. -/
def slotTab : MPEGVersion → List (List ℤ)
  | mpeg1 =>
    [[0, 104, 130, 156, 182, 208, 261, 313, 365, 417, 522, 626, 731, 835, 1044],
      [0, 96, 120, 144, 168, 192, 240, 288, 336, 384, 480, 576, 672, 768, 960],
      [0, 144, 180, 216, 252, 288, 360, 432, 504, 576, 720, 864, 1008, 1152, 1440]]
  | mpeg2 =>
    [[0, 26, 52, 78, 104, 130, 156, 182, 208, 261, 313, 365, 417, 470, 522],
      [0, 24, 48, 72, 96, 120, 144, 168, 192, 240, 288, 336, 384, 432, 480],
      [0, 36, 72, 108, 144, 180, 216, 252, 288, 360, 432, 504, 576, 648, 720]]
  | mpeg25 =>
    [[0, 52, 104, 156, 208, 261, 313, 365, 417, 522, 626, 731, 835, 940, 1044],
      [0, 48, 96, 144, 192, 240, 288, 336, 384, 480, 576, 672, 768, 864, 960],
      [0, 72, 144, 216, 288, 360, 432, 504, 576, 720, 864, 1008, 1152, 1296, 1440]]

end MPEGVersion

/-! ### `UnpackFrameHeader` -/

/-- The fields of `FrameHeader` that are asked for. -/
structure FrameHeader where
  ver : MPEGVersion
  /-- 4 is an error. -/
  layer : ℕ
  crc : Bool
  brIdx : ℕ
  srIdx : ℕ
  paddingBit : Bool
  mono : Bool
  deriving DecidableEq, Repr

/-- What is read from the first four bytes. -/
def FrameHeader.read (buf : List UInt8) : FrameHeader :=
  let verIdx := (buf.getD 1 0 >>> 3) &&& 0x03
  { ver := if verIdx = 0 then .mpeg25 else if verIdx &&& 0x01 ≠ 0 then .mpeg1 else .mpeg2
    layer := 4 - ((buf.getD 1 0 >>> 1) &&& 0x03).toNat
    crc := buf.getD 1 0 &&& 0x01 = 0
    brIdx := ((buf.getD 2 0 >>> 4) &&& 0x0f).toNat
    srIdx := ((buf.getD 2 0 >>> 2) &&& 0x03).toNat
    paddingBit := (buf.getD 2 0 >>> 1) &&& 0x01 ≠ 0
    mono := (buf.getD 3 0 >>> 6) &&& 0x03 = 0x03 }

/-- The part of `MP3DecInfo` that is filled from the header. -/
structure Mp3DecInfo where
  bitrate : ℤ
  nChans : ℤ
  samprate : ℤ
  nSlots : ℤ
  layer : ℕ
  version : MPEGVersion
  deriving DecidableEq, Repr

/-- `MP3DecInfo` as `MP3InitDecoder` allocates it. -/
def Mp3DecInfo.init : Mp3DecInfo where
  bitrate := 0
  nChans := 0
  samprate := 0
  nSlots := 0
  layer := 0
  version := .mpeg1

/-- `UnpackFrameHeader`. -/
def unpackFrameHeader (info : Mp3DecInfo) (buf : List UInt8) : ℤ × Mp3DecInfo :=
  if ¬isSyncWord (buf.getD 0 0) (buf.getD 1 0) then (-1, info)
  else
    let fh := FrameHeader.read buf
    if fh.srIdx = 3 ∨ fh.layer = 4 ∨ fh.brIdx = 15 then (-1, info)
    else
      let info :=
        { info with
          nChans := if fh.mono then 1 else 2
          samprate := fh.ver.samplerateTab.getD fh.srIdx 0
          layer := fh.layer
          version := fh.ver }
      let info :=
        if fh.brIdx ≠ 0 then
          { info with
            bitrate := (fh.ver.bitrateTab.getD (fh.layer - 1) []).getD fh.brIdx 0 * 1000
            nSlots := (fh.ver.slotTab.getD fh.srIdx []).getD fh.brIdx 0 -
              fh.ver.sideBytesTab.getD (if fh.mono then 0 else 1) 0 - 4 -
              (if fh.crc then 2 else 0) + if fh.paddingBit then 1 else 0 }
        else info
      (if fh.crc then 6 else 4, info)

/-- `MP3GetLastFrameInfo`. -/
def mp3GetLastFrameInfo (info : Mp3DecInfo) : Mp3FrameInfo :=
  if info.layer ≠ 3 then
    { bitrate := 0, nChans := 0, samprate := 0, bitsPerSample := 0, outputSamps := 0 }
  else
    { bitrate := info.bitrate
      nChans := info.nChans
      samprate := info.samprate
      bitsPerSample := 16
      outputSamps := info.nChans * info.version.samplesPerFrameTab.getD (info.layer - 1) 0 }

/-- What `MP3Decode` does with the header of a frame: `UnpackFrameHeader` accepts it, and fills
`MP3DecInfo`, of which only `bitrate` and `nSlots` may change after that. -/
structure Helix.OfHeaders {δ : Type} (H : Helix δ) (info : δ → Mp3DecInfo) : Prop where
  frameInfo : ∀ d, H.frameInfo d = mp3GetLastFrameInfo (info d)
  header : ∀ d bs, (H.decode d bs).err = 0 → 0 ≤ (unpackFrameHeader (info d) bs).1 ∧
    ∃ bitrate nSlots, info (H.decode d bs).inst =
      { (unpackFrameHeader (info d) bs).2 with bitrate := bitrate, nSlots := nSlots }

/-! ### Divisions -/

/-- What `mp3_decoder_process` divides by after a frame: `||` does not come to the division of the
comparison if there is another difference, and the body of the `if` divides again. -/
def Info.divisors (info : Info) (f : Mp3FrameInfo) : List ℤ :=
  if info.bits ≠ f.bitsPerSample ∨ info.channels ≠ f.nChans ∨ info.sampleRates ≠ f.samprate ∨
      info.bps ≠ f.bitrate ∨ info.codecFmt ≠ .mp3 then
    [f.samprate]
  else if info.userData0 ≠ f.framesize then [f.samprate, f.samprate]
  else [f.samprate]

variable {δ : Type}

/-- The rounds of a call in which `MP3Decode` returns 0. -/
def framesDecoded (H : Helix δ) (lastLeft : ℤ) (el : Mp3El δ) (input : Mp3Input)
    (accept : ℕ → ℤ → ℤ) : List (Round δ) :=
  match input with
  | .data bs =>
    (decodeRounds H el.info.estimate ((lastLeft + bs.length).toNat + 1) accept
      ⟨el.write lastLeft bs, 0, lastLeft + bs.length⟩).filter fun p =>
        0 ≤ p.offset ∧ el.info.estimate ≤ p.readLeft ∧ (p.decode H).err = 0
  | .code ret =>
    if ret ≠ AEL_IO_TIMEOUT ∧ ret = AEL_IO_DONE ∧ 0 < lastLeft then
      (drainRounds H (lastLeft.toNat + 1) accept ⟨el, 0, lastLeft⟩).filter fun p =>
        (p.decode H).err = 0
    else []

/-- The frames that are decoded in one call after the other. -/
def framesRun (H : Helix δ) (lastLeft : ℤ) (el : Mp3El δ) :
    List (Mp3Input × (ℕ → ℤ → ℤ)) → List (Round δ)
  | [] => []
  | (input, accept) :: inputs =>
    framesDecoded H lastLeft el input accept ++
      ((mp3DecoderProcess H lastLeft el input accept).elim [] fun r =>
        framesRun H r.lastLeft r.el inputs)

/-- What is divided by in one call after the other. -/
def divisorsRun (H : Helix δ) (lastLeft : ℤ) (el : Mp3El δ)
    (inputs : List (Mp3Input × (ℕ → ℤ → ℤ))) : List ℤ :=
  (framesRun H lastLeft el inputs).flatMap fun p => p.el.info.divisors (p.frameInfo H)

end AudioPipeline
