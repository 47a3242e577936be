import AudioPipeline.Codec.SideInfo

/-!
# Main data (`mp3dec.c`)

`MP3Decode` up to its loop over the granules: the header, the side information and the slots of the
frame, which go behind those bytes of the frames before that its main data begins with.

`inbuf` is the memory from `*inbuf` on, of which the first `bytesLeft` bytes are valid.  `none` is
an assertion that fails, a copy that leaves `mainBuf` or has a negative size, or a read of side
information or slots behind the end of `inbuf`.
-/

namespace AudioPipeline

abbrev MAINBUF_SIZE : ℕ := 1940

abbrev ERR_MP3_NONE : ℤ := 0
abbrev ERR_MP3_MAINDATA_UNDERFLOW : ℤ := -2
abbrev ERR_MP3_FREE_BITRATE_SYNC : ℤ := -3

/-! ### `MP3FindFreeSync` -/

/-- The loop of `MP3FindFreeSync`: `buf` is at the offset `pos`. -/
def freeSyncLoop (firstFH : List UInt8) : ℕ → List UInt8 → ℤ → ℤ → ℤ
  | 0, _, _, _ => -1
  | fuel + 1, buf, pos, nBytes =>
    let offset := mp3FindSyncWord (buf.take nBytes.toNat)
    if offset < 0 then -1
    else
      let buf := buf.drop offset.toNat
      if buf.getD 0 0 = firstFH.getD 0 0 ∧ buf.getD 1 0 = firstFH.getD 1 0 ∧
          buf.getD 2 0 &&& 0xfc = firstFH.getD 2 0 &&& 0xfc then
        if (firstFH.getD 2 0 >>> 1) &&& 0x01 ≠ 0 then pos + offset - 1 else pos + offset
      else freeSyncLoop firstFH fuel (buf.drop 3) (pos + offset + 3) (nBytes - (offset + 3))

/-- `MP3FindFreeSync`. -/
def mp3FindFreeSync (buf firstFH : List UInt8) (nBytes : ℤ) : ℤ :=
  freeSyncLoop firstFH (nBytes.toNat + 1) buf 0 nBytes

/-! ### Memory -/

/-- The `n` bytes from the index `i` on. -/
def bytesAt (mem : List UInt8) (i n : ℕ) : Option (List UInt8) :=
  if i + n ≤ mem.length then some ((mem.drop i).take n) else none

/-- The memory with `src` copied to the index `i`. -/
def putBytes (mem : List UInt8) (i : ℕ) (src : List UInt8) : Option (List UInt8) :=
  if i + src.length ≤ mem.length then some (mem.take i ++ src ++ mem.drop (i + src.length))
  else none

/-! ### `MP3Decode` up to the granules -/

/-- What `MP3Decode` keeps of the frames before: `MP3DecInfo`, and `SideInfo`. -/
structure Mp3Front where
  info : Mp3DecInfo
  si : SideInfo
  mainBuf : List UInt8
  mainDataBytes : ℕ
  freeBitrateFlag : Bool
  freeBitrateSlots : ℤ

/-- What `AllocateBuffers` leaves. -/
def Mp3Front.init : Mp3Front where
  info := .init
  si := .zero
  mainBuf := List.replicate MAINBUF_SIZE 0
  mainDataBytes := 0
  freeBitrateFlag := false
  freeBitrateSlots := 0

/-- What is returned, or `ERR_MP3_NONE` and the main data that the granules are decoded from. -/
structure FrontResult where
  err : ℤ
  front : Mp3Front
  mainPtr : List UInt8
  consumed : ℤ

namespace Mp3Front

/-- The bitrate and `nSlots` of a frame in free mode, whose header and side information have `len`
bytes.  `MP3FindFreeSync` is called the first time only, and `freeBitrateFlag` is set even if it
fails. -/
def freeMode (f : Mp3Front) (fh : FrameHeader) (inbuf : List UInt8) (len : ℕ) (bytesLeft : ℤ) :
    Option Mp3Front × Mp3Front :=
  let pad : ℤ := if fh.paddingBit then 1 else 0
  if f.freeBitrateFlag then
    let f : Mp3Front := { f with info := { f.info with nSlots := f.freeBitrateSlots + pad } }
    (some f, f)
  else
    let slots := mp3FindFreeSync (inbuf.drop len) inbuf bytesLeft
    let f : Mp3Front := { f with freeBitrateFlag := true, freeBitrateSlots := slots }
    if slots < 0 then (none, f)
    else
      let samps := f.info.version.samplesPerFrameTab.getD (f.info.layer - 1) 0
      let f : Mp3Front :=
        { f with
          info :=
            { f.info with
              bitrate := (slots + len) * f.info.samprate * 8 / samps
              nSlots := slots + pad } }
      (some f, f)

/-- The slots of a frame that its caller has put together (`useSize`). -/
def inPlace (f : Mp3Front) (inbuf : List UInt8) (len : ℕ) (bytesLeft : ℤ) : FrontResult :=
  let f : Mp3Front := { f with info := { f.info with nSlots := bytesLeft } }
  if f.si.mainDataBegin ≠ 0 ∨ f.info.nSlots ≤ 0 then
    { err := ERR_MP3_INVALID_FRAMEHEADER, front := f, mainPtr := [], consumed := len }
  else
    { err := ERR_MP3_NONE
      front := { f with mainDataBytes := f.info.nSlots.toNat }
      mainPtr := inbuf.take f.info.nSlots.toNat
      consumed := len + f.info.nSlots }

/-- The slots go behind `mainDataBegin` bytes of the frames before, if there are that many. -/
def fillMainData (f : Mp3Front) (inbuf : List UInt8) (len : ℕ) (bytesLeft : ℤ) :
    Option FrontResult :=
  if f.info.nSlots > bytesLeft then
    some { err := ERR_MP3_INDATA_UNDERFLOW, front := f, mainPtr := [], consumed := len }
  else if f.info.nSlots < 0 then none
  else
    (bytesAt inbuf 0 f.info.nSlots.toNat).bind fun slots =>
      let begin := f.si.mainDataBegin
      if begin ≤ f.mainDataBytes then
        (bytesAt f.mainBuf (f.mainDataBytes - begin) begin).bind fun old =>
          (putBytes f.mainBuf 0 old).bind fun mem =>
            (putBytes mem begin slots).map fun mem =>
              { err := ERR_MP3_NONE
                front := { f with mainBuf := mem, mainDataBytes := begin + f.info.nSlots.toNat }
                mainPtr := mem
                consumed := len + f.info.nSlots }
      else
        (putBytes f.mainBuf f.mainDataBytes slots).map fun mem =>
          { err := ERR_MP3_MAINDATA_UNDERFLOW
            front :=
              { f with mainBuf := mem, mainDataBytes := f.mainDataBytes + f.info.nSlots.toNat }
            mainPtr := []
            consumed := len + f.info.nSlots }

/-- What follows the side information, which ends behind `len` bytes. -/
def afterSideInfo (f : Mp3Front) (fh : FrameHeader) (inbuf : List UInt8) (len : ℕ) (bytesLeft : ℤ)
    (useSize : Bool) : Option FrontResult :=
  let r := if f.info.bitrate = 0 ∨ f.freeBitrateFlag then f.freeMode fh inbuf len bytesLeft
    else (some f, f)
  if r.1.isNone then
    some { err := ERR_MP3_FREE_BITRATE_SYNC, front := r.2, mainPtr := [], consumed := len }
  else if useSize then some (r.2.inPlace (inbuf.drop len) len bytesLeft)
  else r.2.fillMainData (inbuf.drop len) len bytesLeft

/-- `MP3Decode` up to the granules. -/
def decode (f : Mp3Front) (inbuf : List UInt8) (bytesLeft : ℤ) (useSize : Bool) :
    Option FrontResult :=
  let r := unpackFrameHeader f.info inbuf
  if r.1 < 0 then
    some { err := ERR_MP3_INVALID_FRAMEHEADER, front := f, mainPtr := [], consumed := 0 }
  else
    let fh := FrameHeader.read inbuf
    if inbuf.length < r.1.toNat + fh.siBytes then none
    else
      (unpackSideInfo fh f.si (inbuf.drop r.1.toNat)).bind fun s =>
        let len := r.1.toNat + s.1
        { f with info := r.2, si := s.2 }.afterSideInfo fh inbuf len (bytesLeft - len) useSize

end Mp3Front

end AudioPipeline
