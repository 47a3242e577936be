import AudioPipeline.Codec.Bitstream
import AudioPipeline.Codec.Header

/-!
# Side information (`bitstream.c`)

`UnpackSideInfo` reads the side information of a frame over that of the frame before: what a frame
does not have keeps its old value.  `none` is an assertion that fails.
-/

namespace AudioPipeline

/-- `NGRANS_MPEG1` or `NGRANS_MPEG2`. -/
def MPEGVersion.nGrans : MPEGVersion → ℕ
  | mpeg1 => 2
  | mpeg2 | mpeg25 => 1

namespace FrameHeader

/-- `mp3DecInfo->nChans`, as `UnpackFrameHeader` sets it. -/
def channels (fh : FrameHeader) : ℕ := if fh.mono then 1 else 2

/-- The number of bytes that `UnpackSideInfo` reads. -/
def siBytes (fh : FrameHeader) : ℕ :=
  if fh.ver = .mpeg1 then if fh.mono then 17 else 32
  else if fh.mono then 9 else 17

end FrameHeader

/-- `SideInfoSub`: the side information of one granule of a channel. -/
structure SideInfoSub where
  part23Length : ℕ
  nBigvals : ℕ
  globalGain : ℕ
  sfCompress : ℕ
  winSwitchFlag : ℕ
  blockType : ℕ
  mixedBlock : ℕ
  tableSelect : ℕ × ℕ × ℕ
  subBlockGain : ℕ × ℕ × ℕ
  region0Count : ℕ
  region1Count : ℕ
  preFlag : ℕ
  sfactScale : ℕ
  count1TableSelect : ℕ
  deriving DecidableEq, Repr

/-- What `AllocateBuffers` leaves. -/
def SideInfoSub.zero : SideInfoSub where
  part23Length := 0
  nBigvals := 0
  globalGain := 0
  sfCompress := 0
  winSwitchFlag := 0
  blockType := 0
  mixedBlock := 0
  tableSelect := (0, 0, 0)
  subBlockGain := (0, 0, 0)
  region0Count := 0
  region1Count := 0
  preFlag := 0
  sfactScale := 0
  count1TableSelect := 0

/-- `SideInfo`: `scfsi` by channel and band, `sis` by granule and channel. -/
structure SideInfo where
  mainDataBegin : ℕ
  privateBits : ℕ
  scfsi : ℕ → ℕ → ℕ
  sis : ℕ → ℕ → SideInfoSub

/-- What `AllocateBuffers` leaves. -/
def SideInfo.zero : SideInfo where
  mainDataBegin := 0
  privateBits := 0
  scfsi := fun _ _ => 0
  sis := fun _ _ => .zero

namespace SideInfo

def setScfsi (si : SideInfo) (ch bd v : ℕ) : SideInfo :=
  { si with scfsi := fun c b => if c = ch ∧ b = bd then v else si.scfsi c b }

def setSis (si : SideInfo) (gr ch : ℕ) (sub : SideInfoSub) : SideInfo :=
  { si with sis := fun g c => if g = gr ∧ c = ch then sub else si.sis g c }

end SideInfo

abbrev MAX_SCFBD : ℕ := 4

/-! ### `UnpackSideInfo` -/

/-- The block of a start, stop, short or mixed block.  The region counts of one that is of none of
these types keep their sum. -/
def unpackSwitched (sis : SideInfoSub) : StateM BitStreamInfo SideInfoSub := do
  let blockType ← getBits 2
  let mixedBlock ← getBits 1
  let table0 ← getBits 5
  let table1 ← getBits 5
  let gain0 ← getBits 3
  let gain1 ← getBits 3
  let gain2 ← getBits 3
  let sis : SideInfoSub :=
    { sis with
      blockType := blockType
      mixedBlock := mixedBlock
      tableSelect := (table0, table1, 0)
      subBlockGain := (gain0, gain1, gain2) }
  let sis : SideInfoSub :=
    if blockType = 0 then { sis with nBigvals := 0, part23Length := 0, sfCompress := 0 }
    else if blockType = 2 ∧ mixedBlock = 0 then { sis with region0Count := 8 }
    else { sis with region0Count := 7 }
  pure { sis with region1Count := 20 - sis.region0Count }

/-- A normal block. -/
def unpackNormal (sis : SideInfoSub) : StateM BitStreamInfo SideInfoSub := do
  let table0 ← getBits 5
  let table1 ← getBits 5
  let table2 ← getBits 5
  let region0Count ← getBits 4
  let region1Count ← getBits 3
  pure
    { sis with
      blockType := 0
      mixedBlock := 0
      tableSelect := (table0, table1, table2)
      region0Count := region0Count
      region1Count := region1Count }

def unpackBlock (sis : SideInfoSub) : StateM BitStreamInfo SideInfoSub :=
  if sis.winSwitchFlag ≠ 0 then unpackSwitched sis else unpackNormal sis

def unpackPreFlag (ver : MPEGVersion) : StateM BitStreamInfo ℕ :=
  if ver = .mpeg1 then getBits 1 else pure 0

/-- The body of the loops over granules and channels. -/
def unpackSideInfoSub (ver : MPEGVersion) (sis : SideInfoSub) :
    StateM BitStreamInfo SideInfoSub := do
  let part23Length ← getBits 12
  let nBigvals ← getBits 9
  let globalGain ← getBits 8
  let sfCompress ← getBits (if ver = .mpeg1 then 4 else 9)
  let winSwitchFlag ← getBits 1
  let sis : SideInfoSub :=
    { sis with
      part23Length := part23Length
      nBigvals := nBigvals
      globalGain := globalGain
      sfCompress := sfCompress
      winSwitchFlag := winSwitchFlag }
  let sis ← unpackBlock sis
  let preFlag ← unpackPreFlag ver
  let sfactScale ← getBits 1
  let count1TableSelect ← getBits 1
  pure
    { sis with
      preFlag := preFlag
      sfactScale := sfactScale
      count1TableSelect := count1TableSelect }

/-- The fields in front of the loops. -/
def unpackSideInfoHead (fh : FrameHeader) (si : SideInfo) : StateM BitStreamInfo SideInfo := do
  let mainDataBegin ← getBits (if fh.ver = .mpeg1 then 9 else 8)
  let privateBits ← getBits
    (if fh.ver = .mpeg1 then if fh.mono then 5 else 3 else if fh.mono then 1 else 2)
  let si : SideInfo := { si with mainDataBegin := mainDataBegin, privateBits := privateBits }
  if fh.ver = .mpeg1 then
    (List.range fh.channels).foldlM
      (fun si ch => (List.range MAX_SCFBD).foldlM
        (fun si bd => do
          let v ← getBits 1
          pure (si.setScfsi ch bd v)) si) si
  else pure si

/-- The loops over granules and channels. -/
def unpackSideInfoSubs (fh : FrameHeader) (si : SideInfo) : StateM BitStreamInfo SideInfo :=
  (List.range fh.ver.nGrans).foldlM
    (fun si gr => (List.range fh.channels).foldlM
      (fun si ch => do
        let sub ← unpackSideInfoSub fh.ver (si.sis gr ch)
        pure (si.setSis gr ch sub)) si) si

/-- `UnpackSideInfo`: the number of bytes, and the side information. -/
def unpackSideInfo (fh : FrameHeader) (si : SideInfo) (buf : List UInt8) : Option (ℕ × SideInfo) :=
  let r := (unpackSideInfoHead fh si >>= unpackSideInfoSubs fh) (setBitstreamPointer fh.siBytes buf)
  if (fh.siBytes : ℤ) = r.2.calcBitsUsed 0 / 8 then some (fh.siBytes, r.1) else none

end AudioPipeline
