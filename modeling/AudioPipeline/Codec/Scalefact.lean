import AudioPipeline.Codec.SideInfo

/-!
# Scale factors (`scalfact.c`)

`UnpackScaleFactors` reads the scale factors of a granule of a channel, over those that are there.
The arrays are functions of the index, so that a write behind their end would be seen.
-/

namespace AudioPipeline

/-- `ScaleFactorInfoSub`: `l` by band, and `s` by band and window. -/
@[ext]
structure ScaleFactorInfoSub where
  l : ℕ → ℕ
  s : ℕ → ℕ → ℕ

/-- `ScaleFactorJS`. -/
structure ScaleFactorJS where
  intensityScale : ℕ
  slen : List ℕ
  nr : List ℕ
  deriving DecidableEq, Repr

/-- `ScaleFactorInfo`. -/
structure ScaleFactorInfo where
  sfis : ℕ → ℕ → ScaleFactorInfoSub
  sfjs : ScaleFactorJS

/-- What `AllocateBuffers` leaves. -/
def ScaleFactorInfo.zero : ScaleFactorInfo where
  sfis := fun _ _ => { l := fun _ => 0, s := fun _ _ => 0 }
  sfjs := { intensityScale := 0, slen := [0, 0, 0, 0], nr := [0, 0, 0, 0] }

namespace ScaleFactorInfoSub

def setL (sfis : ScaleFactorInfoSub) (sfb v : ℕ) : ScaleFactorInfoSub :=
  { sfis with l := fun i => if i = sfb then v else sfis.l i }

/-- The three windows of a band. -/
def setS (sfis : ScaleFactorInfoSub) (sfb v₀ v₁ v₂ : ℕ) : ScaleFactorInfoSub :=
  { sfis with
    s := fun i w => if i = sfb ∧ w < 3 then [v₀, v₁, v₂].getD w 0 else sfis.s i w }

end ScaleFactorInfoSub

/-! ### The loops over the bands -/

/-- `l[lo]` to `l[hi - 1]`. -/
def unpackLong (slen lo hi : ℕ) (sfis : ScaleFactorInfoSub) :
    StateM BitStreamInfo ScaleFactorInfoSub :=
  (List.range' lo (hi - lo)).foldlM
    (fun sfis sfb => do
      let v ← getBits slen
      pure (sfis.setL sfb v)) sfis

/-- `s[lo]` to `s[hi - 1]`. -/
def unpackShort (slen lo hi : ℕ) (sfis : ScaleFactorInfoSub) :
    StateM BitStreamInfo ScaleFactorInfoSub :=
  (List.range' lo (hi - lo)).foldlM
    (fun sfis sfb => do
      let v₀ ← getBits slen
      let v₁ ← getBits slen
      let v₂ ← getBits slen
      pure (sfis.setS sfb v₀ v₁ v₂)) sfis

/-! ### `UnpackSFMPEG1` -/

def SFLenTab : List (ℕ × ℕ) :=
  [(0, 0), (0, 1), (0, 2), (0, 3), (3, 0), (1, 1), (1, 2), (1, 3), (2, 1), (2, 2), (2, 3), (3, 1),
    (3, 2), (3, 3), (4, 2), (4, 3)]

/-- The bands that the second granule shares with the first one, or not. -/
def unpackShared (scfsi slen lo hi : ℕ) (sfisGr0 sfis : ScaleFactorInfoSub) :
    StateM BitStreamInfo ScaleFactorInfoSub :=
  if scfsi ≠ 0 then
    pure ((List.range' lo (hi - lo)).foldl (fun sfis sfb => sfis.setL sfb (sfisGr0.l sfb)) sfis)
  else unpackLong slen lo hi sfis

/-- The long bands of a mixed block. -/
def unpackMixed (mixedBlock slen hi : ℕ) (sfis : ScaleFactorInfoSub) :
    StateM BitStreamInfo ScaleFactorInfoSub :=
  if mixedBlock ≠ 0 then unpackLong slen 0 hi sfis else pure sfis

/-- `UnpackSFMPEG1`.  Of the bands that are not transmitted, the first granule leaves the two long
ones alone. -/
def unpackSFMPEG1 (sis : SideInfoSub) (scfsi : ℕ → ℕ) (gr : ℕ)
    (sfisGr0 sfis : ScaleFactorInfoSub) : StateM BitStreamInfo ScaleFactorInfoSub :=
  let slen := SFLenTab.getD sis.sfCompress (0, 0)
  if sis.blockType = 2 then do
    let sfis ← unpackMixed sis.mixedBlock slen.1 8 sfis
    let sfis ← unpackShort slen.1 (if sis.mixedBlock ≠ 0 then 3 else 0) 6 sfis
    let sfis ← unpackShort slen.2 6 12 sfis
    pure (sfis.setS 12 0 0 0)
  else if gr = 0 then do
    let sfis ← unpackLong slen.1 0 11 sfis
    unpackLong slen.2 11 21 sfis
  else do
    let sfis ← unpackShared (scfsi 0) slen.1 0 6 sfisGr0 sfis
    let sfis ← unpackShared (scfsi 1) slen.1 6 11 sfisGr0 sfis
    let sfis ← unpackShared (scfsi 2) slen.2 11 16 sfisGr0 sfis
    let sfis ← unpackShared (scfsi 3) slen.2 16 21 sfisGr0 sfis
    pure ((sfis.setL 21 0).setL 22 0)

/-! ### `UnpackSFMPEG2` -/

/-- `NRTab`, by `sfcIdx` and `btIdx`. -/
def NRTab : List (List (List ℕ)) :=
  [[[6, 5, 5, 5], [3, 3, 3, 3], [6, 3, 3, 3]],
    [[6, 5, 7, 3], [3, 3, 4, 2], [6, 3, 4, 2]],
    [[11, 10, 0, 0], [6, 6, 0, 0], [6, 3, 6, 0]],
    [[7, 7, 7, 0], [4, 4, 4, 0], [6, 5, 4, 0]],
    [[6, 6, 6, 3], [4, 3, 3, 2], [6, 4, 3, 2]],
    [[8, 8, 5, 0], [5, 4, 3, 0], [6, 6, 3, 0]]]

/-- `slen`, and `sfcIdx`.  `right` is the right channel of intensity stereo. -/
def slenMPEG2 (right : Bool) (sfCompress mixedBlock : ℕ) : List ℕ × ℕ :=
  if right then
    let sfCompress := sfCompress >>> 1
    if sfCompress < 180 then
      ([sfCompress / 36, sfCompress % 36 / 6, sfCompress % 36 % 6, 0], 3)
    else if sfCompress < 244 then
      let sfCompress := sfCompress - 180
      ([(sfCompress &&& 0x3f) >>> 4, (sfCompress &&& 0x0f) >>> 2, sfCompress &&& 0x03, 0], 4)
    else
      let sfCompress := sfCompress - 244
      ([sfCompress / 3, sfCompress % 3, 0, 0], 5)
  else if sfCompress < 400 then
    ([(sfCompress >>> 4) / 5, (sfCompress >>> 4) % 5, (sfCompress &&& 0x0f) >>> 2,
      sfCompress &&& 0x03], 0)
  else if sfCompress < 500 then
    let sfCompress := sfCompress - 400
    ([(sfCompress >>> 2) / 5, (sfCompress >>> 2) % 5, sfCompress &&& 0x03, 0], 1)
  else
    let sfCompress := sfCompress - 500
    if mixedBlock ≠ 0 then ([sfCompress / 3, sfCompress / 3, sfCompress % 3, 0], 2)
    else ([sfCompress / 3, sfCompress % 3, 0, 0], 2)

/-- `nr`. -/
def nrMPEG2 (sis : SideInfoSub) (sfcIdx : ℕ) : List ℕ :=
  let btIdx := if sis.blockType = 2 then if sis.mixedBlock ≠ 0 then 2 else 1 else 0
  (NRTab.getD sfcIdx []).getD btIdx []

/-- The partitions `nrIdx` of `groups`, from the band `sfb` on. -/
def unpackGroups (unpack : ℕ → ℕ → ℕ → ScaleFactorInfoSub → StateM BitStreamInfo ScaleFactorInfoSub)
    (slen nr groups : List ℕ) (sfb : ℕ) (sfis : ScaleFactorInfoSub) :
    StateM BitStreamInfo (ℕ × ScaleFactorInfoSub) :=
  groups.foldlM
    (fun (p : ℕ × ScaleFactorInfoSub) nrIdx => do
      let sfis ← unpack (slen.getD nrIdx 0) p.1 (p.1 + nr.getD nrIdx 0) p.2
      pure (p.1 + nr.getD nrIdx 0, sfis)) (sfb, sfis)

/-- The scale factors of `UnpackSFMPEG2`. -/
def unpackSFBands (sis : SideInfoSub) (slen nr : List ℕ) (sfis : ScaleFactorInfoSub) :
    StateM BitStreamInfo ScaleFactorInfoSub :=
  if sis.blockType = 2 then do
    let sfis ← unpackMixed sis.mixedBlock (slen.getD 0 0) 6 sfis
    let p ← unpackGroups unpackShort slen nr
      (if sis.mixedBlock ≠ 0 then [1, 2, 3] else [0, 1, 2, 3])
      (if sis.mixedBlock ≠ 0 then 3 else 0) sfis
    pure (p.2.setS 12 0 0 0)
  else do
    let p ← unpackGroups unpackLong slen nr [0, 1, 2, 3] 0 sfis
    pure ((p.2.setL 21 0).setL 22 0)

/-- The right channel of intensity stereo. -/
def isRight (modeExt ch : ℕ) : Bool := modeExt &&& 0x01 ≠ 0 ∧ ch = 1

/-- `sis->preFlag` after `UnpackSFMPEG2`. -/
def preFlagMPEG2 (right : Bool) (sfCompress : ℕ) : ℕ :=
  if ¬right ∧ 500 ≤ sfCompress then 1 else 0

/-! ### `UnpackScaleFactors` -/

/-- What `UnpackScaleFactors` returns and leaves. -/
structure ScaleFactorResult where
  offset : ℕ
  bitOffset : ℕ
  si : SideInfo
  sfi : ScaleFactorInfo

namespace ScaleFactorInfo

def setSfis (sfi : ScaleFactorInfo) (gr ch : ℕ) (sfis : ScaleFactorInfoSub) : ScaleFactorInfo :=
  { sfi with sfis := fun g c => if g = gr ∧ c = ch then sfis else sfi.sfis g c }

end ScaleFactorInfo

/-- The scale factors, as the version of the frame has them. -/
def unpackSF (ver : MPEGVersion) (modeExt : ℕ) (si : SideInfo) (sfi : ScaleFactorInfo)
    (gr ch : ℕ) : StateM BitStreamInfo ScaleFactorInfoSub :=
  if ver = .mpeg1 then
    unpackSFMPEG1 (si.sis gr ch) (si.scfsi ch) gr (sfi.sfis 0 ch) (sfi.sfis gr ch)
  else
    let slen := slenMPEG2 (isRight modeExt ch) (si.sis gr ch).sfCompress (si.sis gr ch).mixedBlock
    unpackSFBands (si.sis gr ch) slen.1 (nrMPEG2 (si.sis gr ch) slen.2) (sfi.sfis gr ch)

/-- `sis->preFlag`, which `UnpackSFMPEG2` sets. -/
def SideInfo.withPreFlag (si : SideInfo) (ver : MPEGVersion) (modeExt gr ch : ℕ) : SideInfo :=
  if ver = .mpeg1 then si
  else
    si.setSis gr ch
      { si.sis gr ch with
        preFlag := preFlagMPEG2 (isRight modeExt ch) (si.sis gr ch).sfCompress }

/-- `sfjs`, which `UnpackSFMPEG2` sets for the right channel of intensity stereo. -/
def ScaleFactorInfo.withIntensity (sfi : ScaleFactorInfo) (ver : MPEGVersion) (modeExt : ℕ)
    (sis : SideInfoSub) (ch : ℕ) : ScaleFactorInfo :=
  if ver ≠ .mpeg1 ∧ isRight modeExt ch then
    let slen := slenMPEG2 true sis.sfCompress sis.mixedBlock
    { sfi with
      sfjs :=
        { intensityScale := sis.sfCompress &&& 0x01
          slen := slen.1
          nr := nrMPEG2 sis slen.2 } }
  else sfi

/-- `UnpackScaleFactors`. -/
def unpackScaleFactors (ver : MPEGVersion) (modeExt : ℕ) (si : SideInfo) (sfi : ScaleFactorInfo)
    (buf : List UInt8) (bitOffset : ℕ) (bitsAvail : ℤ) (gr ch : ℕ) : ScaleFactorResult :=
  let bsi := setBitstreamPointer ((bitsAvail + bitOffset + 7) / 8).toNat buf
  let bsi := if bitOffset ≠ 0 then (getBits bitOffset bsi).2 else bsi
  let r := unpackSF ver modeExt si sfi gr ch bsi
  let bitsUsed := r.2.calcBitsUsed bitOffset
  { offset := ((bitsUsed + bitOffset) / 8).toNat
    bitOffset := ((bitsUsed + bitOffset) % 8).toNat
    si := si.withPreFlag ver modeExt gr ch
    sfi := (sfi.withIntensity ver modeExt (si.sis gr ch) ch).setSfis gr ch r.1 }

end AudioPipeline
