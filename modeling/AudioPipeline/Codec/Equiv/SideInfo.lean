import AudioPipeline.Codec.Equiv.Bitstream
import AudioPipeline.Codec.SideInfo

/-!
# The format of the side information

`SideInfo.bits` writes the side information of a frame as the format has it.

* `side_info_round_trip`: what is written so is read back, over what the frame before has left;
* `side_info_total`: whatever the bytes are, `UnpackSideInfo` takes just as many of them as it says,
  and the fields stay in their ranges.
-/

namespace AudioPipeline

open Bits

/-! ### The format -/

namespace SideInfoSub

/-- A start, stop, short or mixed block. -/
structure Switched (sis : SideInfoSub) : Prop where
  winSwitchFlag : sis.winSwitchFlag = 1
  blockType_pos : 0 < sis.blockType
  blockType : sis.blockType < 2 ^ 2
  mixedBlock : sis.mixedBlock < 2 ^ 1
  table0 : sis.tableSelect.1 < 2 ^ 5
  table1 : sis.tableSelect.2.1 < 2 ^ 5
  table2 : sis.tableSelect.2.2 = 0
  gain0 : sis.subBlockGain.1 < 2 ^ 3
  gain1 : sis.subBlockGain.2.1 < 2 ^ 3
  gain2 : sis.subBlockGain.2.2 < 2 ^ 3
  region0Count : sis.region0Count = if sis.blockType = 2 ∧ sis.mixedBlock = 0 then 8 else 7
  region1Count : sis.region1Count = 20 - sis.region0Count

/-- A normal block. -/
structure Normal (sis : SideInfoSub) : Prop where
  winSwitchFlag : sis.winSwitchFlag = 0
  blockType : sis.blockType = 0
  mixedBlock : sis.mixedBlock = 0
  table0 : sis.tableSelect.1 < 2 ^ 5
  table1 : sis.tableSelect.2.1 < 2 ^ 5
  table2 : sis.tableSelect.2.2 < 2 ^ 5
  region0Count : sis.region0Count < 2 ^ 4
  region1Count : sis.region1Count < 2 ^ 3

/-- The fields fit the format. -/
structure Fits (ver : MPEGVersion) (sis : SideInfoSub) : Prop where
  part23Length : sis.part23Length < 2 ^ 12
  nBigvals : sis.nBigvals < 2 ^ 9
  globalGain : sis.globalGain < 2 ^ 8
  sfCompress : sis.sfCompress < 2 ^ (if ver = .mpeg1 then 4 else 9)
  block : sis.Switched ∨ sis.Normal
  preFlag : sis.preFlag < 2 ^ (if ver = .mpeg1 then 1 else 0)
  sfactScale : sis.sfactScale < 2 ^ 1
  count1TableSelect : sis.count1TableSelect < 2 ^ 1

def switchedBits (sis : SideInfoSub) : List Bool :=
  ofNat 2 sis.blockType ++ (ofNat 1 sis.mixedBlock ++ (ofNat 5 sis.tableSelect.1 ++
    (ofNat 5 sis.tableSelect.2.1 ++ (ofNat 3 sis.subBlockGain.1 ++
      (ofNat 3 sis.subBlockGain.2.1 ++ ofNat 3 sis.subBlockGain.2.2)))))

def normalBits (sis : SideInfoSub) : List Bool :=
  ofNat 5 sis.tableSelect.1 ++ (ofNat 5 sis.tableSelect.2.1 ++ (ofNat 5 sis.tableSelect.2.2 ++
    (ofNat 4 sis.region0Count ++ ofNat 3 sis.region1Count)))

def bits (ver : MPEGVersion) (sis : SideInfoSub) : List Bool :=
  ofNat 12 sis.part23Length ++ (ofNat 9 sis.nBigvals ++ (ofNat 8 sis.globalGain ++
    (ofNat (if ver = .mpeg1 then 4 else 9) sis.sfCompress ++ (ofNat 1 sis.winSwitchFlag ++
      ((if sis.winSwitchFlag ≠ 0 then sis.switchedBits else sis.normalBits) ++
        ((if ver = .mpeg1 then ofNat 1 sis.preFlag else []) ++
          (ofNat 1 sis.sfactScale ++ ofNat 1 sis.count1TableSelect)))))))

/-- A normal block leaves the gains of the subblocks as they were. -/
def overlay (old sis : SideInfoSub) : SideInfoSub :=
  if sis.winSwitchFlag = 0 then { sis with subBlockGain := old.subBlockGain } else sis

end SideInfoSub

namespace SideInfo

/-- The fields in front of the granules. -/
def headBits (fh : FrameHeader) (si : SideInfo) : List Bool :=
  ofNat (if fh.ver = .mpeg1 then 9 else 8) si.mainDataBegin ++
    (ofNat (if fh.ver = .mpeg1 then if fh.mono then 5 else 3 else if fh.mono then 1 else 2)
      si.privateBits ++
      if fh.ver = .mpeg1 then
        (List.range fh.channels).flatMap fun ch =>
          (List.range MAX_SCFBD).flatMap fun bd => ofNat 1 (si.scfsi ch bd)
      else [])

/-- The side information as it is written. -/
def bits (fh : FrameHeader) (si : SideInfo) : List Bool :=
  si.headBits fh ++ (List.range fh.ver.nGrans).flatMap fun gr =>
    (List.range fh.channels).flatMap fun ch => (si.sis gr ch).bits fh.ver

/-- The fields of a frame fit the format. -/
structure Fits (fh : FrameHeader) (si : SideInfo) : Prop where
  mainDataBegin : si.mainDataBegin < 2 ^ (if fh.ver = .mpeg1 then 9 else 8)
  privateBits : si.privateBits <
    2 ^ (if fh.ver = .mpeg1 then if fh.mono then 5 else 3 else if fh.mono then 1 else 2)
  scfsi : ∀ ch bd, si.scfsi ch bd < 2 ^ 1
  sis : ∀ gr < fh.ver.nGrans, ∀ ch < fh.channels, (si.sis gr ch).Fits fh.ver

/-- What a frame does not have stays as it was. -/
def overlay (fh : FrameHeader) (old si : SideInfo) : SideInfo where
  mainDataBegin := si.mainDataBegin
  privateBits := si.privateBits
  scfsi := fun ch bd =>
    if fh.ver = .mpeg1 ∧ ch < fh.channels ∧ bd < MAX_SCFBD then si.scfsi ch bd else old.scfsi ch bd
  sis := fun gr ch =>
    if gr < fh.ver.nGrans ∧ ch < fh.channels then (old.sis gr ch).overlay (si.sis gr ch)
    else old.sis gr ch

end SideInfo

/-! ### Reading it back -/

section RoundTrip

variable {ver : MPEGVersion} {fh : FrameHeader} {sis base : SideInfoSub} {si old : SideInfo}

theorem gets_switched (h : sis.Switched) (base : SideInfoSub) :
    Gets (unpackSwitched base) sis.switchedBits
      { base with
        blockType := sis.blockType
        mixedBlock := sis.mixedBlock
        tableSelect := sis.tableSelect
        subBlockGain := sis.subBlockGain
        region0Count := sis.region0Count
        region1Count := sis.region1Count } := by
  refine (Gets.ofNat (by decide) h.blockType).bind ((Gets.ofNat (by decide) h.mixedBlock).bind
    ((Gets.ofNat (by decide) h.table0).bind ((Gets.ofNat (by decide) h.table1).bind
      ((Gets.ofNat (by decide) h.gain0).bind ((Gets.ofNat (by decide) h.gain1).bind
        ((Gets.ofNat (by decide) h.gain2).bind_pure ?_))))))
  have htab : (sis.tableSelect.1, sis.tableSelect.2.1, 0) = sis.tableSelect := by
    rw [← h.table2]
  rw [if_neg h.blockType_pos.ne', h.region1Count, h.region0Count, ← htab]
  split_ifs <;> rfl

theorem gets_normal (h : sis.Normal) (base : SideInfoSub) :
    Gets (unpackNormal base) sis.normalBits
      { base with
        blockType := 0
        mixedBlock := 0
        tableSelect := sis.tableSelect
        region0Count := sis.region0Count
        region1Count := sis.region1Count } :=
  (Gets.ofNat (by decide) h.table0).bind ((Gets.ofNat (by decide) h.table1).bind
    ((Gets.ofNat (by decide) h.table2).bind ((Gets.ofNat (by decide) h.region0Count).bind
      ((Gets.ofNat (by decide) h.region1Count).bind_pure rfl))))

/-- The block, whichever it is. -/
theorem gets_block (h : sis.Switched ∨ sis.Normal)
    (hflag : base.winSwitchFlag = sis.winSwitchFlag) :
    Gets (unpackBlock base)
      (if sis.winSwitchFlag ≠ 0 then sis.switchedBits else sis.normalBits)
      { base with
        blockType := sis.blockType
        mixedBlock := sis.mixedBlock
        tableSelect := sis.tableSelect
        subBlockGain := if sis.winSwitchFlag = 0 then base.subBlockGain else sis.subBlockGain
        region0Count := sis.region0Count
        region1Count := sis.region1Count } := by
  unfold unpackBlock
  rcases h with h | h
  · have hne : sis.winSwitchFlag ≠ 0 := by rw [h.winSwitchFlag]; decide
    rw [if_pos (hflag ▸ hne), if_pos hne, if_neg hne]
    exact gets_switched h base
  · have hne : ¬sis.winSwitchFlag ≠ 0 := not_not.mpr h.winSwitchFlag
    rw [if_neg (hflag ▸ hne), if_neg hne, if_pos h.winSwitchFlag, h.blockType, h.mixedBlock]
    exact gets_normal h base

theorem gets_preFlag (h : sis.preFlag < 2 ^ (if ver = .mpeg1 then 1 else 0)) :
    Gets (unpackPreFlag ver) (if ver = .mpeg1 then ofNat 1 sis.preFlag else []) sis.preFlag := by
  unfold unpackPreFlag
  split_ifs at h ⊢ with hver
  · exact Gets.ofNat (by decide) h
  · rw [Nat.pow_zero, Nat.lt_one_iff] at h
    rw [h]
    exact Gets.pure 0

/-- **A granule of a channel.** -/
theorem gets_sub (h : sis.Fits ver) (base : SideInfoSub) :
    Gets (unpackSideInfoSub ver base) (sis.bits ver) (base.overlay sis) := by
  have hwidth : (if ver = .mpeg1 then 4 else 9) < 32 := by split_ifs <;> decide
  have hflag : sis.winSwitchFlag < 2 ^ 1 := by
    rcases h.block with hb | hb <;> rw [hb.winSwitchFlag] <;> decide
  unfold unpackSideInfoSub SideInfoSub.bits
  refine (Gets.ofNat (by decide) h.part23Length).bind ?_
  refine (Gets.ofNat (by decide) h.nBigvals).bind ?_
  refine (Gets.ofNat (by decide) h.globalGain).bind ?_
  refine (Gets.ofNat hwidth h.sfCompress).bind ?_
  refine (Gets.ofNat (by decide) hflag).bind ?_
  dsimp only
  refine Gets.bind (gets_block h.block ?_) ?_
  · rfl
  refine (gets_preFlag h.preFlag).bind ?_
  refine (Gets.ofNat (by decide) h.sfactScale).bind ?_
  refine (Gets.ofNat (by decide) h.count1TableSelect).bind_pure ?_
  unfold SideInfoSub.overlay
  split_ifs <;> rfl

/-! ### The loops -/

theorem foldl_setScfsi (v : ℕ → ℕ) (ch n : ℕ) (old : SideInfo) :
    (List.range n).foldl (fun si bd => si.setScfsi ch bd (v bd)) old =
      { old with scfsi := fun c b => if c = ch ∧ b < n then v b else old.scfsi c b } := by
  induction n with
  | zero => simp
  | succ n ih =>
    rw [List.range_succ, List.foldl_append, ih, List.foldl_cons, List.foldl_nil]
    unfold SideInfo.setScfsi
    congr 1
    funext c b
    grind

theorem foldl_scfsi (v : ℕ → ℕ → ℕ) (m n : ℕ) (old : SideInfo) :
    (List.range m).foldl (fun si ch =>
        (List.range n).foldl (fun si bd => si.setScfsi ch bd (v ch bd)) si) old =
      { old with scfsi := fun c b => if c < m ∧ b < n then v c b else old.scfsi c b } := by
  induction m with
  | zero => simp
  | succ m ih =>
    rw [List.range_succ, List.foldl_append, ih, List.foldl_cons, List.foldl_nil, foldl_setScfsi]
    congr 1
    funext c b
    grind

theorem foldl_setSis (g : ℕ → SideInfoSub → SideInfoSub) (gr n : ℕ) (old : SideInfo) :
    (List.range n).foldl (fun si ch => si.setSis gr ch (g ch (si.sis gr ch))) old =
      { old with sis := fun r c => if r = gr ∧ c < n then g c (old.sis r c) else old.sis r c } := by
  induction n with
  | zero => simp
  | succ n ih =>
    rw [List.range_succ, List.foldl_append, ih, List.foldl_cons, List.foldl_nil]
    unfold SideInfo.setSis
    congr 1
    funext r c
    grind

theorem foldl_sis (g : ℕ → ℕ → SideInfoSub → SideInfoSub) (m n : ℕ) (old : SideInfo) :
    (List.range m).foldl (fun si gr =>
        (List.range n).foldl (fun si ch => si.setSis gr ch (g gr ch (si.sis gr ch))) si) old =
      { old with
        sis := fun r c => if r < m ∧ c < n then g r c (old.sis r c) else old.sis r c } := by
  induction m with
  | zero => simp
  | succ m ih =>
    rw [List.range_succ, List.foldl_append, ih, List.foldl_cons, List.foldl_nil, foldl_setSis]
    congr 1
    funext r c
    grind

theorem gets_head (h : si.Fits fh) (old : SideInfo) :
    Gets (unpackSideInfoHead fh old) (si.headBits fh)
      { old with
        mainDataBegin := si.mainDataBegin
        privateBits := si.privateBits
        scfsi := (old.overlay fh si).scfsi } := by
  have hbegin : (if fh.ver = .mpeg1 then 9 else 8) < 32 := by split_ifs <;> decide
  have hprivate : (if fh.ver = .mpeg1 then if fh.mono then 5 else 3
      else if fh.mono then 1 else 2) < 32 := by split_ifs <;> decide
  unfold unpackSideInfoHead SideInfo.headBits
  refine (Gets.ofNat hbegin h.mainDataBegin).bind ?_
  refine (Gets.ofNat hprivate h.privateBits).bind ?_
  dsimp only
  by_cases hver : fh.ver = .mpeg1
  · -- there are `scfsi` bits in MPEG1 only
    rw [if_pos hver, if_pos hver]
    have hloop := Gets.foldlM (List.range fh.channels)
      (fun ch _ s => Gets.foldlM (List.range MAX_SCFBD)
        (fun bd _ t =>
          (Gets.ofNat (by decide) (h.scfsi ch bd)).bind_pure (g := t.setScfsi ch bd) rfl) s)
      { old with mainDataBegin := si.mainDataBegin, privateBits := si.privateBits }
    rw [foldl_scfsi] at hloop
    have hscfsi : (fun c b => if c < fh.channels ∧ b < MAX_SCFBD then si.scfsi c b
        else old.scfsi c b) = (old.overlay fh si).scfsi := by
      funext c b
      simp only [SideInfo.overlay, hver, true_and]
    rw [← hscfsi]
    exact hloop
  · rw [if_neg hver, if_neg hver]
    have hscfsi : old.scfsi = (old.overlay fh si).scfsi := by
      funext c b
      simp only [SideInfo.overlay, hver, false_and, if_false]
    rw [← hscfsi]
    exact Gets.pure _

theorem gets_subs (h : si.Fits fh) (base : SideInfo) :
    Gets (unpackSideInfoSubs fh base)
      ((List.range fh.ver.nGrans).flatMap fun gr =>
        (List.range fh.channels).flatMap fun ch => (si.sis gr ch).bits fh.ver)
      { base with sis := (base.overlay fh si).sis } := by
  have hloop := Gets.foldlM (List.range fh.ver.nGrans) (fun gr hgr s =>
    Gets.foldlM (List.range fh.channels) (fun ch hch t =>
      (gets_sub (h.sis gr (List.mem_range.mp hgr) ch (List.mem_range.mp hch)) (t.sis gr ch)).bind_pure
        (g := t.setSis gr ch) rfl) s) base
  have hsis := foldl_sis
      (fun gr ch old => old.overlay (si.sis gr ch)) fh.ver.nGrans fh.channels base
  rw [hsis] at hloop
  exact hloop

/-- **All of the side information.** -/
theorem gets_side_info (h : si.Fits fh) (old : SideInfo) :
    Gets (unpackSideInfoHead fh old >>= unpackSideInfoSubs fh) (si.bits fh) (old.overlay fh si) :=
  (gets_head h old).bind (gets_subs h _)

theorem length_sub_bits (ver : MPEGVersion) (sis : SideInfoSub) :
    (sis.bits ver).length = if ver = .mpeg1 then 59 else 63 := by
  have hblock : (if sis.winSwitchFlag ≠ 0 then sis.switchedBits else sis.normalBits).length = 22 := by
    split_ifs <;> rfl
  unfold SideInfoSub.bits
  simp only [List.length_append, length_ofNat, hblock]
  split_ifs <;> rfl

/-- Its length is what `UnpackSideInfo` says. -/
theorem length_bits (fh : FrameHeader) (si : SideInfo) : (si.bits fh).length = 8 * fh.siBytes := by
  have hloop : ∀ {m n k : ℕ} {f : ℕ → ℕ → List Bool}, (∀ i j, (f i j).length = k) →
      ((List.range m).flatMap fun i => (List.range n).flatMap (f i)).length = m * (n * k) := by
    intro m n k f hf
    simp [List.length_flatMap, hf]
  unfold SideInfo.bits SideInfo.headBits
  simp only [List.length_append, length_ofNat]
  rw [hloop (fun gr ch => length_sub_bits fh.ver (si.sis gr ch))]
  unfold FrameHeader.siBytes FrameHeader.channels
  cases fh.ver <;> cases fh.mono <;> simp [MPEGVersion.nGrans, MAX_SCFBD]

/-- A parser of all of the side information, on the buffer. -/
theorem unpackSideInfo_eq {buf : List UInt8} (hlen : fh.siBytes ≤ buf.length)
    (h : Gets (unpackSideInfoHead fh old >>= unpackSideInfoSubs fh)
      (ofBytes (buf.take fh.siBytes)) si) :
    unpackSideInfo fh old buf = some (fh.siBytes, si) := by
  have hstart := BitStreamInfo.reads_start hlen
  rw [← List.append_nil (ofBytes _)] at hstart
  obtain ⟨rfl, hreads, hlast, -⟩ := h _ _ hstart
  have hused := hreads.bitsUsed 0
  have hend : (setBitstreamPointer fh.siBytes buf).last = fh.siBytes := Nat.zero_add _
  rw [hlast, hend, List.length_nil] at hused
  unfold unpackSideInfo
  dsimp only
  rw [if_pos]
  rw [hused]
  omega

/-- The side information of one frame, with `tail` behind it. -/
theorem unpackSideInfo_bits (h : si.Fits fh) (old : SideInfo) (tail : List UInt8) :
    unpackSideInfo fh old (toBytes (si.bits fh) ++ tail) =
      some (fh.siBytes, old.overlay fh si) := by
  have hbits := length_bits fh si
  have hdvd : 8 ∣ (si.bits fh).length := ⟨fh.siBytes, hbits⟩
  have hlen : (toBytes (si.bits fh)).length = fh.siBytes := by
    rw [length_toBytes hdvd, hbits]
    omega
  refine unpackSideInfo_eq (by rw [List.length_append]; omega) ?_
  rw [← hlen, List.take_left, ofBytes_toBytes hdvd]
  exact gets_side_info h old

/-- A short block of a frame of MPEG 2. -/
def shortBlock : SideInfoSub :=
  { SideInfoSub.zero with
    part23Length := 1000
    nBigvals := 100
    winSwitchFlag := 1
    blockType := 2
    tableSelect := (13, 24, 0)
    region0Count := 8
    region1Count := 12 }

theorem shortBlock_fits : shortBlock.Fits .mpeg2 where
  part23Length := by decide
  nBigvals := by decide
  globalGain := by decide
  sfCompress := by decide
  block := Or.inl (by constructor <;> decide)
  preFlag := by decide
  sfactScale := by decide
  count1TableSelect := by decide

/-- The side information of frames, one after the other. -/
def unpackSideInfos (si : SideInfo) (frames : List (FrameHeader × List UInt8)) :
    Option SideInfo :=
  frames.foldlM (fun si f => (unpackSideInfo f.1 si f.2).map (·.2)) si

/-- **The side information that is written is read back**, whatever is behind it: in a stream of
frames each field has the value of the last frame that has it. -/
theorem side_info_round_trip (frames : List (FrameHeader × SideInfo × List UInt8))
    (h : ∀ f ∈ frames, f.2.1.Fits f.1) (old : SideInfo) :
    unpackSideInfos old (frames.map fun f => (f.1, toBytes (f.2.1.bits f.1) ++ f.2.2)) =
      some (frames.foldl (fun old f => old.overlay f.1 f.2.1) old) := by
  induction frames generalizing old with
  | nil => rfl
  | cons f frames ih =>
    have hf := unpackSideInfo_bits (h f List.mem_cons_self) old f.2.2
    rw [unpackSideInfos, List.map_cons, List.foldlM_cons, hf, List.foldl_cons]
    exact ih (fun g hg => h g (List.mem_cons_of_mem f hg)) _

theorem side_info_round_trip_short :
    let fh : FrameHeader := FrameHeader.read [0xff, 0xf3, 0x80, 0xc0]
    let si : SideInfo := { SideInfo.zero with mainDataBegin := 200, sis := fun _ _ => shortBlock }
    unpackSideInfos .zero [(fh, toBytes (si.bits fh) ++ [0xff])] =
      some (SideInfo.zero.overlay fh si) :=
  have hfits : SideInfo.Fits (FrameHeader.read [0xff, 0xf3, 0x80, 0xc0])
      { SideInfo.zero with mainDataBegin := 200, sis := fun _ _ => shortBlock } :=
    { mainDataBegin := by decide
      privateBits := by decide
      scfsi := fun _ _ => Nat.two_pow_pos 1
      sis := fun _ _ _ _ => shortBlock_fits }
  side_info_round_trip [(_, _, [0xff])] (List.forall_mem_singleton.mpr hfits) .zero

end RoundTrip

/-! ### Any bytes -/

/-- The ranges of the fields. -/
structure SideInfoSub.InRange (sis : SideInfoSub) : Prop where
  part23Length : sis.part23Length < 2 ^ 12
  nBigvals : sis.nBigvals < 2 ^ 9
  globalGain : sis.globalGain < 2 ^ 8
  sfCompress : sis.sfCompress < 2 ^ 9
  winSwitchFlag : sis.winSwitchFlag < 2 ^ 1
  blockType : sis.blockType < 2 ^ 2
  mixedBlock : sis.mixedBlock < 2 ^ 1
  table0 : sis.tableSelect.1 < 2 ^ 5
  table1 : sis.tableSelect.2.1 < 2 ^ 5
  table2 : sis.tableSelect.2.2 < 2 ^ 5
  gain0 : sis.subBlockGain.1 < 2 ^ 3
  gain1 : sis.subBlockGain.2.1 < 2 ^ 3
  gain2 : sis.subBlockGain.2.2 < 2 ^ 3
  region0Count : sis.region0Count < 2 ^ 4
  regions : sis.region0Count + sis.region1Count ≤ 22
  preFlag : sis.preFlag < 2 ^ 1
  sfactScale : sis.sfactScale < 2 ^ 1
  count1TableSelect : sis.count1TableSelect < 2 ^ 1

structure SideInfo.InRange (si : SideInfo) : Prop where
  mainDataBegin : si.mainDataBegin < 2 ^ 9
  privateBits : si.privateBits < 2 ^ 5
  scfsi : ∀ ch bd, si.scfsi ch bd < 2 ^ 1
  sis : ∀ gr ch, (si.sis gr ch).InRange

section InRange

variable {base : SideInfoSub} {old : SideInfo}

theorem SideInfoSub.zero_inRange : SideInfoSub.zero.InRange := by
  constructor <;> decide

theorem SideInfo.zero_inRange : SideInfo.zero.InRange where
  mainDataBegin := by decide
  privateBits := by decide
  scfsi := fun _ _ => Nat.two_pow_pos 1
  sis := fun _ _ => SideInfoSub.zero_inRange

theorem SideInfo.InRange.setScfsi (h : old.InRange) {v : ℕ} (hv : v < 2 ^ 1) (ch bd : ℕ) :
    (old.setScfsi ch bd v).InRange where
  mainDataBegin := h.mainDataBegin
  privateBits := h.privateBits
  scfsi := fun c b => by
    unfold SideInfo.setScfsi
    dsimp only
    split_ifs
    · exact hv
    · exact h.scfsi c b
  sis := h.sis

theorem SideInfo.InRange.setSis (h : old.InRange) {sub : SideInfoSub} (hsub : sub.InRange)
    (gr ch : ℕ) : (old.setSis gr ch sub).InRange where
  mainDataBegin := h.mainDataBegin
  privateBits := h.privateBits
  scfsi := h.scfsi
  sis := fun g c => by
    unfold SideInfo.setSis
    dsimp only
    split_ifs
    · exact hsub
    · exact h.sis g c

theorem takes_switched (h : base.InRange) :
    Takes (unpackSwitched base) (2 + (1 + (5 + (5 + (3 + (3 + (3 + 0)))))))
      SideInfoSub.InRange := by
  unfold unpackSwitched
  refine (Takes.getBits (by decide)).bind fun blockType hblock => ?_
  refine (Takes.getBits (by decide)).bind fun mixedBlock hmixed => ?_
  refine (Takes.getBits (by decide)).bind fun table0 htable0 => ?_
  refine (Takes.getBits (by decide)).bind fun table1 htable1 => ?_
  refine (Takes.getBits (by decide)).bind fun gain0 hgain0 => ?_
  refine (Takes.getBits (by decide)).bind fun gain1 hgain1 => ?_
  refine (Takes.getBits (by decide)).bind fun gain2 hgain2 => Takes.pure ?_
  have hblockInfo : SideInfoSub.InRange { base with
      blockType := blockType
      mixedBlock := mixedBlock
      tableSelect := (table0, table1, 0)
      subBlockGain := (gain0, gain1, gain2) } :=
    { h with
      blockType := hblock
      mixedBlock := hmixed
      table0 := htable0
      table1 := htable1
      table2 := Nat.two_pow_pos 5
      gain0 := hgain0
      gain1 := hgain1
      gain2 := hgain2 }
  have hregion := h.region0Count
  dsimp only
  split_ifs
  · -- type 0 is not allowed here: `region0Count` stays that of the block before
    exact { hblockInfo with
      part23Length := Nat.two_pow_pos 12
      nBigvals := Nat.two_pow_pos 9
      sfCompress := Nat.two_pow_pos 9
      regions := show base.region0Count + (20 - base.region0Count) ≤ 22 by omega }
  · exact { hblockInfo with
      region0Count := show 8 < 2 ^ 4 by decide
      regions := show 8 + (20 - 8) ≤ 22 by decide }
  · exact { hblockInfo with
      region0Count := show 7 < 2 ^ 4 by decide
      regions := show 7 + (20 - 7) ≤ 22 by decide }

theorem takes_normal (h : base.InRange) :
    Takes (unpackNormal base) (5 + (5 + (5 + (4 + (3 + 0))))) SideInfoSub.InRange := by
  unfold unpackNormal
  refine (Takes.getBits (by decide)).bind fun table0 htable0 => ?_
  refine (Takes.getBits (by decide)).bind fun table1 htable1 => ?_
  refine (Takes.getBits (by decide)).bind fun table2 htable2 => ?_
  refine (Takes.getBits (by decide)).bind fun region0Count hregion0 => ?_
  refine (Takes.getBits (by decide)).bind fun region1Count hregion1 => Takes.pure ?_
  exact { h with
    blockType := Nat.two_pow_pos 2
    mixedBlock := Nat.two_pow_pos 1
    table0 := htable0
    table1 := htable1
    table2 := htable2
    region0Count := hregion0
    regions := show region0Count + region1Count ≤ 22 by omega }

/-- The two kinds of blocks have the same length. -/
theorem takes_block (h : base.InRange) :
    Takes (unpackBlock base) 22 SideInfoSub.InRange := by
  unfold unpackBlock
  split_ifs
  · exact takes_switched h
  · exact takes_normal h

theorem takes_preFlag (ver : MPEGVersion) :
    Takes (unpackPreFlag ver) (if ver = .mpeg1 then 1 else 0) (· < 2 ^ 1) := by
  unfold unpackPreFlag
  split_ifs
  · exact Takes.getBits (by decide)
  · exact Takes.pure (by decide)

theorem takes_sub (ver : MPEGVersion) (h : base.InRange) :
    Takes (unpackSideInfoSub ver base) (if ver = .mpeg1 then 59 else 63)
      SideInfoSub.InRange := by
  have hlen : (if ver = .mpeg1 then 59 else 63) =
      12 + (9 + (8 + ((if ver = .mpeg1 then 4 else 9) + (1 + (22 +
        ((if ver = .mpeg1 then 1 else 0) + (1 + (1 + 0)))))))) := by split_ifs <;> rfl
  have hwidth : (if ver = .mpeg1 then 4 else 9) < 32 := by split_ifs <;> decide
  have hcompress : (2 : ℕ) ^ (if ver = .mpeg1 then 4 else 9) ≤ 2 ^ 9 := by split_ifs <;> decide
  rw [hlen]
  unfold unpackSideInfoSub
  refine (Takes.getBits (by decide)).bind fun part23Length hpart => ?_
  refine (Takes.getBits (by decide)).bind fun nBigvals hbig => ?_
  refine (Takes.getBits (by decide)).bind fun globalGain hgain => ?_
  refine (Takes.getBits hwidth).bind fun sfCompress hsf => ?_
  refine (Takes.getBits (by decide)).bind fun winSwitchFlag hwin => ?_
  have hnew : SideInfoSub.InRange { base with
      part23Length := part23Length
      nBigvals := nBigvals
      globalGain := globalGain
      sfCompress := sfCompress
      winSwitchFlag := winSwitchFlag } :=
    { h with
      part23Length := hpart
      nBigvals := hbig
      globalGain := hgain
      sfCompress := hsf.trans_le hcompress
      winSwitchFlag := hwin }
  refine (takes_block hnew).bind fun sis hsis => ?_
  refine (takes_preFlag ver).bind fun preFlag hpre => ?_
  refine (Takes.getBits (by decide)).bind fun sfactScale hscale => ?_
  refine (Takes.getBits (by decide)).bind fun count1TableSelect hcount1 => Takes.pure ?_
  exact { hsis with
    preFlag := hpre
    sfactScale := hscale
    count1TableSelect := hcount1 }

theorem takes_head (fh : FrameHeader) (h : old.InRange) :
    Takes (unpackSideInfoHead fh old) ((if fh.ver = .mpeg1 then 9 else 8) +
      ((if fh.ver = .mpeg1 then if fh.mono then 5 else 3 else if fh.mono then 1 else 2) +
        if fh.ver = .mpeg1 then fh.channels * (MAX_SCFBD * 1) else 0)) SideInfo.InRange := by
  have hbegin : (if fh.ver = .mpeg1 then 9 else 8) ≤ 9 := by split_ifs <;> decide
  have hprivate : (if fh.ver = .mpeg1 then if fh.mono then 5 else 3
      else if fh.mono then 1 else 2) ≤ 5 := by split_ifs <;> decide
  unfold unpackSideInfoHead
  refine (Takes.getBits (by omega)).bind fun mainDataBegin hmain => ?_
  refine (Takes.getBits (by omega)).bind fun privateBits hpriv => ?_
  have hnew : SideInfo.InRange { old with
      mainDataBegin := mainDataBegin
      privateBits := privateBits } :=
    { h with
      mainDataBegin := hmain.trans_le (Nat.pow_le_pow_right (by decide) hbegin)
      privateBits := hpriv.trans_le (Nat.pow_le_pow_right (by decide) hprivate) }
  dsimp only
  split_ifs
  · have hloop := Takes.foldlM (I := SideInfo.InRange) (List.range fh.channels)
      (fun ch _ s hs => Takes.foldlM (I := SideInfo.InRange) (List.range MAX_SCFBD)
        (fun bd _ t ht => (Takes.getBits (n := 1) (by decide)).bind
          fun v hv => Takes.pure (ht.setScfsi hv ch bd)) hs) hnew
    rw [List.length_range, List.length_range] at hloop
    exact hloop
  · exact Takes.pure hnew

theorem takes_subs (fh : FrameHeader) (h : old.InRange) :
    Takes (unpackSideInfoSubs fh old)
      (fh.ver.nGrans * (fh.channels * ((if fh.ver = .mpeg1 then 59 else 63) + 0)))
      SideInfo.InRange := by
  have hloop := Takes.foldlM (I := SideInfo.InRange) (List.range fh.ver.nGrans)
    (fun gr _ s hs => Takes.foldlM (I := SideInfo.InRange) (List.range fh.channels)
      (fun ch _ t ht => (takes_sub fh.ver (ht.sis gr ch)).bind
        fun sub hsub => Takes.pure (ht.setSis hsub gr ch)) hs) h
  rw [List.length_range, List.length_range] at hloop
  exact hloop

/-- One frame. -/
theorem unpackSideInfo_spec (fh : FrameHeader) (buf : List UInt8) (h : old.InRange)
    (hlen : fh.siBytes ≤ buf.length) :
    ∃ si, unpackSideInfo fh old buf = some (fh.siBytes, si) ∧ si.InRange := by
  have hbits : (ofBytes (buf.take fh.siBytes)).length = 8 * fh.siBytes := by
    rw [length_ofBytes, List.length_take, Nat.min_eq_left hlen]
  have htakes := (takes_head fh h).bind fun si hsi => takes_subs fh hsi
  obtain ⟨hrange, hreads, hlast, -⟩ := htakes _ _ _ (BitStreamInfo.reads_start hlen)
  have hused := hreads.bitsUsed 0
  have hend : (setBitstreamPointer fh.siBytes buf).last = fh.siBytes := Nat.zero_add _
  have hcount : (if fh.ver = .mpeg1 then 9 else 8) +
      ((if fh.ver = .mpeg1 then if fh.mono then 5 else 3 else if fh.mono then 1 else 2) +
        if fh.ver = .mpeg1 then fh.channels * (MAX_SCFBD * 1) else 0) +
      fh.ver.nGrans * (fh.channels * ((if fh.ver = .mpeg1 then 59 else 63) + 0)) =
        8 * fh.siBytes := by
    unfold FrameHeader.siBytes FrameHeader.channels
    cases fh.ver <;> cases fh.mono <;> rfl
  rw [hlast, hend, List.length_drop, hbits, hcount] at hused
  refine ⟨_, ?_, hrange⟩
  unfold unpackSideInfo
  dsimp only
  rw [if_pos]
  rw [hused]
  omega

end InRange

/-- **Whatever the bytes are**: no assertion fails, each frame takes just as many bytes as it says,
and the fields stay in their ranges, the region counts among them, which a block of type 0 with
switched windows takes from the frame before. -/
theorem side_info_total (frames : List (FrameHeader × List UInt8))
    (hlen : ∀ f ∈ frames, f.1.siBytes ≤ f.2.length) :
    ∃ si, unpackSideInfos .zero frames = some si ∧ si.InRange := by
  suffices h : ∀ old : SideInfo, old.InRange →
      ∃ si, unpackSideInfos old frames = some si ∧ si.InRange from h _ SideInfo.zero_inRange
  induction frames with
  | nil => exact fun old hold => ⟨old, rfl, hold⟩
  | cons f frames ih =>
    intro old hold
    obtain ⟨si, hsi, hrange⟩ := unpackSideInfo_spec f.1 f.2 hold (hlen f List.mem_cons_self)
    obtain ⟨last, hlast, hlrange⟩ := ih (fun g hg => hlen g (List.mem_cons_of_mem f hg)) si hrange
    refine ⟨last, ?_, hlrange⟩
    rw [unpackSideInfos, List.foldlM_cons, hsi]
    exact hlast

/-- All bits set: a block of type 3 with switched windows. -/
theorem side_info_total_ones :
    ∃ si, unpackSideInfos .zero
        [(FrameHeader.read [0xff, 0xf3, 0x80, 0xc0], List.replicate 9 0xff)] =
      some si ∧ si.InRange :=
  side_info_total _ (by decide)

end AudioPipeline
