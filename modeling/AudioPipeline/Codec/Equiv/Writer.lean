import AudioPipeline.Codec.Equiv.Spectrum
import AudioPipeline.Codec.Equiv.Stream

/-!
# Writing a stream

`writeStream` writes a stream from the scale factors and the values of its blocks.  It keeps what
the decoder keeps, as the scale factors of a block may be shared with those before.

* `granules_write`: the main data of a frame is decoded to what has been written;
* `stream_round_trip`: the element puts out what is synthesised from the scale factors and the
  values of a stream that is written.
-/

namespace AudioPipeline

open Bits StreamFrame

variable {S : Type}

/-! ### Scale factors -/

namespace SfLayout

/-- The scale factors `sfis`, but for those of the layout. -/
def put (layout : SfLayout) (sf sfis : ScaleFactorInfoSub) : ScaleFactorInfoSub where
  l := fun sfb => if .long sfb ∈ layout.cells then sf.l sfb else sfis.l sfb
  s := fun sfb w => if .short sfb w ∈ layout.cells then sf.s sfb w else sfis.s sfb w

instance (layout : SfLayout) (sf : ScaleFactorInfoSub) : Decidable (layout.Fits sf) :=
  inferInstanceAs (Decidable (∀ e ∈ layout, e.2.Fits (sf.get e.1)))

variable {layout : SfLayout} {sf : ScaleFactorInfoSub}

theorem plain_put (hfits : layout.Fits sf) (rest : List Bool) (sfis : ScaleFactorInfoSub) :
    layout.plain (layout.write sf ++ rest) sfis = layout.put sf sfis := by
  have h := plain_write hfits rest sfis
  ext sfb w
  · exact h (.long sfb)
  · exact h (.short sfb w)

theorem length_write (layout : SfLayout) (sf : ScaleFactorInfoSub) :
    (layout.write sf).length = layout.len := by
  have hentry : ∀ (v : ℕ) (src : SfSource), (src.write v).length = src.len := by
    intro v src
    cases src with
    | bits n => exact length_ofNat n v
    | known u => rfl
  rw [write, List.length_flatMap, len]
  simp only [hentry]

end SfLayout

/-! ### The main data of a frame -/

/-- What the main data of a block says. -/
structure BlockData where
  sf : ScaleFactorInfoSub
  spectrum : Spectrum

namespace PlainState

/-- What a step has written is what another one reads. -/
def Writes (step : PlainState S → Option (PlainState S)) (s s' : PlainState S) : Prop :=
  ∃ bits, s'.bits = s.bits ++ bits ∧
    ∀ more, step { s with bits := bits ++ more } = some { s' with bits := more }

theorem Writes.refl (s : PlainState S) : Writes some s s :=
  ⟨[], (List.append_nil _).symm, fun _ => rfl⟩

theorem Writes.bind {step step' : PlainState S → Option (PlainState S)} {s₁ s₂ s₃ : PlainState S}
    (h : Writes step s₁ s₂) (h' : Writes step' s₂ s₃) :
    Writes (fun s => (step s).bind step') s₁ s₃ := by
  obtain ⟨bits, hbits, hread⟩ := h
  obtain ⟨bits', hbits', hread'⟩ := h'
  refine ⟨bits ++ bits', by rw [hbits', hbits, List.append_assoc], fun more => ?_⟩
  show (step _).bind step' = _
  rw [List.append_assoc, hread, Option.bind_some, hread']

/-- The scale factors and the values of a block, if its side information is right. -/
def writeBlock (fh : FrameHeader) (modeExt gr ch : ℕ) (b : BlockData) (s : PlainState S) :
    Option (PlainState S) :=
  let sis := s.si.sis gr ch
  let layout := sfLayout fh.ver modeExt s.si s.sfi gr ch
  let bits := layout.write b.sf ++ b.spectrum.bits fh sis
  if layout.Fits b.sf ∧ b.spectrum.Fits fh sis ∧ sis.part23Length = bits.length then
    some
      { s with
        bits := s.bits ++ bits
        si := s.si.withPreFlag fh.ver modeExt gr ch
        sfi := (s.sfi.withIntensity fh.ver modeExt sis ch).setSfis gr ch
          (layout.put b.sf (s.sfi.sfis gr ch))
        hi := Function.update s.hi ch (.ofVals b.spectrum.vals) }
  else none

def writeChannels (fh : FrameHeader) (modeExt gr : ℕ) (data : ℕ → BlockData) (chs : List ℕ)
    (s : PlainState S) : Option (PlainState S) :=
  chs.foldlM (fun s ch => s.writeBlock fh modeExt gr ch (data ch)) s

def writeGranules (synth : Synth S) (fh : FrameHeader) (modeExt : ℕ) (data : ℕ → ℕ → BlockData)
    (grs : List ℕ) (s : PlainState S) : Option (PlainState S) :=
  grs.foldlM
    (fun s gr => (s.writeChannels fh modeExt gr (data gr) (List.range fh.channels)).map
      (granule synth fh modeExt gr)) s

variable {fh : FrameHeader} {modeExt gr ch : ℕ} {s s' : PlainState S}

theorem block_write {b : BlockData} (hsr : fh.srIdx < 3) (hsi : s.si.InRange)
    (h : s.writeBlock fh modeExt gr ch b = some s') :
    Writes (block fh modeExt gr ch) s s' ∧ s'.si.InRange := by
  unfold writeBlock at h
  dsimp only at h
  split_ifs at h with hfits
  obtain ⟨hsf, hspec, hlen⟩ := hfits
  obtain rfl := Option.some.inj h
  refine ⟨⟨_, rfl, fun more => ?_⟩, hsi.withPreFlag _ _ _ _⟩
  obtain ⟨layout, hlayout⟩ : ∃ l, sfLayout fh.ver modeExt s.si s.sfi gr ch = l := ⟨_, rfl⟩
  obtain ⟨sis, hsis⟩ : ∃ sis, s.si.sis gr ch = sis := ⟨_, rfl⟩
  have hcount : sfBits fh.ver modeExt s.si gr ch = (layout.write b.sf).length := by
    rw [SfLayout.length_write, ← hlayout, len_sfLayout]
  have hplain := plainHuffman_bits hsr (hsi.sis gr ch) hspec
  rw [hlayout] at hsf hlen
  rw [hsis] at hlen hplain
  -- `part2_3_length` is as long as both parts, and the scale factors end where their layout does
  unfold block
  dsimp only
  rw [hlayout, hsis, hlen, hcount, List.length_append, if_pos (by simp), ← List.length_append,
    List.take_left, List.drop_left, List.drop_left, hplain, Option.map_some,
    SfLayout.plain_put hsf]

theorem channels_write {data : ℕ → BlockData} (hsr : fh.srIdx < 3) (chs : List ℕ)
    (hsi : s.si.InRange) (h : s.writeChannels fh modeExt gr data chs = some s') :
    Writes (channels fh modeExt gr chs) s s' ∧ s'.si.InRange := by
  induction chs generalizing s with
  | nil =>
    obtain rfl := Option.some.inj h
    exact ⟨.refl s, hsi⟩
  | cons ch chs ih =>
    obtain ⟨s₁, hs₁, h⟩ := Option.bind_eq_some_iff.mp h
    obtain ⟨hblock, hsi₁⟩ := block_write hsr hsi hs₁
    obtain ⟨hchs, hsi'⟩ := ih hsi₁ h
    exact ⟨hblock.bind hchs, hsi'⟩

/-- **The main data that is written is read**, bit by bit. -/
theorem granules_write (synth : Synth S) {data : ℕ → ℕ → BlockData} (hsr : fh.srIdx < 3)
    (grs : List ℕ) (hsi : s.si.InRange)
    (h : s.writeGranules synth fh modeExt data grs = some s') :
    Writes (granules synth fh modeExt grs) s s' ∧ s'.si.InRange := by
  -- by induction on the granules, with what the one before has kept
  induction grs generalizing s with
  | nil =>
    obtain rfl := Option.some.inj h
    exact ⟨.refl s, hsi⟩
  | cons gr grs ih =>
    obtain ⟨s₁, hs₁, h⟩ := Option.bind_eq_some_iff.mp h
    obtain ⟨s₀, hs₀, rfl⟩ := Option.map_eq_some_iff.mp hs₁
    obtain ⟨⟨bits, hbits, hread⟩, hsi₀⟩ := channels_write hsr _ hsi hs₀
    -- the synthesis of a granule leaves the bits as they are
    have hgranule : Writes (fun s => (s.channels fh modeExt gr (List.range fh.channels)).map
        (granule synth fh modeExt gr)) s (s₀.granule synth fh modeExt gr) :=
      ⟨bits, hbits, fun more => congrArg (Option.map _) (hread more)⟩
    obtain ⟨hgrs, hsi'⟩ := ih (s := s₀.granule synth fh modeExt gr) hsi₀ h
    exact ⟨hgranule.bind hgrs, hsi'⟩

end PlainState

/-! ### The frames -/

/-- What a frame says: the parts of its header, and the data of its blocks. -/
structure FrameData where
  header : List UInt8
  si : SideInfo
  blocks : ℕ → ℕ → BlockData

namespace FrameData

def fh (c : FrameData) : FrameHeader := FrameHeader.read c.header

/-- The frames, with the bytes `data` in their slots. -/
def lay : List UInt8 → List (FrameData × List UInt8) → List StreamFrame
  | _, [] => []
  | data, c :: cs =>
    let n := c.1.fh.nSlots.toNat
    { header := c.1.header
      si := c.1.si
      slots := (data ++ List.replicate n 0).take n
      main := c.2 } :: lay (data.drop n) cs

theorem lay_main (data : List UInt8) (cs : List (FrameData × List UInt8)) :
    (lay data cs).flatMap StreamFrame.main = cs.flatMap Prod.snd := by
  induction cs generalizing data with
  | nil => rfl
  | cons c cs ih =>
    unfold lay
    rw [List.flatMap_cons, List.flatMap_cons, ih]

/-- The slots have the data, if there are so many. -/
theorem lay_slots (data : List UInt8) (cs : List (FrameData × List UInt8))
    (hlen : data.length ≤ ((lay data cs).flatMap StreamFrame.slots).length) :
    data <+: (lay data cs).flatMap StreamFrame.slots := by
  induction cs generalizing data with
  | nil =>
    obtain rfl := List.length_eq_zero_iff.mp (Nat.le_zero.mp hlen)
    exact List.nil_prefix
  | cons c cs ih =>
    unfold lay at hlen ⊢
    dsimp only at hlen ⊢
    obtain ⟨n, hn⟩ : ∃ n, c.1.fh.nSlots.toNat = n := ⟨_, rfl⟩
    rw [hn] at hlen ⊢
    rw [List.flatMap_cons] at hlen ⊢
    rcases Nat.le_total n data.length with hle | hge
    · -- the slots are full of data, and the rest of it is in the frames behind
      rw [List.take_append_of_le_length hle] at hlen ⊢
      have hrest := ih (data.drop n) (by
        rw [List.length_append, List.length_take] at hlen
        rw [List.length_drop]
        omega)
      calc data = data.take n ++ data.drop n := (List.take_append_drop n data).symm
        _ <+: data.take n ++ _ := List.prefix_append_right_inj _ |>.mpr hrest
    · -- the data ends here, with zeros behind it
      rw [List.take_append, List.take_of_length_le hge, List.append_assoc]
      exact List.prefix_append _ _

end FrameData

namespace PlainDecoder

/-- The main data of a frame, and its samples. -/
def writeFrame (synth : Synth S) (d : PlainDecoder S) (c : FrameData) :
    Option (PlainDecoder S × List UInt8 × List UInt16) :=
  (PlainState.writeGranules synth c.fh (FrameHeader.modeExt c.header) c.blocks
    (List.range c.fh.ver.nGrans)
    { bits := [], si := d.si.overlay c.fh c.si, sfi := d.sfi, hi := d.hi, synth := d.synth,
      outbuf := [] }).map fun s =>
    ({ si := s.si, sfi := s.sfi, hi := s.hi, synth := s.synth }, toBytes (pad s.bits), s.outbuf)

/-- The main data of the frames, and their samples. -/
def writeFrames (synth : Synth S) (d : PlainDecoder S) :
    List FrameData → Option (List (FrameData × List UInt8) × List (List UInt16))
  | [] => some ([], [])
  | c :: cs =>
    (d.writeFrame synth c).bind fun r =>
      (writeFrames synth r.1 cs).map fun rs => ((c, r.2.1) :: rs.1, r.2.2 :: rs.2)

/-- **A frame that is written is decoded**, whatever its slots are. -/
theorem decode_writeFrame (synth : Synth S) {d d' : PlainDecoder S} {c : FrameData}
    {main : List UInt8} {pcm : List UInt16} (hsr : c.fh.srIdx < 3) (hsi : d.si.InRange)
    (hfits : c.si.Fits c.fh) (h : d.writeFrame synth c = some (d', main, pcm))
    (slots : List UInt8) :
    d.decode synth { header := c.header, si := c.si, slots := slots, main := main } =
      some (d', pcm) ∧ d'.si.InRange := by
  obtain ⟨s, hs, heq⟩ := Option.map_eq_some_iff.mp h
  rw [Prod.mk.injEq, Prod.mk.injEq] at heq
  obtain ⟨rfl, rfl, rfl⟩ := heq
  obtain ⟨⟨bits, hbits, hread⟩, hsi'⟩ :=
    PlainState.granules_write synth hsr _ (hsi.overlay hfits) hs
  rw [List.nil_append] at hbits
  refine ⟨?_, hsi'⟩
  -- the bits that fill up the last byte are left over
  unfold decode
  dsimp only
  rw [ofBytes_toBytes (dvd_length_pad _), pad, hbits]
  exact congrArg (Option.map _) (hread _)

theorem run_writeFrames (synth : Synth S) {d : PlainDecoder S} {cs : List FrameData}
    {written : List (FrameData × List UInt8)} {pcms : List (List UInt16)} (hsi : d.si.InRange)
    (h : d.writeFrames synth cs = some (written, pcms)) (data : List UInt8)
    (hfits : ∀ fr ∈ FrameData.lay data written, fr.Fits) :
    ∃ d', d.run synth (FrameData.lay data written) = some (d', pcms) := by
  induction cs generalizing d written pcms data with
  | nil =>
    obtain ⟨rfl, rfl⟩ := Prod.mk.inj (Option.some.inj h)
    exact ⟨d, rfl⟩
  | cons c cs ih =>
    obtain ⟨⟨d₁, main, pcm⟩, hr, h⟩ := Option.bind_eq_some_iff.mp h
    obtain ⟨rs, hrs, heq⟩ := Option.map_eq_some_iff.mp h
    obtain ⟨rfl, rfl⟩ := Prod.mk.inj heq
    have hfit := hfits _ List.mem_cons_self
    obtain ⟨hdecode, hsi₁⟩ := decode_writeFrame synth hfit.accepted.srIdx hsi hfit.si hr _
    obtain ⟨d', hd'⟩ := ih hsi₁ hrs _ fun fr hfr => hfits fr (List.mem_cons_of_mem _ hfr)
    refine ⟨d', ?_⟩
    unfold FrameData.lay PlainDecoder.run
    dsimp only
    rw [hdecode, Option.bind_some, hd', Option.map_some]

end PlainDecoder

/-- The frames of a stream, whose main data lies in their slots without a gap, and the samples. -/
def writeStream (synth : Synth S) (s : S) (cs : List FrameData) :
    Option (List StreamFrame × List (List UInt16)) :=
  ((PlainDecoder.init s).writeFrames synth cs).map fun r =>
    (FrameData.lay (r.1.flatMap Prod.snd) r.1, r.2)

/-- **A stream that is written is decoded**: if the side information of its frames says where the
main data lies in the slots, the element puts out what is synthesised from the scale factors and the
values that were written, and does not fail, however the stream is cut into pieces, exactly if no
call waits for fewer bytes than there are of an incomplete frame. -/
theorem stream_round_trip (synth : Synth S) (s : S) (behind : List UInt8)
    (hbehind : 38 ≤ behind.length) (bufSize : ℤ) {cs : List FrameData} {frames : List StreamFrame}
    {pcms : List (List UInt16)} (hwrite : writeStream synth s cs = some (frames, pcms))
    (hfits : ∀ fr ∈ frames, fr.Fits) (hlaid : Laid 0 frames) (chunks : List (List UInt8))
    (hchunks : chunks.flatten = frames.flatMap StreamFrame.bytes) :
    ∃ rs, mp3Run (helix synth behind s) 0 (.fresh (helix synth behind s) bufSize)
        (chunks.map (fun bs => (.data bs, acceptAll)) ++ [(.code AEL_IO_DONE, acceptAll)]) =
        some rs ∧
      ((rs.flatMap Prod.snd =
          (List.zipWith StreamFrame.toMp3Frame frames pcms).flatMap Mp3Frame.pcm ∧
        ∀ r ∈ rs, r.1 ≠ ESP_CODEC_ERR_FAIL) ↔
        Held.Ample ⟨List.zipWith StreamFrame.toMp3Frame frames pcms, 0, 512⟩
          (chunks.map List.length)) := by
  obtain ⟨⟨written, pcms'⟩, hwritten, heq⟩ := Option.map_eq_some_iff.mp hwrite
  obtain ⟨hframes, rfl⟩ := Prod.mk.inj heq
  obtain ⟨p, hp⟩ := PlainDecoder.run_writeFrames synth SideInfo.zero_inRange hwritten
    (written.flatMap Prod.snd) (by rw [hframes]; exact hfits)
  have hmain := FrameData.lay_main (written.flatMap Prod.snd) written
  have hslots := FrameData.lay_slots (written.flatMap Prod.snd) written
  rw [hframes] at hp hmain hslots
  -- the frames have slots for all of the main data, by the side information of the last one
  have hlaid' : Laid 0 (frames ++ []) := by rwa [List.append_nil]
  obtain ⟨ahead, -, hsum⟩ := hlaid'.split
  rw [Nat.zero_add, hmain] at hsum
  have hgap : Gapless frames := ⟨hfits, hlaid, hmain.symm ▸ hslots (by omega)⟩
  have hstart := holds_stream synth s behind hbehind bufSize hgap hp
  rw [← hchunks] at hstart
  exact hstart.run chunks

/-! ### Two frames -/

/-- The frames of `pairBlock`, of which the second one starts in the slots of the first. -/
def pairData (mainDataBegin : ℕ) : FrameData where
  header := smallHeader
  si := { SideInfo.zero with mainDataBegin := mainDataBegin, sis := fun _ _ => pairBlock }
  blocks := fun _ _ => { sf := ScaleFactorInfo.zero.sfis 0 0, spectrum := smallSpectrum }

theorem pairBlock_fits : pairBlock.Fits (FrameHeader.read smallHeader).ver where
  part23Length := by decide
  nBigvals := by decide
  globalGain := by decide
  sfCompress := by decide
  block := Or.inr (by constructor <;> decide)
  preFlag := by decide
  sfactScale := by decide
  count1TableSelect := by decide

def pairFrames : List StreamFrame :=
  [smallFrame 0 pairBlock [0x0d, 0x20, 0x0d, 0x20, 0, 0, 0, 0, 0, 0, 0] [0x0d, 0x20],
    smallFrame 9 pairBlock (List.replicate 11 0) [0x0d, 0x20]]

theorem pairFrames_write :
    writeStream boundSynth () [pairData 0, pairData 9] = some (pairFrames, [[6], [6]]) := by
  rfl

/-- The stream in two pieces, the first of which ends inside of the second frame. -/
theorem stream_round_trip_two :
    let H := helix boundSynth (List.replicate 38 0) ()
    let bytes := pairFrames.flatMap StreamFrame.bytes
    ∃ rs, mp3Run H 0 (.fresh H 1024)
        [(.data (bytes.take 30), acceptAll), (.data (bytes.drop 30), acceptAll),
          (.code AEL_IO_DONE, acceptAll)] = some rs ∧
      rs.flatMap Prod.snd =
        (pairFrames.map fun fr => fr.toMp3Frame [6]).flatMap Mp3Frame.pcm ∧
      ∀ r ∈ rs, r.1 ≠ ESP_CODEC_ERR_FAIL := by
  intro H bytes
  have hfits : ∀ fr ∈ pairFrames, fr.Fits := by
    intro fr hfr
    rcases List.mem_cons.mp hfr with rfl | hfr
    · exact smallFrame_fits (by decide) pairBlock_fits rfl
    · rw [List.mem_singleton.mp hfr]
      exact smallFrame_fits (by decide) pairBlock_fits rfl
  have hlaid : Laid 0 pairFrames := ⟨rfl, by decide, rfl, by decide, trivial⟩
  obtain ⟨rs, hrs, hiff⟩ := stream_round_trip boundSynth () (List.replicate 38 0) (by decide) 1024
    pairFrames_write hfits hlaid [bytes.take 30, bytes.drop 30]
    (by rw [List.flatten_cons, List.flatten_singleton, List.take_append_drop])
  exact ⟨rs, hrs, hiff.mpr (by decide)⟩

end AudioPipeline
