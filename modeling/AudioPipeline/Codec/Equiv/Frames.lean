import AudioPipeline.Codec.Equiv.Granules
import AudioPipeline.Codec.Equiv.MainData

/-!
# Frames

`MP3Decode` as a whole, call after call.

* `decode_run_safe`: whatever the bytes are, no call leaves a buffer or a table as long as the side
  information is sound;
* `decode_run_plain`: in a stream whose main data lies in the slots without a gap, the calls give
  the samples that are decoded from the main data of each frame, bit by bit.
-/

namespace AudioPipeline

open Bits StreamFrame

variable {S : Type}

/-! ### One call -/

/-- The side information that is read in a call is sound. -/
def Mp3Decoder.Sound (d : Mp3Decoder S) (inbuf : List UInt8) : Prop :=
  ∀ r ∈ unpackSideInfo (FrameHeader.read inbuf) d.front.si
    (inbuf.drop (FrameHeader.read inbuf).fhBytes), r.2.Sound (FrameHeader.read inbuf)

/-- What a call keeps: the reservoir, and the arrays. -/
structure Mp3Decoder.Keeps (d : Mp3Decoder S) (hist : List UInt8) : Prop where
  front : d.front.Keeps hist
  sfi : d.sfi.InShape

theorem Mp3Decoder.init_keeps (s : S) : (Mp3Decoder.init s).Keeps [] where
  front := Mp3Front.init_keeps
  sfi := ScaleFactorInfo.zero_inShape

/-- The side information that the granules leave. -/
theorem Mp3Front.Keeps.withSi {f : Mp3Front} {hist : List UInt8} (h : f.Keeps hist)
    {si : SideInfo} (hsi : si.InRange) : ({ f with si := si } : Mp3Front).Keeps hist :=
  ⟨h.length, h.bytes, h.suffix, h.free, hsi⟩

/-- The loops over the granules start at the first bit. -/
theorem granules_start {f : Mp3Front} {hist : List UInt8} (h : f.Keeps hist)
    {sfi : ScaleFactorInfo} (hsfi : sfi.InShape) (hi : ℕ → HuffmanInfo) (s : S) :
    GranuleState.At f.mainBuf f.mainDataBytes 0
      { mainPtr := f.mainBuf, bitOffset := 0, mainBits := f.mainDataBytes * 8, si := f.si,
        sfi := sfi, hi := hi, synth := s, outbuf := [] } where
  ptr := ⟨0, rfl, rfl⟩
  off := Nat.zero_lt_succ 7
  left := by
    dsimp only
    omega
  mem := h.length ▸ h.bytes
  si := h.si
  sfi := hsfi

/-- One call after the other: what is left, and what the calls return. -/
def Mp3Decoder.run (synth : Synth S) (d : Mp3Decoder S) :
    List (List UInt8 × ℤ) → Option (Mp3Decoder S × List (DecodeResult S))
  | [] => some (d, [])
  | b :: calls =>
    (d.decode synth b.1 b.2 false).bind fun r =>
      (run synth r.dec calls).map fun rs => (rs.1, r :: rs.2)

/-- One sample for the values that are not 0. -/
def boundSynth : Synth Unit := fun _ _ _ _ _ hi s => (s, hi, [UInt16.ofNat (hi 0).nonZeroBound])

/-- One quad. -/
def quadBlock : SideInfoSub :=
  { SideInfoSub.zero with
    part23Length := 8
    count1TableSelect := 1 }

theorem quadBlock_fits : quadBlock.Fits (FrameHeader.read smallHeader).ver where
  part23Length := by decide
  nBigvals := by decide
  globalGain := by decide
  sfCompress := by decide
  block := Or.inr (by constructor <;> decide)
  preFlag := by decide
  sfactScale := by decide
  count1TableSelect := by decide

/-- The quad of the second frame is in the slots of the first. -/
def quadFrames : List StreamFrame :=
  [smallFrame 0 quadBlock [0x08, 0x0f, 0, 0, 0, 0, 0, 0, 0, 0, 0] [0x08],
    smallFrame 10 quadBlock (List.replicate 11 0) [0x0f]]

/-- What is kept from one frame to the next, but for the reservoir. -/
structure PlainDecoder (S : Type) where
  si : SideInfo
  sfi : ScaleFactorInfo
  hi : ℕ → HuffmanInfo
  synth : S

namespace PlainDecoder

def init (s : S) : PlainDecoder S where
  si := .zero
  sfi := .zero
  hi := fun _ => .zero
  synth := s

/-- A frame is decoded from its side information and its own main data. -/
def decode (synth : Synth S) (d : PlainDecoder S) (fr : StreamFrame) :
    Option (PlainDecoder S × List UInt16) :=
  (PlainState.granules synth fr.fh (FrameHeader.modeExt fr.header) (List.range fr.fh.ver.nGrans)
    { bits := ofBytes fr.main, si := d.si.overlay fr.fh fr.si, sfi := d.sfi, hi := d.hi,
      synth := d.synth, outbuf := [] }).map fun s =>
    ({ si := s.si, sfi := s.sfi, hi := s.hi, synth := s.synth }, s.outbuf)

/-- The samples of the frames. -/
def run (synth : Synth S) (d : PlainDecoder S) :
    List StreamFrame → Option (PlainDecoder S × List (List UInt16))
  | [] => some (d, [])
  | fr :: frs =>
    (d.decode synth fr).bind fun r =>
      (run synth r.1 frs).map fun rs => (rs.1, r.2 :: rs.2)

end PlainDecoder

/-- What is behind the bits of a block does not matter. -/
theorem PlainState.block_append {fh : FrameHeader} {modeExt gr ch : ℕ} {s s' : PlainState S}
    (h : s.block fh modeExt gr ch = some s') (more : List Bool) :
    ({ s with bits := s.bits ++ more } : PlainState S).block fh modeExt gr ch =
      some { s' with bits := s'.bits ++ more } := by
  unfold PlainState.block at h ⊢
  dsimp only at h ⊢
  split_ifs at h with hfits
  obtain ⟨vals, hvals, rfl⟩ := Option.map_eq_some_iff.mp h
  rw [if_pos ⟨hfits.1, by rw [List.length_append]; omega⟩, List.take_append_of_le_length hfits.2,
    hvals, Option.map_some, List.drop_append_of_le_length hfits.2]

theorem PlainState.channels_append {fh : FrameHeader} {modeExt gr : ℕ} (chs : List ℕ)
    {s s' : PlainState S} (h : s.channels fh modeExt gr chs = some s') (more : List Bool) :
    ({ s with bits := s.bits ++ more } : PlainState S).channels fh modeExt gr chs =
      some { s' with bits := s'.bits ++ more } := by
  induction chs generalizing s with
  | nil =>
    obtain rfl := Option.some.inj h
    rfl
  | cons ch chs ih =>
    unfold PlainState.channels at h ⊢
    rw [List.foldlM_cons] at h ⊢
    obtain ⟨s₁, hs₁, h⟩ := Option.bind_eq_some_iff.mp h
    rw [PlainState.block_append hs₁]
    exact ih h

theorem PlainState.granules_append (synth : Synth S) {fh : FrameHeader} {modeExt : ℕ}
    (grs : List ℕ) {s s' : PlainState S} (h : s.granules synth fh modeExt grs = some s')
    (more : List Bool) :
    ({ s with bits := s.bits ++ more } : PlainState S).granules synth fh modeExt grs =
      some { s' with bits := s'.bits ++ more } := by
  induction grs generalizing s with
  | nil =>
    obtain rfl := Option.some.inj h
    rfl
  | cons gr grs ih =>
    unfold PlainState.granules at h ⊢
    rw [List.foldlM_cons] at h ⊢
    obtain ⟨s₁, hs₁, h⟩ := Option.bind_eq_some_iff.mp h
    obtain ⟨s₀, hs₀, rfl⟩ := Option.map_eq_some_iff.mp hs₁
    rw [PlainState.channels_append _ hs₀, Option.map_some]
    exact ih h

/-- The decoder has what the plain one has, and the end `hist` of the slots. -/
structure Mp3Decoder.Follows (d : Mp3Decoder S) (p : PlainDecoder S)
    (hist : List UInt8) : Prop where
  keeps : d.Keeps hist
  si : d.front.si = p.si
  sfi : d.sfi = p.sfi
  hi : d.hi = p.hi
  synth : d.synth = p.synth

section

variable {d : Mp3Decoder S} {p p' : PlainDecoder S} {pre post : List StreamFrame}
  {fr : StreamFrame} {pcm : List UInt16}

theorem modeExt_congr {buf buf' : List UInt8} (h : buf.take 4 = buf'.take 4) :
    FrameHeader.modeExt buf = FrameHeader.modeExt buf' := by
  unfold FrameHeader.modeExt
  rw [getD_of_take h (i := 3) (by decide)]

/-- The main data that a frame is decoded from is its own, with that of the frames that follow. -/
theorem main_at_front (hgap : Gapless (pre ++ fr :: post)) {f : Mp3Front}
    (h : f.Keeps (pre.flatMap StreamFrame.slots ++ fr.slots))
    (hbytes : f.mainDataBytes = fr.si.mainDataBegin + fr.slots.length) :
    ∃ more, ofBytes (f.mainBuf.take f.mainDataBytes) = ofBytes fr.main ++ more := by
  obtain ⟨hmain, -, -⟩ := main_at hgap
  have hlen : (f.mainBuf.take f.mainDataBytes).length = fr.si.mainDataBegin + fr.slots.length := by
    rw [List.length_take, h.length, Nat.min_eq_left h.bytes, hbytes]
  have hsuffix := List.suffix_iff_eq_drop.mp h.suffix
  rw [List.flatMap_append, List.flatMap_singleton, ← hlen, ← hsuffix] at hmain
  obtain ⟨more, hmore⟩ := hmain
  exact ⟨ofBytes more, by rw [← ofBytes_append, hmore]⟩

/-- **One frame of a stream** is decoded from its own main data. -/
theorem decode_frame_plain (synth : Synth S) (hgap : Gapless (pre ++ fr :: post))
    (h : d.Follows p (pre.flatMap StreamFrame.slots))
    (hbegin : fr.si.mainDataBegin ≤ d.front.mainDataBytes)
    (hplain : p.decode synth fr = some (p', pcm)) (tail : List UInt8) (bytesLeft : ℤ)
    (hwhole : fr.bytes.length ≤ bytesLeft) (hleft : bytesLeft ≤ (fr.call tail).2) :
    ∃ r, d.decode synth (fr.call tail).1 bytesLeft false = some r ∧
      r.err = ERR_MP3_NONE ∧ r.consumed = fr.bytes.length ∧ r.outbuf = pcm ∧
      r.dec.Follows p' ((pre ++ [fr]).flatMap StreamFrame.slots) ∧
      r.dec.front.mainDataBytes = fr.si.mainDataBegin + fr.slots.length ∧
      r.dec.front.info = (unpackFrameHeader d.front.info (fr.call tail).1).2 := by
  have hfit := hgap.fits fr (List.mem_append_right pre List.mem_cons_self)
  have hsr : fr.fh.srIdx < 3 := hfit.accepted.srIdx
  have hread := read_call hfit tail
  have hmode : FrameHeader.modeExt (fr.call tail).1 = FrameHeader.modeExt fr.header :=
    modeExt_congr (take_call hfit tail)
  obtain ⟨r, hr, hcons, -, hkeeps, hrsi, hinfo, hok, -⟩ :=
    decode_frame hfit h.keeps.front tail hwhole hleft
  obtain ⟨herr, hptr, hbytes⟩ := hok hbegin
  -- the main data buffer starts with the main data of the frame
  obtain ⟨more, hmore⟩ := main_at_front hgap hkeeps hbytes
  obtain ⟨s, hs, hs'⟩ := Option.map_eq_some_iff.mp hplain
  rw [Prod.mk.injEq] at hs'
  obtain ⟨rfl, rfl⟩ := hs'
  have hstart : GranuleState.Has r.front.mainBuf r.front.mainDataBytes
      { bits := ofBytes fr.main ++ more, si := p.si.overlay fr.fh fr.si, sfi := p.sfi, hi := p.hi,
        synth := p.synth, outbuf := [] }
      { mainPtr := r.front.mainBuf, bitOffset := 0, mainBits := r.front.mainDataBytes * 8,
        si := r.front.si, sfi := d.sfi, hi := d.hi, synth := d.synth, outbuf := [] } :=
    ⟨⟨0, granules_start hkeeps h.keeps.sfi d.hi d.synth, Nat.zero_le _,
      by rw [List.drop_zero, hmore]⟩, by rw [hrsi, h.si], h.sfi, h.hi, h.synth, rfl⟩
  obtain ⟨g, hg, ⟨pos, hat, -, -⟩, hsi, hsfi, hhi, hsynth, hout⟩ :=
    GranuleState.granules_plain synth hsr _ hstart
      (PlainState.granules_append synth _ hs more)
  unfold Mp3Decoder.decode
  rw [hr, Option.bind_some]
  dsimp only
  rw [if_neg (not_not.mpr herr), hread, hmode, hptr, hg, Option.map_some]
  refine ⟨_, rfl, rfl, hcons, hout, ⟨⟨?_, hat.sfi⟩, hsi, hsfi, hhi, hsynth⟩, hbytes, hinfo⟩
  rw [List.flatMap_append, List.flatMap_singleton]
  exact hkeeps.withSi hat.si

end

/-- The frames `rest` of a stream, behind the frames `pre`. -/
theorem run_plain (synth : Synth S) (pre : List StreamFrame)
    (rest : List (StreamFrame × List UInt8)) {d : Mp3Decoder S} {p p' : PlainDecoder S}
    {pcms : List (List UInt16)} {ahead : ℕ}
    (hgap : Gapless (pre ++ rest.map Prod.fst)) (hlaid : Laid ahead (rest.map Prod.fst))
    (hahead : ahead ≤ d.front.mainDataBytes) (h : d.Follows p (pre.flatMap StreamFrame.slots))
    (hplain : p.run synth (rest.map Prod.fst) = some (p', pcms)) :
    ∃ rs, d.run synth (rest.map fun x => x.1.call x.2) = some rs ∧
      rs.2.map (fun r => (r.err, r.consumed, r.outbuf)) =
        List.zipWith (fun x pcm => (ERR_MP3_NONE, (x.1.bytes.length : ℤ), pcm)) rest pcms := by
  -- by induction on the frames, with the slots of those before as the history
  induction rest generalizing d p pre pcms ahead with
  | nil => exact ⟨_, rfl, rfl⟩
  | cons x rest ih =>
    obtain ⟨hbegin, hmain, hlaid'⟩ := hlaid
    unfold PlainDecoder.run at hplain
    obtain ⟨r, hr, hplain⟩ := Option.bind_eq_some_iff.mp hplain
    obtain ⟨rs, hrs, heq⟩ := Option.map_eq_some_iff.mp hplain
    rw [Prod.mk.injEq] at heq
    obtain ⟨rfl, rfl⟩ := heq
    obtain ⟨r', hr', herr, hcons, hout, hfollows, hbytes, -⟩ := decode_frame_plain synth hgap h
      (hbegin ▸ hahead) hr x.2 _ (le_call x.1 x.2) le_rfl
    obtain ⟨rs', hrs', hall⟩ := ih (pre ++ [x.1])
      (by rwa [List.append_assoc]) hlaid' (by omega) hfollows hrs
    refine ⟨(rs'.1, r' :: rs'.2), ?_, ?_⟩
    · rw [List.map_cons, Mp3Decoder.run, hr', Option.bind_some, hrs', Option.map_some]
    · rw [List.map_cons, hall, herr, hcons, hout, List.zipWith_cons_cons]

/-- **A stream is decoded**: if its main data lies in the slots of its frames without a gap, and can
be decoded frame by frame and bit by bit, each call returns 0, takes the bytes of one frame, and
gives the samples of its own main data. -/
theorem decode_run_plain (synth : Synth S) (s : S) (frames : List (StreamFrame × List UInt8))
    {p : PlainDecoder S} {pcms : List (List UInt16)} (hgap : Gapless (frames.map Prod.fst))
    (hplain : (PlainDecoder.init s).run synth (frames.map Prod.fst) = some (p, pcms)) :
    ∃ rs, (Mp3Decoder.init s).run synth (frames.map fun x => x.1.call x.2) = some rs ∧
      rs.2.map (fun r => (r.err, r.consumed, r.outbuf)) =
        List.zipWith (fun x pcm => (ERR_MP3_NONE, (x.1.bytes.length : ℤ), pcm)) frames pcms :=
  run_plain synth [] frames hgap hgap.laid (Nat.zero_le _)
    ⟨Mp3Decoder.init_keeps s, rfl, rfl, rfl, rfl⟩ hplain

theorem quadFrames_gapless : Gapless quadFrames where
  fits := fun fr hfr => by
    rcases List.mem_cons.mp hfr with rfl | hfr
    · exact smallFrame_fits (by decide) quadBlock_fits rfl
    · rw [List.mem_singleton.mp hfr]
      exact smallFrame_fits (by decide) quadBlock_fits rfl
  laid := ⟨rfl, by decide, rfl, by decide, trivial⟩
  main := ⟨[0, 0, 0, 0, 0, 0, 0, 0, 0] ++ List.replicate 11 0, rfl⟩

theorem quadFrames_plain :
    ∃ p, (PlainDecoder.init ()).run boundSynth quadFrames = some (p, [[4], [4]]) := by
  have hrun : ((PlainDecoder.init ()).run boundSynth quadFrames).map Prod.snd =
      some [[4], [4]] := by
    decide
  obtain ⟨r, hr, hpcms⟩ := Option.map_eq_some_iff.mp hrun
  exact ⟨r.1, by rw [hr, ← hpcms]⟩

theorem decode_run_plain_two :
    ∃ rs, (Mp3Decoder.init ()).run boundSynth (quadFrames.map fun fr => fr.call [0xff]) = some rs ∧
      rs.2.map (fun r => (r.err, r.consumed, r.outbuf)) =
        [(ERR_MP3_NONE, 24, [4]), (ERR_MP3_NONE, 24, [4])] := by
  obtain ⟨p, hp⟩ := quadFrames_plain
  obtain ⟨rs, hrs, hall⟩ := decode_run_plain boundSynth () (quadFrames.map fun fr => (fr, [0xff]))
    quadFrames_gapless hp
  exact ⟨rs, hrs, by rw [hall]; decide⟩

end AudioPipeline
