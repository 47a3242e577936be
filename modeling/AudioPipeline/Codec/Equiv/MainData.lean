import AudioPipeline.Codec.Equiv.Divisor
import AudioPipeline.Codec.Equiv.SideInfo
import AudioPipeline.Codec.MainData
import Mathlib.Data.List.Infix

/-!
# The bit reservoir

What `MP3Decode` keeps in `mainBuf` is the end of all slots that it has seen (`Keeps`).

* `main_data_run`: in a stream that does not start in free mode, no copy leaves `mainBuf`, and the
  main data of each frame is the end of the slots so far;
* `main_data_round_trip`: where the main data of the frames lies in their slots without a gap, each
  frame gets just its own, from the first frame of which the reservoir has all bytes on.
-/

namespace AudioPipeline

open Bits

/-! ### Memory -/

section Memory

variable {mem src : List UInt8} {i n : ℕ}

theorem bytesAt_of_le (h : i + n ≤ mem.length) : bytesAt mem i n = some ((mem.drop i).take n) :=
  if_pos h

theorem putBytes_of_le (h : i + src.length ≤ mem.length) :
    ∃ mem', putBytes mem i src = some mem' ∧ mem'.length = mem.length ∧
      mem'.take (i + src.length) = mem.take i ++ src := by
  have hfront : (mem.take i ++ src).length = i + src.length := by
    rw [List.length_append, List.length_take, Nat.min_eq_left (by omega)]
  refine ⟨_, if_pos h, ?_, ?_⟩
  · rw [List.length_append, hfront, List.length_drop, Nat.add_sub_cancel' h]
  · rw [← hfront, List.take_left]

end Memory

/-! ### The header -/

/-- No frame has more slots than this. -/
abbrev MAX_SLOTS : ℤ := 1428

/-- The slots of the tables. -/
theorem slots_range (ver : MPEGVersion) (mono crc pad : Bool) :
    ∀ srIdx < 3, ∀ brIdx < 15, brIdx ≠ 0 →
      0 ≤ (ver.slotTab.getD srIdx []).getD brIdx 0 -
          ver.sideBytesTab.getD (if mono then 0 else 1) 0 - 4 - (if crc then 2 else 0) +
            (if pad then 1 else 0) ∧
        (ver.slotTab.getD srIdx []).getD brIdx 0 -
          ver.sideBytesTab.getD (if mono then 0 else 1) 0 - 4 - (if crc then 2 else 0) +
            (if pad then 1 else 0) ≤ MAX_SLOTS := by
  cases ver <;> cases mono <;> cases crc <;> cases pad <;> decide

theorem bitrate_pos (ver : MPEGVersion) :
    ∀ layer < 4, 0 < layer → ∀ brIdx < 15, brIdx ≠ 0 →
      0 < (ver.bitrateTab.getD (layer - 1) []).getD brIdx 0 := by
  cases ver <;> decide

/-- The slots of a frame are known, and as many as a frame can have. -/
structure Mp3DecInfo.Slots (info : Mp3DecInfo) : Prop where
  bitrate : info.bitrate ≠ 0
  nonneg : 0 ≤ info.nSlots
  le : info.nSlots ≤ MAX_SLOTS

theorem read_brIdx_le (buf : List UInt8) : (FrameHeader.read buf).brIdx ≤ 15 := by
  show ((buf.getD 2 0 >>> 4) &&& 0x0f).toNat ≤ 15
  rw [UInt8.toNat_and]
  exact Nat.and_le_right

theorem read_layer_pos (buf : List UInt8) : 0 < (FrameHeader.read buf).layer := by
  show 0 < 4 - ((buf.getD 1 0 >>> 1) &&& 0x03).toNat
  have h : ((buf.getD 1 0 >>> 1) &&& 0x03).toNat ≤ 3 := by
    rw [UInt8.toNat_and]
    exact Nat.and_le_right
  omega

/-- A header is accepted. -/
structure FrameHeader.Accepted (buf : List UInt8) : Prop where
  sync : isSyncWord (buf.getD 0 0) (buf.getD 1 0)
  srIdx : (FrameHeader.read buf).srIdx < 3
  layer : (FrameHeader.read buf).layer < 4
  brIdx : (FrameHeader.read buf).brIdx < 15

/-- The bytes of a header. -/
def FrameHeader.fhBytes (fh : FrameHeader) : ℕ := if fh.crc then 6 else 4

theorem FrameHeader.four_le_fhBytes (fh : FrameHeader) : 4 ≤ fh.fhBytes := by
  unfold FrameHeader.fhBytes
  split_ifs <;> decide

/-- The slots of a frame with this header. -/
def FrameHeader.nSlots (fh : FrameHeader) : ℤ :=
  (fh.ver.slotTab.getD fh.srIdx []).getD fh.brIdx 0 -
    fh.ver.sideBytesTab.getD (if fh.mono then 0 else 1) 0 - 4 - (if fh.crc then 2 else 0) +
      if fh.paddingBit then 1 else 0

/-- An accepted header gives the slots, unless it is in free mode. -/
theorem unpackFrameHeader_spec (info : Mp3DecInfo) {buf : List UInt8}
    (h : FrameHeader.Accepted buf) :
    ∃ info', unpackFrameHeader info buf = (((FrameHeader.read buf).fhBytes : ℤ), info') ∧
      (info.Slots → info'.Slots) ∧ ((FrameHeader.read buf).brIdx ≠ 0 →
        info'.Slots ∧ info'.nSlots = (FrameHeader.read buf).nSlots) := by
  have hbad : ¬((FrameHeader.read buf).srIdx = 3 ∨ (FrameHeader.read buf).layer = 4 ∨
      (FrameHeader.read buf).brIdx = 15) := by
    have := h.srIdx
    have := h.layer
    have := h.brIdx
    omega
  have hbytes : (if (FrameHeader.read buf).crc then (6 : ℤ) else 4) =
      ((FrameHeader.read buf).fhBytes : ℤ) := by
    unfold FrameHeader.fhBytes
    split_ifs <;> rfl
  unfold unpackFrameHeader
  rw [if_neg (not_not.mpr h.sync)]
  dsimp only
  rw [if_neg hbad, ← hbytes]
  by_cases hbr : (FrameHeader.read buf).brIdx ≠ 0
  · simp only [if_pos hbr]
    obtain ⟨hlo, hhi⟩ := slots_range (FrameHeader.read buf).ver (FrameHeader.read buf).mono
      (FrameHeader.read buf).crc (FrameHeader.read buf).paddingBit _ h.srIdx _ h.brIdx hbr
    have hrate := bitrate_pos (FrameHeader.read buf).ver _ h.layer
        (read_layer_pos buf) _ h.brIdx hbr
    exact ⟨_, rfl, fun _ => ⟨by dsimp only; omega, hlo, hhi⟩,
      fun _ => ⟨⟨by dsimp only; omega, hlo, hhi⟩, rfl⟩⟩
  · simp only [if_neg hbr]
    exact ⟨_, rfl, fun hs => ⟨hs.bitrate, hs.nonneg, hs.le⟩, fun hne => absurd hne hbr⟩

/-- Other headers leave everything as it was. -/
theorem unpackFrameHeader_rejects {info : Mp3DecInfo} {buf : List UInt8}
    (h : ¬FrameHeader.Accepted buf) : unpackFrameHeader info buf = (-1, info) := by
  unfold unpackFrameHeader
  by_cases hsync : ¬isSyncWord (buf.getD 0 0) (buf.getD 1 0)
  · rw [if_pos hsync]
  rw [if_neg hsync]
  dsimp only
  rw [if_pos]
  by_contra hgood
  rw [not_or, not_or] at hgood
  obtain ⟨hsr, hlayer, hbr⟩ := hgood
  have hsr' := read_srIdx_le buf
  have hbr' := read_brIdx_le buf
  have hlayer' : (FrameHeader.read buf).layer ≤ 4 := Nat.sub_le 4 _
  exact h ⟨not_not.mp hsync, by omega, by omega, by omega⟩

/-! ### The reservoir -/

/-- `mainBuf` has the end of the slots `hist` so far, and free mode has not begun. -/
structure Mp3Front.Keeps (f : Mp3Front) (hist : List UInt8) : Prop where
  length : f.mainBuf.length = MAINBUF_SIZE
  bytes : f.mainDataBytes ≤ MAINBUF_SIZE
  suffix : f.mainBuf.take f.mainDataBytes <:+ hist
  free : f.freeBitrateFlag = false
  si : f.si.InRange

theorem Mp3Front.init_keeps : Mp3Front.init.Keeps [] where
  length := List.length_replicate
  bytes := Nat.zero_le _
  suffix := List.suffix_rfl
  free := rfl
  si := SideInfo.zero_inRange

/-- **The slots of a frame go behind the end of those before**, which is as long as the frame asks
for if the reservoir has so many. -/
theorem Mp3Front.fill_spec {f : Mp3Front} {hist : List UInt8} (inbuf : List UInt8) (len : ℕ)
    (bytesLeft : ℤ) (h : f.Keeps hist) (hslots : f.info.Slots) (hle : f.info.nSlots ≤ bytesLeft)
    (hmem : bytesLeft ≤ inbuf.length) :
    ∃ r, f.fillMainData inbuf len bytesLeft = some r ∧
      r.front.Keeps (hist ++ inbuf.take f.info.nSlots.toNat) ∧
      r.front.info = f.info ∧ r.front.si = f.si ∧ r.consumed = len + f.info.nSlots ∧
      (f.si.mainDataBegin ≤ f.mainDataBytes → r.err = ERR_MP3_NONE ∧
        r.mainPtr = r.front.mainBuf ∧
        r.front.mainDataBytes = f.si.mainDataBegin + f.info.nSlots.toNat) ∧
      (f.mainDataBytes < f.si.mainDataBegin → r.err = ERR_MP3_MAINDATA_UNDERFLOW ∧
        r.front.mainDataBytes = f.mainDataBytes + f.info.nSlots.toNat) := by
  obtain ⟨n, hn⟩ : ∃ n, f.info.nSlots.toNat = n := ⟨_, rfl⟩
  have hnle : n ≤ 1428 := by
    have hle' : f.info.nSlots ≤ 1428 := hslots.le
    omega
  have hlen : (inbuf.take n).length = n := by
    rw [List.length_take]
    omega
  have hbegin := h.si.mainDataBegin
  have hbuf : f.mainBuf.length = 1940 := h.length
  have hbytes : f.mainDataBytes ≤ 1940 := h.bytes
  -- the reservoir holds at most 511 bytes and a frame 1428, so that `mainBuf` has room for both
  unfold Mp3Front.fillMainData
  rw [if_neg (by omega), if_neg (not_lt.mpr hslots.nonneg), hn, bytesAt_of_le (by omega),
    Option.bind_some, List.drop_zero]
  dsimp only
  by_cases hold : f.si.mainDataBegin ≤ f.mainDataBytes
  · -- the bytes that the frame asks for are moved to the front
    rw [if_pos hold, bytesAt_of_le (by omega), Option.bind_some]
    obtain ⟨old, hmoved⟩ : ∃ old, (f.mainBuf.drop (f.mainDataBytes - f.si.mainDataBegin)).take
        f.si.mainDataBegin = old := ⟨_, rfl⟩
    have holdlen : old.length = f.si.mainDataBegin := by
      rw [← hmoved, List.length_take, List.length_drop]
      omega
    have hsuffix : old <:+ hist := by
      refine List.IsSuffix.trans ?_ h.suffix
      have : old = (f.mainBuf.take f.mainDataBytes).drop
          (f.mainDataBytes - f.si.mainDataBegin) := by
        rw [← hmoved, List.drop_take]
        congr 1
        omega
      rw [this]
      exact List.drop_suffix _ _
    obtain ⟨mem₁, hput₁, hlen₁, hold₁⟩ :=
      putBytes_of_le (show 0 + old.length ≤ f.mainBuf.length by omega)
    obtain ⟨mem, hput, hmemlen, hfront⟩ := putBytes_of_le
      (show f.si.mainDataBegin + (inbuf.take n).length ≤ mem₁.length by omega)
    rw [Nat.zero_add, List.take_zero, List.nil_append, holdlen] at hold₁
    rw [hlen, hold₁] at hfront
    rw [hmoved, hput₁, Option.bind_some, hput, Option.map_some]
    refine ⟨_, rfl, ⟨hmemlen.trans (hlen₁.trans hbuf), ?_, ?_, h.free, h.si⟩, rfl, rfl, rfl,
      fun _ => ⟨rfl, rfl, rfl⟩, fun hlt => absurd hold (by omega)⟩
    · show f.si.mainDataBegin + n ≤ 1940
      omega
    · show mem.take (f.si.mainDataBegin + n) <:+ _
      rw [hfront]
      obtain ⟨pre, rfl⟩ := hsuffix
      exact ⟨pre, by rw [List.append_assoc]⟩
  · -- all bytes are kept, for a frame to come
    obtain ⟨mem, hput, hmemlen, hfront⟩ := putBytes_of_le
      (show f.mainDataBytes + (inbuf.take n).length ≤ f.mainBuf.length by omega)
    rw [hlen] at hfront
    rw [if_neg hold, hput, Option.map_some]
    refine ⟨_, rfl, ⟨hmemlen.trans hbuf, ?_, ?_, h.free, h.si⟩, rfl, rfl, rfl,
      fun hle' => absurd hle' hold, fun _ => ⟨rfl, rfl⟩⟩
    · show f.mainDataBytes + n ≤ 1940
      omega
    · show mem.take (f.mainDataBytes + n) <:+ _
      rw [hfront]
      obtain ⟨pre, hpre⟩ := h.suffix
      exact ⟨pre, by rw [← List.append_assoc, hpre]⟩

/-! ### One call -/

/-- The slots that `MP3Decode` has taken from `inbuf`. -/
def FrontResult.slots (r : FrontResult) (inbuf : List UInt8) : List UInt8 :=
  if r.err = ERR_MP3_NONE ∨ r.err = ERR_MP3_MAINDATA_UNDERFLOW then
    (inbuf.drop (r.consumed - r.front.info.nSlots).toNat).take r.front.info.nSlots.toNat
  else []

theorem FrontResult.slots_eq_nil {r : FrontResult} (hnone : r.err ≠ ERR_MP3_NONE)
    (hunder : r.err ≠ ERR_MP3_MAINDATA_UNDERFLOW) (inbuf : List UInt8) : r.slots inbuf = [] :=
  if_neg (not_or.mpr ⟨hnone, hunder⟩)

section Decode

variable {f : Mp3Front} {hist inbuf : List UInt8} {bytesLeft : ℤ}

/-- No frame has a longer header with side information. -/
theorem siBytes_le (fh : FrameHeader) : fh.fhBytes + fh.siBytes ≤ 38 := by
  unfold FrameHeader.fhBytes FrameHeader.siBytes
  split_ifs <;> decide

/-- Outside of free mode, the slots of an accepted frame are put behind those of the frames
before. -/
theorem decode_accepted (si : SideInfo) (bytesLeft : ℤ) (hfree : f.freeBitrateFlag = false)
    (hacc : FrameHeader.Accepted inbuf)
    (hmem : (FrameHeader.read inbuf).fhBytes + (FrameHeader.read inbuf).siBytes ≤ inbuf.length)
    (hslots : f.info.Slots ∨ (FrameHeader.read inbuf).brIdx ≠ 0)
    (hsi : unpackSideInfo (FrameHeader.read inbuf) f.si
      (inbuf.drop (FrameHeader.read inbuf).fhBytes) =
        some ((FrameHeader.read inbuf).siBytes, si)) :
    ∃ info, info = (unpackFrameHeader f.info inbuf).2 ∧ info.Slots ∧
      ((FrameHeader.read inbuf).brIdx ≠ 0 → info.nSlots = (FrameHeader.read inbuf).nSlots) ∧
      f.decode inbuf bytesLeft false =
        { f with info := info, si := si }.fillMainData
          (inbuf.drop ((FrameHeader.read inbuf).fhBytes + (FrameHeader.read inbuf).siBytes))
          ((FrameHeader.read inbuf).fhBytes + (FrameHeader.read inbuf).siBytes)
          (bytesLeft -
            ((FrameHeader.read inbuf).fhBytes + (FrameHeader.read inbuf).siBytes : ℕ)) := by
  obtain ⟨info, hunpack, hkeep, hnew⟩ := unpackFrameHeader_spec f.info hacc
  have hslots' : info.Slots := hslots.elim hkeep fun hbr => (hnew hbr).1
  refine ⟨info, by rw [hunpack], hslots', fun hbr => (hnew hbr).2, ?_⟩
  unfold Mp3Front.decode
  dsimp only
  rw [hunpack, if_neg (by dsimp only; omega)]
  dsimp only
  rw [Int.toNat_natCast, if_neg (not_lt.mpr hmem), hsi, Option.bind_some]
  unfold Mp3Front.afterSideInfo
  have hmode : ¬(info.bitrate = 0 ∨ f.freeBitrateFlag = true) := by
    rw [hfree]
    simpa using hslots'.bitrate
  dsimp only
  rw [if_neg hmode]
  rfl

/-- **One call** keeps the end of the slots. -/
theorem decode_spec (h : f.Keeps hist) (hmem : 38 ≤ inbuf.length) (hleft : bytesLeft ≤ inbuf.length)
    (hslots : f.info.Slots ∨
      (FrameHeader.Accepted inbuf ∧ (FrameHeader.read inbuf).brIdx ≠ 0)) :
    ∃ r, f.decode inbuf bytesLeft false = some r ∧ r.front.info.Slots ∧
      r.front.Keeps (hist ++ r.slots inbuf) ∧
      (r.err = ERR_MP3_NONE → r.mainPtr = r.front.mainBuf ∧
        r.front.mainDataBytes = r.front.si.mainDataBegin + r.front.info.nSlots.toNat ∧
        FrameHeader.Accepted inbuf ∧ unpackSideInfo (FrameHeader.read inbuf) f.si
          (inbuf.drop (FrameHeader.read inbuf).fhBytes) =
            some ((FrameHeader.read inbuf).siBytes, r.front.si)) ∧
      (r.err = ERR_MP3_MAINDATA_UNDERFLOW → f.mainDataBytes < r.front.si.mainDataBegin) := by
  by_cases hacc : FrameHeader.Accepted inbuf
  · obtain ⟨si, hsi, hrange⟩ := unpackSideInfo_spec (FrameHeader.read inbuf)
      (inbuf.drop (FrameHeader.read inbuf).fhBytes) h.si (by
        have := siBytes_le (FrameHeader.read inbuf)
        rw [List.length_drop]
        omega)
    obtain ⟨info, -, hinfo, -, hdecode⟩ := decode_accepted si bytesLeft h.free hacc
      (le_trans (siBytes_le _) hmem) (hslots.imp_right And.right) hsi
    obtain ⟨len, hlen⟩ : ∃ len,
        (FrameHeader.read inbuf).fhBytes + (FrameHeader.read inbuf).siBytes = len := ⟨_, rfl⟩
    have hlen38 : len ≤ 38 := hlen ▸ siBytes_le (FrameHeader.read inbuf)
    rw [hlen] at hdecode
    have hkeeps : ({ f with info := info, si := si } : Mp3Front).Keeps hist :=
      ⟨h.length, h.bytes, h.suffix, h.free, hrange⟩
    rw [hdecode]
    by_cases hunder : bytesLeft - len < info.nSlots
    · -- the frame is not there as a whole: no slot is taken
      have hnone : ERR_MP3_INDATA_UNDERFLOW ≠ ERR_MP3_NONE := by decide
      have hother : ERR_MP3_INDATA_UNDERFLOW ≠ ERR_MP3_MAINDATA_UNDERFLOW := by decide
      refine ⟨_, if_pos hunder, hinfo, ?_, fun herr => absurd herr hnone,
        fun herr => absurd herr hother⟩
      rw [FrontResult.slots_eq_nil hnone hother, List.append_nil]
      exact hkeeps
    · obtain ⟨r, hr, hnew, hrinfo, hrsi, hcons, hok, hfail⟩ := Mp3Front.fill_spec
        (inbuf.drop len) len (bytesLeft - len) hkeeps hinfo (not_lt.mp hunder) (by
          rw [List.length_drop]
          omega)
      have hslotsOf : (r.err = ERR_MP3_NONE ∨ r.err = ERR_MP3_MAINDATA_UNDERFLOW) →
          r.slots inbuf = (inbuf.drop len).take info.nSlots.toNat := by
        intro herr
        rw [FrontResult.slots, if_pos herr, hrinfo, hcons]
        congr 2
        omega
      refine ⟨r, hr, hrinfo ▸ hinfo, ?_⟩
      by_cases hold : si.mainDataBegin ≤ f.mainDataBytes
      · obtain ⟨herr, hmain, hbytes⟩ := hok hold
        rw [hslotsOf (Or.inl herr), hrsi, hrinfo]
        refine ⟨hnew, fun _ => ⟨hmain, hbytes, hacc, hsi⟩, fun herr' => ?_⟩
        rw [herr] at herr'
        exact absurd herr' (by decide)
      · obtain ⟨herr, -⟩ := hfail (not_le.mp hold)
        rw [hslotsOf (Or.inr herr), hrsi]
        refine ⟨hnew, fun herr' => ?_, fun _ => not_le.mp hold⟩
        rw [herr] at herr'
        exact absurd herr' (by decide)
  · -- no header: the instance is left as it was
    have hinfo : f.info.Slots := hslots.resolve_right fun hr => hacc hr.1
    have hnone : ERR_MP3_INVALID_FRAMEHEADER ≠ ERR_MP3_NONE := by decide
    have hother : ERR_MP3_INVALID_FRAMEHEADER ≠ ERR_MP3_MAINDATA_UNDERFLOW := by decide
    refine ⟨{ err := ERR_MP3_INVALID_FRAMEHEADER, front := f, mainPtr := [], consumed := 0 }, ?_,
      hinfo, ?_, fun herr => absurd herr hnone, fun herr => absurd herr hother⟩
    · unfold Mp3Front.decode
      rw [unpackFrameHeader_rejects hacc]
      rfl
    · rw [FrontResult.slots_eq_nil hnone hother, List.append_nil]
      exact h

end Decode

/-! ### Runs -/

/-- One call after the other, with the slots so far. -/
def Mp3Front.run (f : Mp3Front) (hist : List UInt8) (calls : List (List UInt8 × ℤ)) :
    Option (Mp3Front × List UInt8) :=
  calls.foldlM (fun s b => (s.1.decode b.1 b.2 false).map fun r =>
    (r.front, s.2 ++ r.slots b.1)) (f, hist)

theorem run_spec {f : Mp3Front} {hist : List UInt8} (calls : List (List UInt8 × ℤ))
    (h : f.Keeps hist) (hslots : f.info.Slots)
    (hmem : ∀ b ∈ calls, 38 ≤ b.1.length ∧ b.2 ≤ b.1.length) :
    ∃ s, f.run hist calls = some s ∧ s.1.Keeps s.2 ∧ s.1.info.Slots := by
  induction calls generalizing f hist with
  | nil => exact ⟨(f, hist), rfl, h, hslots⟩
  | cons b calls ih =>
    obtain ⟨hlen, hleft⟩ := hmem b List.mem_cons_self
    obtain ⟨r, hr, hinfo, hkeeps, -⟩ := decode_spec h hlen hleft (Or.inl hslots)
    obtain ⟨s, hs, hs'⟩ := ih hkeeps hinfo fun c hc => hmem c (List.mem_cons_of_mem b hc)
    refine ⟨s, ?_, hs'⟩
    rw [Mp3Front.run, List.foldlM_cons, hr]
    exact hs

/-- **The bit reservoir**, whatever the bytes are: if the first call finds a frame that is not in
free mode, no call copies past the end of `mainBuf`, and a call that goes on to the granules decodes
them from `mainDataBegin` bytes of the slots before and the slots of the frame. -/
theorem main_data_run (first : List UInt8 × ℤ) (calls : List (List UInt8 × ℤ))
    (last : List UInt8 × ℤ) (hacc : FrameHeader.Accepted first.1)
    (hfree : (FrameHeader.read first.1).brIdx ≠ 0)
    (hmem : ∀ b ∈ first :: last :: calls, 38 ≤ b.1.length ∧ b.2 ≤ b.1.length) :
    ∃ f hist r, Mp3Front.init.run [] (first :: calls) = some (f, hist) ∧
      f.decode last.1 last.2 false = some r ∧
      (r.err = ERR_MP3_NONE →
        r.mainPtr.take r.front.mainDataBytes <:+ hist ++ r.slots last.1 ∧
        (r.mainPtr.take r.front.mainDataBytes).length =
          r.front.si.mainDataBegin + r.front.info.nSlots.toNat) ∧
      (r.err = ERR_MP3_MAINDATA_UNDERFLOW → f.mainDataBytes < r.front.si.mainDataBegin) := by
  obtain ⟨hlen, hleft⟩ := hmem first List.mem_cons_self
  obtain ⟨r₀, hr₀, hinfo₀, hkeeps₀, -⟩ := decode_spec Mp3Front.init_keeps hlen hleft
    (Or.inr ⟨hacc, hfree⟩)
  obtain ⟨⟨f, hist⟩, hrun, hkeeps, hslots⟩ := run_spec calls hkeeps₀ hinfo₀ fun b hb =>
    hmem b (List.mem_cons_of_mem _ (List.mem_cons_of_mem _ hb))
  obtain ⟨hlen', hleft'⟩ := hmem last (List.mem_cons_of_mem _ List.mem_cons_self)
  obtain ⟨r, hr, -, hkeeps', hok, hfail⟩ := decode_spec hkeeps hlen' hleft' (Or.inl hslots)
  refine ⟨f, hist, r, ?_, hr, fun herr => ?_, hfail⟩
  · rw [Mp3Front.run, List.foldlM_cons, hr₀]
    exact hrun
  · obtain ⟨hmain, hbytes, -⟩ := hok herr
    have hle := hkeeps'.bytes
    rw [hmain, List.length_take, hkeeps'.length, Nat.min_eq_left hle]
    exact ⟨hkeeps'.suffix, hbytes⟩

/-- A frame with its slots, 11 bytes, and a frame whose main data begins 7 bytes in front of its own
slots. -/
theorem main_data_run_reservoir :
    let one : List UInt8 :=
      [0xff, 0xf3, 0x14, 0xc0] ++ List.replicate 9 0 ++ [1, 2, 3, 4, 5, 6, 7, 8, 9, 10, 11] ++
        List.replicate 14 0
    let two : List UInt8 :=
      [0xff, 0xf3, 0x14, 0xc0, 7] ++ List.replicate 8 0 ++ List.replicate 11 0xff ++
        List.replicate 14 0
    ∃ f hist r, Mp3Front.init.run [] [(one, 38)] = some (f, hist) ∧
      f.decode two 38 false = some r ∧
      (r.err = ERR_MP3_NONE →
        r.mainPtr.take r.front.mainDataBytes <:+ hist ++ r.slots two ∧
        (r.mainPtr.take r.front.mainDataBytes).length =
          r.front.si.mainDataBegin + r.front.info.nSlots.toNat) ∧
      (r.err = ERR_MP3_MAINDATA_UNDERFLOW → f.mainDataBytes < r.front.si.mainDataBegin) ∧
      r.err = ERR_MP3_NONE ∧ r.front.si.mainDataBegin = 7 := by
  intro one two
  obtain ⟨f, hist, r, hrun, hr, hok, hfail⟩ := main_data_run (one, 38) [] (two, 38)
    ⟨by decide, by decide, by decide, by decide⟩ (by decide) (by decide)
  -- the second frame is decoded with what is left of the first one
  have hcall : ((Mp3Front.init.run [] [(one, 38)]).bind fun s => s.1.decode two 38 false).map
      (fun r => (r.err, r.front.si.mainDataBegin)) = some (ERR_MP3_NONE, 7) := by
    decide +kernel
  rw [hrun, Option.bind_some, hr, Option.map_some, Option.some.injEq, Prod.mk.injEq] at hcall
  exact ⟨f, hist, r, hrun, hr, hok, hfail, hcall⟩

/-! ### A stream of frames -/

/-- A frame: its header, with the CRC if there is one, its side information, its slots, and the main
data that it is decoded from, which begins in the slots of the frames before. -/
structure StreamFrame where
  header : List UInt8
  si : SideInfo
  slots : List UInt8
  main : List UInt8

namespace StreamFrame

def fh (fr : StreamFrame) : FrameHeader := FrameHeader.read fr.header

def bytes (fr : StreamFrame) : List UInt8 := fr.header ++ (toBytes (fr.si.bits fr.fh) ++ fr.slots)

structure Fits (fr : StreamFrame) : Prop where
  accepted : FrameHeader.Accepted fr.header
  brIdx : fr.fh.brIdx ≠ 0
  header : fr.header.length = fr.fh.fhBytes
  si : fr.si.Fits fr.fh
  slots : (fr.slots.length : ℤ) = fr.fh.nSlots

/-- `ahead` bytes of the slots before are for the frames that follow, and each frame says so. -/
def Laid : ℕ → List StreamFrame → Prop
  | _, [] => True
  | ahead, fr :: frs => fr.si.mainDataBegin = ahead ∧ fr.main.length ≤ ahead + fr.slots.length ∧
    Laid (ahead + fr.slots.length - fr.main.length) frs

/-- The main data of the frames lies in their slots without a gap. -/
structure Gapless (frs : List StreamFrame) : Prop where
  fits : ∀ fr ∈ frs, fr.Fits
  laid : Laid 0 frs
  main : frs.flatMap StreamFrame.main <+: frs.flatMap StreamFrame.slots

/-- The call of `MP3Decode` for a frame that is followed by `tail`. -/
def call (fr : StreamFrame) (tail : List UInt8) : List UInt8 × ℤ :=
  (fr.bytes ++ tail, (fr.bytes ++ tail).length)

end StreamFrame

open StreamFrame

section Stream

variable {f : Mp3Front} {hist : List UInt8} {fr : StreamFrame}

/-- A header is read from its first four bytes. -/
theorem getD_of_take {buf buf' : List UInt8} (h : buf.take 4 = buf'.take 4) {i : ℕ} (hi : i < 4) :
    buf.getD i 0 = buf'.getD i 0 := by
  rw [List.getD_eq_getElem?_getD, List.getD_eq_getElem?_getD, ← List.getElem?_take_of_lt hi, h,
    List.getElem?_take_of_lt hi]

theorem read_congr {buf buf' : List UInt8} (h : buf.take 4 = buf'.take 4) :
    FrameHeader.read buf = FrameHeader.read buf' := by
  unfold FrameHeader.read
  rw [getD_of_take h (i := 1) (by decide), getD_of_take h (i := 2) (by decide),
    getD_of_take h (i := 3) (by decide)]

theorem FrameHeader.Accepted.congr {buf buf' : List UInt8} (hacc : FrameHeader.Accepted buf)
    (h : buf'.take 4 = buf.take 4) : FrameHeader.Accepted buf' where
  sync := by
    rw [getD_of_take h (i := 0) (by decide), getD_of_take h (i := 1) (by decide)]
    exact hacc.sync
  srIdx := read_congr h ▸ hacc.srIdx
  layer := read_congr h ▸ hacc.layer
  brIdx := read_congr h ▸ hacc.brIdx

theorem length_side_info (fh : FrameHeader) (si : SideInfo) :
    (toBytes (si.bits fh)).length = fh.siBytes := by
  have hbits := length_bits fh si
  rw [length_toBytes ⟨fh.siBytes, hbits⟩, hbits]
  omega

/-- The side information that is read from a frame is in its ranges. -/
theorem SideInfo.InRange.overlay {fh : FrameHeader} {old si : SideInfo} (h : old.InRange)
    (hfits : si.Fits fh) : (old.overlay fh si).InRange := by
  obtain ⟨si', hsi', hrange⟩ := unpackSideInfo_spec fh (toBytes (si.bits fh) ++ []) h (by
    rw [List.append_nil, length_side_info])
  rw [unpackSideInfo_bits hfits, Option.some.injEq, Prod.mk.injEq] at hsi'
  exact hsi'.2 ▸ hrange

theorem StreamFrame.length_bytes (hfit : fr.Fits) :
    fr.bytes.length = fr.fh.fhBytes + fr.fh.siBytes + fr.slots.length := by
  rw [bytes, List.length_append, List.length_append, hfit.header, length_side_info, Nat.add_assoc]

theorem header_length (hfit : fr.Fits) : 4 ≤ fr.header.length :=
  hfit.header ▸ fr.fh.four_le_fhBytes

theorem call_eq (fr : StreamFrame) (tail : List UInt8) :
    (fr.call tail).1 = fr.header ++ (toBytes (fr.si.bits fr.fh) ++ (fr.slots ++ tail)) := by
  rw [call, bytes, List.append_assoc, List.append_assoc]

/-- A call with a frame reads its header. -/
theorem take_call (hfit : fr.Fits) (tail : List UInt8) :
    (fr.call tail).1.take 4 = fr.header.take 4 := by
  rw [call_eq, List.take_append_of_le_length (header_length hfit)]

theorem read_call (hfit : fr.Fits) (tail : List UInt8) :
    FrameHeader.read (fr.call tail).1 = fr.fh :=
  read_congr (take_call hfit tail)

theorem drop_call (hfit : fr.Fits) (tail : List UInt8) :
    (fr.call tail).1.drop fr.fh.fhBytes = toBytes (fr.si.bits fr.fh) ++ (fr.slots ++ tail) := by
  rw [call_eq, ← hfit.header, List.drop_left]

theorem le_call (fr : StreamFrame) (tail : List UInt8) :
    (fr.bytes.length : ℤ) ≤ (fr.call tail).2 := by
  rw [call, List.length_append]
  omega

/-- **One frame of a stream**, of which there are at least the bytes of the frame. -/
theorem decode_frame {bytesLeft : ℤ} (hfit : fr.Fits) (h : f.Keeps hist) (tail : List UInt8)
    (hwhole : fr.bytes.length ≤ bytesLeft) (hleft : bytesLeft ≤ (fr.call tail).2) :
    ∃ r, f.decode (fr.call tail).1 bytesLeft false = some r ∧
      r.consumed = fr.bytes.length ∧ r.slots (fr.call tail).1 = fr.slots ∧
      r.front.Keeps (hist ++ fr.slots) ∧ r.front.si = f.si.overlay fr.fh fr.si ∧
      r.front.info = (unpackFrameHeader f.info (fr.call tail).1).2 ∧
      (fr.si.mainDataBegin ≤ f.mainDataBytes → r.err = ERR_MP3_NONE ∧
        r.mainPtr = r.front.mainBuf ∧
        r.front.mainDataBytes = fr.si.mainDataBegin + fr.slots.length) ∧
      (f.mainDataBytes < fr.si.mainDataBegin → r.err = ERR_MP3_MAINDATA_UNDERFLOW ∧
        r.front.mainDataBytes = f.mainDataBytes + fr.slots.length) := by
  obtain ⟨rest, hrest⟩ : ∃ rest, rest = toBytes (fr.si.bits fr.fh) ++ (fr.slots ++ tail) :=
    ⟨_, rfl⟩
  -- the header and the side information are read as they have been written
  have hread := read_call hfit tail
  have hacc : FrameHeader.Accepted (fr.call tail).1 := hfit.accepted.congr (take_call hfit tail)
  have hdrop : (fr.call tail).1.drop fr.fh.fhBytes = rest := hrest ▸ drop_call hfit tail
  have hside := unpackSideInfo_bits hfit.si f.si (fr.slots ++ tail)
  rw [← hrest] at hside
  have hrange := h.si.overlay hfit.si
  have hslotsAt : (fr.call tail).1.drop (fr.fh.fhBytes + fr.fh.siBytes) = fr.slots ++ tail := by
    rw [← List.drop_drop, hdrop, hrest, ← length_side_info fr.fh fr.si, List.drop_left]
  have hsize : (FrameHeader.read (fr.call tail).1).fhBytes +
      (FrameHeader.read (fr.call tail).1).siBytes ≤ (fr.call tail).1.length := by
    rw [hread, call, List.length_append, length_bytes hfit]
    omega
  obtain ⟨info, hheader, hinfo, hcount, hdecode⟩ := decode_accepted (f.si.overlay fr.fh fr.si)
    bytesLeft h.free hacc hsize (Or.inr (by rw [hread]; exact hfit.brIdx))
    (by rw [hread, hdrop]; exact hside)
  rw [hread] at hcount hdecode
  have hcount' : info.nSlots = fr.slots.length := (hcount hfit.brIdx).trans hfit.slots.symm
  have hlen : (fr.call tail).2 = fr.fh.fhBytes + fr.fh.siBytes + fr.slots.length + tail.length := by
    rw [call, List.length_append, length_bytes hfit]
    push_cast
    rfl
  rw [hslotsAt] at hdecode
  -- and the slots are behind them
  obtain ⟨r, hr, hkeeps, hrinfo, hrsi, hcons, hok, hfail⟩ := Mp3Front.fill_spec
    (f := { f with info := info, si := f.si.overlay fr.fh fr.si }) (fr.slots ++ tail)
    (fr.fh.fhBytes + fr.fh.siBytes) (bytesLeft - (fr.fh.fhBytes + fr.fh.siBytes : ℕ))
    ⟨h.length, h.bytes, h.suffix, h.free, hrange⟩ hinfo
    (by rw [length_bytes hfit] at hwhole; dsimp only; omega) (by rw [List.length_append]; omega)
  have htake : (fr.slots ++ tail).take info.nSlots.toNat = fr.slots := by
    rw [hcount', Int.toNat_natCast, List.take_left]
  dsimp only at hkeeps hrinfo hcons hok hfail
  rw [htake] at hkeeps
  rw [hcount', Int.toNat_natCast] at hok hfail
  have hslots : r.err = ERR_MP3_NONE ∨ r.err = ERR_MP3_MAINDATA_UNDERFLOW →
      r.slots (fr.call tail).1 = fr.slots := by
    intro herr
    rw [FrontResult.slots, if_pos herr, hrinfo, hcons, hcount', Int.toNat_natCast,
      show ((fr.fh.fhBytes + fr.fh.siBytes : ℕ) + (fr.slots.length : ℤ) - fr.slots.length).toNat =
        fr.fh.fhBytes + fr.fh.siBytes by omega, hslotsAt, List.take_left]
  have herr : r.err = ERR_MP3_NONE ∨ r.err = ERR_MP3_MAINDATA_UNDERFLOW := by
    rcases Nat.lt_or_ge f.mainDataBytes (f.si.overlay fr.fh fr.si).mainDataBegin with hlt | hge
    · exact Or.inr (hfail hlt).1
    · exact Or.inl (hok hge).1
  refine ⟨r, hdecode.trans hr, ?_, hslots herr, hkeeps, hrsi, hrinfo.trans hheader, hok, hfail⟩
  rw [hcons, hcount', length_bytes hfit]
  push_cast
  rfl

/-- Either everything so far is kept, or what the next frame asks for. -/
theorem run_frames (pre : List (StreamFrame × List UInt8)) (rest : List StreamFrame) {ahead : ℕ}
    (hfits : ∀ x ∈ pre, x.1.Fits) (h : f.Keeps hist)
    (hlaid : Laid ahead (pre.map Prod.fst ++ rest))
    (hold : f.mainDataBytes = hist.length ∨ ahead ≤ f.mainDataBytes) :
    ∃ f' ahead',
      f.run hist (pre.map fun x => x.1.call x.2) =
        some (f', hist ++ pre.flatMap fun x => x.1.slots) ∧
      f'.Keeps (hist ++ pre.flatMap fun x => x.1.slots) ∧ Laid ahead' rest ∧
      (f'.mainDataBytes = (hist ++ pre.flatMap fun x => x.1.slots).length ∨
        ahead' ≤ f'.mainDataBytes) := by
  induction pre generalizing f hist ahead with
  | nil =>
    rw [List.flatMap_nil, List.append_nil]
    exact ⟨f, ahead, rfl, h, hlaid, hold⟩
  | cons x pre ih =>
    obtain ⟨hbegin, hmain, hlaid'⟩ := hlaid
    obtain ⟨r, hr, -, hslots, hkeeps, -, -, hok, hfail⟩ :=
      decode_frame (hfits x List.mem_cons_self) h x.2 (le_call x.1 x.2) le_rfl
    -- a frame that underflows is kept whole, and each other one leaves what is ahead
    have hold' : r.front.mainDataBytes = (hist ++ x.1.slots).length ∨
        ahead + x.1.slots.length - x.1.main.length ≤ r.front.mainDataBytes := by
      rcases Nat.lt_or_ge f.mainDataBytes x.1.si.mainDataBegin with hlt | hge
      · have hbytes := (hfail hlt).2
        rw [List.length_append]
        exact Or.inl (by omega)
      · have hbytes := (hok hge).2.2
        exact Or.inr (by omega)
    obtain ⟨f', ahead', hrun, hkeeps', hlaid'', hold''⟩ := ih
      (fun y hy => hfits y (List.mem_cons_of_mem x hy)) hkeeps hlaid' hold'
    rw [List.append_assoc, ← List.flatMap_cons (f := fun x : StreamFrame × List UInt8 => x.1.slots)]
      at hrun hkeeps' hold''
    refine ⟨f', ahead', ?_, hkeeps', hlaid'', hold''⟩
    rw [Mp3Front.run, List.map_cons, List.foldlM_cons, hr, Option.map_some, hslots]
    exact hrun

/-- What is ahead is what the slots have more than the main data. -/
theorem StreamFrame.Laid.split {frs rest : List StreamFrame} {ahead : ℕ}
    (h : Laid ahead (frs ++ rest)) :
    ∃ ahead', Laid ahead' rest ∧ ahead' + (frs.flatMap StreamFrame.main).length =
      ahead + (frs.flatMap StreamFrame.slots).length := by
  induction frs generalizing ahead with
  | nil => exact ⟨ahead, h, rfl⟩
  | cons fr frs ih =>
    obtain ⟨-, hmain, hlaid⟩ := h
    obtain ⟨ahead', hlaid', hsum⟩ := ih hlaid
    refine ⟨ahead', hlaid', ?_⟩
    rw [List.flatMap_cons, List.flatMap_cons, List.length_append, List.length_append]
    omega

/-- The main data of a frame is where the frame says. -/
theorem main_at {pre post : List StreamFrame} (h : Gapless (pre ++ fr :: post)) :
    fr.main <+: ((pre ++ [fr]).flatMap StreamFrame.slots).drop
        (((pre ++ [fr]).flatMap StreamFrame.slots).length -
          (fr.si.mainDataBegin + fr.slots.length)) ∧
      fr.main.length ≤ fr.si.mainDataBegin + fr.slots.length ∧
      fr.si.mainDataBegin + (pre.flatMap StreamFrame.main).length =
        (pre.flatMap StreamFrame.slots).length := by
  obtain ⟨ahead, ⟨hbegin, hle, -⟩, hsum⟩ := h.laid.split
  have hprefix := h.main
  rw [List.flatMap_append, List.flatMap_append, List.flatMap_cons, List.flatMap_cons] at hprefix
  obtain ⟨rest, hrest⟩ := hprefix
  obtain ⟨before, hbefore⟩ : ∃ l, pre.flatMap StreamFrame.main = l := ⟨_, rfl⟩
  obtain ⟨slots, hslots⟩ : ∃ l, pre.flatMap StreamFrame.slots = l := ⟨_, rfl⟩
  rw [hbefore, hslots] at hrest hsum
  -- what is ahead is what the slots have more than the main data so far
  have hstart : ((pre ++ [fr]).flatMap StreamFrame.slots).length -
      (fr.si.mainDataBegin + fr.slots.length) = before.length := by
    rw [List.flatMap_append, hslots, List.flatMap_singleton, List.length_append]
    omega
  rw [hstart, List.flatMap_append, hslots, List.flatMap_singleton, hbefore, hbegin]
  refine ⟨?_, hle, by omega⟩
  have hcut :
      fr.main <+: (slots ++ fr.slots ++ post.flatMap StreamFrame.slots).drop before.length := by
    rw [List.append_assoc, ← hrest, List.append_assoc, List.append_assoc, List.drop_left]
    exact List.prefix_append _ _
  rw [List.drop_append_of_le_length (by rw [List.length_append]; omega)] at hcut
  refine List.prefix_of_prefix_length_le hcut (List.prefix_append _ _) ?_
  rw [List.length_drop, List.length_append]
  omega

end Stream

/-- **The main data that is written is decoded**: in a stream whose main data lies in the slots
without a gap, each frame gets its own main data, and not a byte of the stream is left between two
frames.  A decoder that starts inside of the stream skips just those frames whose main data begins
before it started. -/
theorem main_data_round_trip (skipped : List StreamFrame) (pre : List (StreamFrame × List UInt8))
    (fr : StreamFrame) (post : List StreamFrame) (tail : List UInt8)
    (h : Gapless (skipped ++ pre.map Prod.fst ++ fr :: post)) :
    ∃ f r,
      Mp3Front.init.run [] (pre.map fun x => x.1.call x.2) =
        some (f, pre.flatMap fun x => x.1.slots) ∧
      f.decode (fr.call tail).1 (fr.call tail).2 false = some r ∧
      r.consumed = fr.bytes.length ∧
      r.err = (if fr.si.mainDataBegin ≤ (pre.flatMap fun x => x.1.slots).length then ERR_MP3_NONE
        else ERR_MP3_MAINDATA_UNDERFLOW) ∧
      (r.err = ERR_MP3_NONE →
        r.mainPtr.take fr.main.length = fr.main ∧ fr.main.length ≤ r.front.mainDataBytes) ∧
      (skipped = [] → r.err = ERR_MP3_NONE) := by
  have hfits := h.fits
  have hlaid := h.laid
  rw [List.append_assoc] at hlaid
  obtain ⟨ahead₀, hlaid₀, -⟩ := hlaid.split
  obtain ⟨f, ahead, hrun, hkeeps, ⟨hbegin, -⟩, hold⟩ := run_frames pre (fr :: post)
    (fun x hx => hfits x.1 (List.mem_append_left _
      (List.mem_append_right _ (List.mem_map_of_mem hx)))) Mp3Front.init_keeps hlaid₀ (Or.inl rfl)
  rw [List.nil_append] at hrun hkeeps hold
  obtain ⟨hist, hhist⟩ : ∃ hist, (pre.flatMap fun x => x.1.slots) = hist := ⟨_, rfl⟩
  rw [hhist] at hrun hkeeps hold ⊢
  obtain ⟨r, hr, hcons, -, hkeeps', -, -, hok, hfail⟩ := decode_frame
    (hfits fr (List.mem_append_right _ List.mem_cons_self)) hkeeps tail (le_call fr tail) le_rfl
  -- What is kept is enough for the frame exactly if the slots so far are.
  have hbytes : f.mainDataBytes ≤ hist.length := by
    have := hkeeps.suffix.length_le
    have hbytes' := hkeeps.bytes
    rwa [List.length_take, hkeeps.length, Nat.min_eq_left hbytes'] at this
  have hiff : fr.si.mainDataBegin ≤ f.mainDataBytes ↔ fr.si.mainDataBegin ≤ hist.length := by
    omega
  have herr : r.err = if fr.si.mainDataBegin ≤ hist.length then ERR_MP3_NONE
      else ERR_MP3_MAINDATA_UNDERFLOW := by
    rcases Nat.lt_or_ge f.mainDataBytes fr.si.mainDataBegin with hlt | hge
    · rw [if_neg (by omega)]
      exact (hfail hlt).1
    · rw [if_pos (hiff.mp hge)]
      exact (hok hge).1
  obtain ⟨hmain, hle, hsum⟩ := main_at h
  refine ⟨f, r, hrun, hr, hcons, herr, fun hnone => ?_, fun hskip => ?_⟩
  · have hge : fr.si.mainDataBegin ≤ f.mainDataBytes := by
      rw [hiff]
      by_contra hlt
      rw [hnone, if_neg hlt] at herr
      exact absurd herr (by decide)
    obtain ⟨-, hptr, hlast⟩ := hok hge
    refine ⟨?_, by omega⟩
    have hslots : (skipped ++ pre.map Prod.fst ++ [fr]).flatMap StreamFrame.slots =
        skipped.flatMap StreamFrame.slots ++ (hist ++ fr.slots) := by
      rw [← hhist]
      simp [List.flatMap_append, List.flatMap_map]
    have hend : r.mainPtr.take r.front.mainDataBytes =
        ((skipped ++ pre.map Prod.fst ++ [fr]).flatMap StreamFrame.slots).drop
          (((skipped ++ pre.map Prod.fst ++ [fr]).flatMap StreamFrame.slots).length -
            (fr.si.mainDataBegin + fr.slots.length)) := by
      rw [hslots, hptr]
      have hlen : (r.front.mainBuf.take r.front.mainDataBytes).length =
          fr.si.mainDataBegin + fr.slots.length := by
        rw [List.length_take, hkeeps'.length, Nat.min_eq_left hkeeps'.bytes, hlast]
      rw [← hlen]
      exact List.suffix_iff_eq_drop.mp (hkeeps'.suffix.trans (List.suffix_append _ _))
    rw [← hend] at hmain
    have htake := List.prefix_iff_eq_take.mp hmain
    rw [List.take_take, Nat.min_eq_left (by omega)] at htake
    exact htake.symm
  · rw [herr, if_pos]
    subst hskip
    rw [List.nil_append] at hsum
    have : (pre.map Prod.fst).flatMap StreamFrame.slots = hist := by
      rw [← hhist, List.flatMap_map]
    rw [this] at hsum
    omega

/-- The header of a frame of MPEG 2 with 11 slots. -/
def smallHeader : List UInt8 := [0xff, 0xf3, 0x14, 0xc0]

def smallFrame (mainDataBegin : ℕ) (sub : SideInfoSub) (slots main : List UInt8) :
    StreamFrame where
  header := smallHeader
  si := { SideInfo.zero with mainDataBegin := mainDataBegin, sis := fun _ _ => sub }
  slots := slots
  main := main

theorem smallHeader_accepted : FrameHeader.Accepted smallHeader :=
  ⟨by decide, by decide, by decide, by decide⟩

theorem zero_fits : SideInfoSub.zero.Fits (FrameHeader.read smallHeader).ver where
  part23Length := by decide
  nBigvals := by decide
  globalGain := by decide
  sfCompress := by decide
  block := Or.inr (by constructor <;> decide)
  preFlag := by decide
  sfactScale := by decide
  count1TableSelect := by decide

theorem smallFrame_fits {mainDataBegin : ℕ} {sub : SideInfoSub} {slots main : List UInt8}
    (hbegin : mainDataBegin < 2 ^ 8) (hsub : sub.Fits (FrameHeader.read smallHeader).ver)
    (hslots : slots.length = 11) : (smallFrame mainDataBegin sub slots main).Fits where
  accepted := smallHeader_accepted
  brIdx := show (FrameHeader.read smallHeader).brIdx ≠ 0 by decide
  header := show smallHeader.length = (FrameHeader.read smallHeader).fhBytes by decide
  si :=
    { mainDataBegin := by
        have hver : (FrameHeader.read smallHeader).ver ≠ .mpeg1 := by decide
        show mainDataBegin < 2 ^ (if (FrameHeader.read smallHeader).ver = .mpeg1 then 9 else 8)
        rwa [if_neg hver]
      privateBits := Nat.two_pow_pos _
      scfsi := fun _ _ => Nat.two_pow_pos 1
      sis := fun _ _ _ _ => hsub }
  slots := by
    show (slots.length : ℤ) = (FrameHeader.read smallHeader).nSlots
    rw [hslots]
    decide

/-- The main data of the second frame begins 7 bytes in front of its slots. -/
theorem main_data_round_trip_two :
    let one := smallFrame 0 .zero [1, 2, 3, 4, 5, 6, 7, 8, 9, 10, 11] [1, 2, 3, 4]
    let two := smallFrame 7 .zero [12, 13, 14, 15, 16, 17, 18, 19, 20, 21, 22]
      [5, 6, 7, 8, 9, 10, 11, 12, 13, 14]
    ∃ f r, Mp3Front.init.run [] [one.call two.bytes] = some (f, one.slots) ∧
      f.decode (two.call []).1 (two.call []).2 false = some r ∧ r.err = ERR_MP3_NONE ∧
      r.mainPtr.take 10 = two.main := by
  intro one two
  obtain ⟨f, r, hrun, hr, -, -, hmain, herr⟩ :=
    main_data_round_trip [] [(one, two.bytes)] two [] []
      { fits := fun fr hfr => by
          rcases List.mem_cons.mp hfr with rfl | hfr
          · exact smallFrame_fits (by decide) zero_fits rfl
          · rw [List.mem_singleton.mp hfr]
            exact smallFrame_fits (by decide) zero_fits rfl
        laid := ⟨rfl, by decide, rfl, by decide, trivial⟩
        main := ⟨[15, 16, 17, 18, 19, 20, 21, 22], rfl⟩ }
  exact ⟨f, r, hrun, hr, herr rfl, (hmain (herr rfl)).1⟩

end AudioPipeline
