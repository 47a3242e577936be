import AudioPipeline.Codec.Mp3
import Mathlib.Algebra.Order.Group.Int
import Mathlib.Data.List.GetD

/-!
## Decoding a stream in pieces

* `mp3DecoderProcess_isSome`: a call of `mp3_decoder_process` returns.
* `mp3Run_frames`: a stream of whole frames is decoded, however it is cut into pieces, exactly if
  no call waits for fewer bytes than it has of an incomplete frame (`Held.Ample`).
* `mp3Run_underestimates`: the first frame of a stream is longer than what the first call waits
  for.
-/

namespace AudioPipeline

variable {δ : Type} {H : Helix δ}

/-! ### The buffer -/

namespace Mp3El

variable (el : Mp3El δ)

@[simp] theorem length_bytes (pos left : ℤ) : (el.bytes pos left).length = left.toNat := by
  simp [bytes]

theorem getElem_bytes {pos left : ℤ} {i : ℕ} (hi : i < (el.bytes pos left).length) :
    (el.bytes pos left)[i] = if pos + i < 0 then 0 else el.buf (pos + i) := by
  simp [bytes]

theorem bytes_append (pos : ℤ) {a b : ℤ} (ha : 0 ≤ a) (hb : 0 ≤ b) :
    el.bytes pos (a + b) = el.bytes pos a ++ el.bytes (pos + a) b := by
  refine List.ext_getElem (by simp; omega) fun i hi hi' => ?_
  rw [length_bytes] at hi
  rw [List.getElem_append, getElem_bytes]
  split_ifs with hneg hlt hlt
  · rw [getElem_bytes, if_pos hneg]
  · have hpos : pos + a + ((i - (el.bytes pos a).length : ℕ) : ℤ) = pos + i := by
      rw [length_bytes, not_lt] at hlt
      rw [length_bytes]
      omega
    rw [getElem_bytes, hpos, if_pos hneg]
  · rw [getElem_bytes, if_neg hneg]
  · have hpos : pos + a + ((i - (el.bytes pos a).length : ℕ) : ℤ) = pos + i := by
      rw [length_bytes, not_lt] at hlt
      rw [length_bytes]
      omega
    rw [getElem_bytes, hpos, if_neg hneg]

/-- The bytes from the `n`-th one on. -/
theorem bytes_drop (pos left : ℤ) (n : ℕ) :
    el.bytes (pos + n) (left - n) = (el.bytes pos left).drop n := by
  refine List.ext_getElem (by simp) fun i hi hi' => ?_
  rw [List.getElem_drop, getElem_bytes, getElem_bytes, Int.natCast_add, Int.add_assoc]

/-- New bytes behind those that were left over. -/
theorem write_bytes {pos : ℤ} (hpos : 0 ≤ pos) (bs : List UInt8) :
    (el.write pos bs).bytes 0 (pos + bs.length) = el.bytes 0 pos ++ bs := by
  rw [bytes_append _ _ hpos (by omega)]
  congr 1
  · refine List.ext_getElem (by simp) fun i hi hi' => ?_
    rw [length_bytes] at hi
    rw [getElem_bytes, getElem_bytes, if_neg (by omega), if_neg (by omega)]
    show (if pos ≤ 0 + (i : ℤ) ∧ _ then _ else el.buf (0 + i)) = _
    rw [if_neg (by omega)]
  · refine List.ext_getElem (by simp) fun i hi hi' => ?_
    rw [length_bytes] at hi
    rw [getElem_bytes, if_neg (by omega)]
    show (if pos ≤ 0 + pos + (i : ℤ) ∧ 0 + pos + i < pos + bs.length then
      bs.getD (0 + pos + i - pos).toNat 0 else _) = _
    have hidx : (0 + pos + (i : ℤ) - pos).toNat = i := by omega
    rw [if_pos (by omega), hidx, List.getD_eq_getElem _ _ hi']

/-- The bytes that are left are moved to the front. -/
theorem memmove_bytes {pos : ℤ} (hpos : 0 ≤ pos) (left : ℤ) :
    (el.memmove pos left).bytes 0 left = el.bytes pos left := by
  refine List.ext_getElem (by simp) fun i hi hi' => ?_
  rw [length_bytes] at hi
  rw [getElem_bytes, getElem_bytes, if_neg (by omega), if_neg (by omega)]
  show (if 0 ≤ 0 + (i : ℤ) ∧ 0 + (i : ℤ) < left then el.buf (pos + (0 + i)) else _) = _
  rw [if_pos (by omega), Int.zero_add]

/-- A piece of a stream that is shorter than its first block. -/
theorem bytes_prefix {pos : ℤ} {n : ℕ} {rest block more : List UInt8}
    (h : el.bytes pos n ++ rest = block ++ more) (hn : n ≤ block.length) :
    el.bytes pos n <+: block := by
  refine List.prefix_of_prefix_length_le (List.prefix_append _ rest) ?_ ?_
  · rw [h]
    exact List.prefix_append _ _
  · rw [length_bytes, Int.toNat_natCast]
    exact hn

/-- A piece of a stream that has the first block. -/
theorem bytes_whole {pos : ℤ} {n : ℕ} {rest block more : List UInt8}
    (h : el.bytes pos n ++ rest = block ++ more) (hn : block.length ≤ n) :
    ∃ bs, el.bytes pos n = block ++ bs ∧
      el.bytes (pos + block.length) (n - block.length : ℕ) = bs ∧ bs ++ rest = more := by
  obtain ⟨bs, hbs⟩ : block <+: el.bytes pos n := by
    refine List.prefix_of_prefix_length_le (List.prefix_append _ more) ?_ ?_
    · rw [← h]
      exact List.prefix_append _ _
    · rw [length_bytes, Int.toNat_natCast]
      exact hn
  refine ⟨bs, hbs.symm, ?_, ?_⟩
  · have hsplit := el.bytes_append pos (a := block.length) (b := (n - block.length : ℕ))
      (by omega) (by omega)
    rw [← Int.natCast_add, Nat.add_sub_cancel' hn, ← hbs] at hsplit
    refine (List.append_inj_right hsplit ?_).symm
    rw [length_bytes, Int.toNat_natCast]
  · rw [← hbs, List.append_assoc] at h
    exact List.append_cancel_left h

end Mp3El

/-! ### Sync words -/

theorem findSyncFrom_cases (bs : List UInt8) :
    ∀ i : ℤ, findSyncFrom i bs = -1 ∨ i ≤ findSyncFrom i bs ∧
      findSyncFrom i bs + 2 ≤ i + bs.length := by
  induction bs with
  | nil => exact fun _ => Or.inl rfl
  | cons h bs ih =>
    intro i
    cases bs with
    | nil => exact Or.inl rfl
    | cons l bs =>
      rw [findSyncFrom]
      split_ifs with hsync
      · right
        rw [List.length_cons, List.length_cons]
        omega
      · rcases ih (i + 1) with hnone | ⟨hle, hlen⟩
        · exact Or.inl hnone
        · right
          rw [List.length_cons, Int.natCast_add]
          constructor <;> omega

theorem mp3FindSyncWord_cases (bs : List UInt8) :
    mp3FindSyncWord bs = -1 ∨ 0 ≤ mp3FindSyncWord bs ∧ mp3FindSyncWord bs + 2 ≤ bs.length := by
  rcases findSyncFrom_cases bs 0 with hnone | ⟨hle, hlen⟩
  · exact Or.inl hnone
  · right
    rw [Int.zero_add] at hlen
    exact ⟨hle, hlen⟩

theorem mp3FindSyncWord_sync {h l : UInt8} (hsync : isSyncWord h l = true) (bs : List UInt8) :
    mp3FindSyncWord (h :: l :: bs) = 0 := by
  rw [mp3FindSyncWord, findSyncFrom, if_pos hsync]

/-! ### A call returns -/

theorem outputFrame_isSome {accept : ℕ → ℤ → ℤ} {lastLeft : ℤ} {el : Mp3El δ} {f : Mp3FrameInfo}
    {output : ℕ → UInt16} {next : (ℕ → ℤ → ℤ) → Option (Mp3Result δ)}
    (h : ∀ accept, (next accept).isSome) :
    (outputFrame accept lastLeft el f output next).isSome := by
  unfold outputFrame
  dsimp only
  split_ifs
  · rfl
  · rw [Option.isSome_map]
    exact h _
  · exact h accept

/-- Every round of the loop takes a frame off. -/
theorem decodeLoop_isSome (framesize lastLeft : ℤ) (fuel : ℕ) :
    ∀ (accept : ℕ → ℤ → ℤ) (el : Mp3El δ) (pos left : ℤ), left.toNat < fuel →
      (decodeLoop H framesize lastLeft fuel accept el pos left).isSome := by
  induction fuel with
  | zero => exact fun _ _ _ _ h => absurd h (by omega)
  | succ fuel ih =>
    intro accept el pos left hfuel
    rw [decodeLoop]
    dsimp only
    split_ifs with hend herr
    · rfl
    · rfl
    · rw [not_or, not_lt, not_lt] at hend
      rw [not_not] at herr
      obtain ⟨hmin, hmax⟩ := H.frame_size _ _ herr
      rw [Mp3El.length_bytes] at hmax
      exact outputFrame_isSome fun accept => ih _ _ _ _ (by omega)

theorem drainLoop_isSome (lastLeft : ℤ) (fuel : ℕ) :
    ∀ (accept : ℕ → ℤ → ℤ) (el : Mp3El δ) (pos left : ℤ), left.toNat < fuel →
      (drainLoop H lastLeft fuel accept el pos left).isSome := by
  induction fuel with
  | zero => exact fun _ _ _ _ h => absurd h (by omega)
  | succ fuel ih =>
    intro accept el pos left hfuel
    rw [drainLoop]
    split_ifs with herr
    · rfl
    · rw [not_not] at herr
      obtain ⟨hmin, hmax⟩ := H.frame_size _ _ herr
      rw [Mp3El.length_bytes] at hmax
      -- going back by a byte is less than a frame
      have hoff := mp3FindSyncWord_cases (el.bytes pos left)
      rw [Mp3El.length_bytes] at hoff
      exact outputFrame_isSome fun accept => ih _ _ _ _ (by omega)

/-- **A call of `mp3_decoder_process` returns**, whatever the decoder does. -/
theorem mp3DecoderProcess_isSome (H : Helix δ) (lastLeft : ℤ) (el : Mp3El δ) (input : Mp3Input)
    (accept : ℕ → ℤ → ℤ) : (mp3DecoderProcess H lastLeft el input accept).isSome := by
  unfold mp3DecoderProcess
  cases input with
  | data bs => exact decodeLoop_isSome _ _ _ _ _ _ _ (Nat.lt_succ_self _)
  | code ret =>
    simp only
    split_ifs
    · rfl
    · exact drainLoop_isSome _ _ _ _ _ _ (Nat.lt_succ_self _)
    · rfl

theorem mp3Run_isSome (H : Helix δ) (inputs : List (Mp3Input × (ℕ → ℤ → ℤ))) :
    ∀ (lastLeft : ℤ) (el : Mp3El δ), (mp3Run H lastLeft el inputs).isSome := by
  induction inputs with
  | nil => exact fun _ _ => rfl
  | cons i inputs ih =>
    intro lastLeft el
    obtain ⟨r, hr⟩ := Option.isSome_iff_exists.mp (mp3DecoderProcess_isSome H lastLeft el i.1 i.2)
    rw [mp3Run, hr, Option.bind_some, Option.isSome_map]
    exact ih r.lastLeft r.el

/-! ### Streams of frames -/

/-- A frame of a stream, and what the decoder makes of it. -/
structure Mp3Frame where
  bytes : List UInt8
  info : Mp3FrameInfo
  output : ℕ → UInt16

namespace Mp3Frame

/-- The bytes that are put out for a frame. -/
def pcm (f : Mp3Frame) : List UInt8 :=
  if 0 < f.info.outputSamps then framePcm f.info f.output else []

/-- What the element waits for after the frame. -/
def framesize (f : Mp3Frame) : ℤ := if 200 < f.info.framesize then f.info.framesize else 512

end Mp3Frame

/-- What is assumed of the decoder: from the instance `d` on, it takes the frames one after the
other.  A frame starts with a sync word, and is decoded when it is there as a whole; its header
alone is an underflow. -/
def Decodes (H : Helix δ) : δ → List Mp3Frame → Prop
  | _, [] => True
  | d, f :: fs =>
    (∃ h l bs, f.bytes = h :: l :: bs ∧ isSyncWord h l = true) ∧
    (∀ bs, bs <+: f.bytes → 4 ≤ bs.length → bs ≠ f.bytes →
      (H.decode d bs).err = ERR_MP3_INDATA_UNDERFLOW) ∧
    ∀ rest, (H.decode d (f.bytes ++ rest)).err = 0 ∧
      (H.decode d (f.bytes ++ rest)).consumed = f.bytes.length ∧
      (H.decode d (f.bytes ++ rest)).output = f.output ∧
      H.frameInfo (H.decode d (f.bytes ++ rest)).inst = f.info ∧
      Decodes H (H.decode d (f.bytes ++ rest)).inst fs

/-- How many of the first `left` bytes of the frames are of a frame that is not complete. -/
def incomplete : List Mp3Frame → ℕ → ℕ
  | [], left => left
  | f :: fs, left =>
    if left < f.bytes.length then left else incomplete fs (left - f.bytes.length)

/-- What the element has at hand: the frames it has not decoded, how many of their bytes are in its
buffer, and how many it waits for. -/
structure Held where
  frames : List Mp3Frame
  left : ℕ
  framesize : ℤ

/-- A call decodes frames while there are as many bytes as it waits for. -/
def Held.decode (framesize : ℤ) : List Mp3Frame → ℕ → ℤ → Held
  | [], left, next => ⟨[], left, next⟩
  | f :: fs, left, next =>
    if left < framesize ∨ left < f.bytes.length then ⟨f :: fs, left, next⟩
    else decode framesize fs (left - f.bytes.length) f.framesize

/-- After a call that gets `n` bytes. -/
def Held.feed (h : Held) (n : ℕ) : Held := decode h.framesize h.frames (h.left + n) h.framesize

/-- Every call that gets `n` bytes waits for more bytes than it then has of the incomplete frame at
the end. -/
def Held.Ample : Held → List ℕ → Prop
  | _, [] => True
  | h, n :: ns => incomplete h.frames (h.left + n) < h.framesize ∧ (h.feed n).Ample ns

instance Held.decidableAmple : (h : Held) → (ns : List ℕ) → Decidable (h.Ample ns)
  | _, [] => inferInstanceAs (Decidable True)
  | h, n :: ns =>
    have := decidableAmple (h.feed n) ns
    inferInstanceAs (Decidable (_ ∧ _))

/-- The buffer of the element holds the first bytes of the frames at hand; the others are still to
come. -/
structure Holds (H : Helix δ) (lastLeft : ℤ) (el : Mp3El δ) (h : Held) (rest : List UInt8) :
    Prop where
  left : lastLeft = h.left
  bytes : el.bytes 0 lastLeft ++ rest = h.frames.flatMap Mp3Frame.bytes
  decodes : Decodes H el.inst h.frames
  framesize : el.info.estimate = h.framesize

theorem incomplete_le (fs : List Mp3Frame) : ∀ n, incomplete fs n ≤ n := by
  induction fs with
  | nil => exact fun _ => le_rfl
  | cons f fs ih =>
    intro n
    rw [incomplete]
    split_ifs
    · exact le_rfl
    · have := ih (n - f.bytes.length)
      omega

/-- `user_data_0` is set if it is not the size of the frame. -/
theorem estimate_decoded (el : Mp3El δ) (r : Mp3Decoded δ) {f : Mp3Frame}
    (hinfo : H.frameInfo r.inst = f.info) : (el.decoded H r).info.estimate = f.framesize := by
  show Info.estimate (if el.info.differs (H.frameInfo r.inst) then _ else _) = _
  rw [hinfo]
  split_ifs with hdiff
  · rfl
  · have hsize : el.info.userData0 = f.info.framesize := by
      by_contra hne
      exact hdiff (by simp [Info.differs, hne])
    rw [Info.estimate, hsize, Mp3Frame.framesize]

theorem estimate_pos (info : Info) : 200 < info.estimate := by
  unfold Info.estimate
  split_ifs with h
  · exact h
  · decide

/-! ### A call on a stream of frames -/

theorem outputFrame_acceptAll {lastLeft : ℤ} {el : Mp3El δ} {info : Mp3FrameInfo}
    {output : ℕ → UInt16} {next : (ℕ → ℤ → ℤ) → Option (Mp3Result δ)} {r : Mp3Result δ}
    (h : next acceptAll = some r) :
    outputFrame acceptAll lastLeft el info output next =
      some { r with pcm := Mp3Frame.pcm ⟨[], info, output⟩ ++ r.pcm } := by
  unfold outputFrame Mp3Frame.pcm
  dsimp only
  split_ifs with hpos hne
  · exact absurd rfl hne
  · show (next acceptAll).map _ = _
    rw [h, Option.map_some]
  · rw [h, List.nil_append]

/-- The bytes at `pos` begin with the frame: the decoder takes it. -/
theorem Decodes.frame {d : δ} {f : Mp3Frame} {fs : List Mp3Frame} (hd : Decodes H d (f :: fs))
    (rest : List UInt8) :
    mp3FindSyncWord (f.bytes ++ rest) = 0 ∧ 2 ≤ f.bytes.length := by
  obtain ⟨⟨h, l, bs, hbs, hsync⟩, -, -⟩ := hd
  rw [hbs]
  constructor
  · exact mp3FindSyncWord_sync hsync _
  · rw [List.length_cons, List.length_cons]
    omega

/-- Two bytes of a frame are enough to find it. -/
theorem Decodes.sync_prefix {d : δ} {f : Mp3Frame} {fs : List Mp3Frame}
    (hd : Decodes H d (f :: fs)) {bs : List UInt8} (hbs : bs <+: f.bytes) (hlen : 2 ≤ bs.length) :
    mp3FindSyncWord bs = 0 := by
  obtain ⟨⟨h, l, fbs, hf, hsync⟩, -, -⟩ := hd
  obtain ⟨rest, hrest⟩ := hbs
  match bs, hlen with
  | b :: b' :: bs, _ =>
    rw [hf, List.cons_append, List.cons_append, List.cons.injEq, List.cons.injEq] at hrest
    obtain ⟨rfl, rfl, -⟩ := hrest
    exact mp3FindSyncWord_sync hsync bs

theorem decodeLoop_short {framesize lastLeft : ℤ} {fuel : ℕ} {accept : ℕ → ℤ → ℤ} {el : Mp3El δ}
    {pos left : ℤ} (h : left < framesize) :
    decodeLoop H framesize lastLeft (fuel + 1) accept el pos left =
      some ⟨ESP_CODEC_ERR_CONTINUE, left, el.memmove pos left, []⟩ := by
  rw [decodeLoop]
  dsimp only
  rw [if_pos]
  by_cases hoff : mp3FindSyncWord (el.bytes pos left) < 0
  · exact Or.inl hoff
  · exact Or.inr (by omega)

/-- A round of the loop with a whole frame. -/
theorem decodeLoop_frame {framesize lastLeft : ℤ} {fuel n : ℕ} {el : Mp3El δ} {pos : ℤ}
    {f : Mp3Frame} {fs : List Mp3Frame} {rest : List UInt8} (hd : Decodes H el.inst (f :: fs))
    (hbytes : el.bytes pos n = f.bytes ++ rest) (hle : framesize ≤ n) {r' : Mp3Result δ}
    (hnext : decodeLoop H framesize lastLeft fuel acceptAll
      (el.decoded H (H.decode el.inst (f.bytes ++ rest))) (pos + f.bytes.length)
        (n - f.bytes.length : ℕ) = some r') :
    decodeLoop H framesize lastLeft (fuel + 1) acceptAll el pos n =
      some { r' with pcm := f.pcm ++ r'.pcm } := by
  have hlen : f.bytes.length ≤ n := by
    have := congrArg List.length hbytes
    rw [Mp3El.length_bytes, List.length_append] at this
    omega
  obtain ⟨-, -, hwhole⟩ := id hd
  obtain ⟨herr, hcons, hout, hinfo, -⟩ := hwhole rest
  have hsync : mp3FindSyncWord (el.bytes pos n) = 0 := by
    rw [hbytes]
    exact (hd.frame rest).1
  rw [decodeLoop]
  dsimp only
  rw [hsync, if_neg (by omega), Int.add_zero, Int.sub_zero, hbytes, if_neg (not_not.mpr herr),
    hcons, hout, hinfo, ← Int.ofNat_sub hlen]
  exact outputFrame_acceptAll hnext

/-- What a call leaves of the frames `fs`, of which it has `n` bytes: it decodes frames, or fails
at a frame that is not complete. -/
structure Fed (H : Helix δ) (framesize : ℤ) (fs : List Mp3Frame) (n : ℕ) (next : ℤ)
    (rest : List UInt8) (r : Mp3Result δ) : Prop where
  ample : incomplete fs n < framesize → r.ret = ESP_CODEC_ERR_CONTINUE ∧
    Holds H r.lastLeft r.el (Held.decode framesize fs n next) rest ∧
    fs.flatMap Mp3Frame.pcm =
      r.pcm ++ (Held.decode framesize fs n next).frames.flatMap Mp3Frame.pcm
  short : framesize ≤ incomplete fs n → r.ret = ESP_CODEC_ERR_FAIL

/-- The bytes that are left are moved to the front when they are too few. -/
theorem decodeLoop_stop {framesize : ℤ} (lastLeft : ℤ) {rest : List UInt8} {fs : List Mp3Frame}
    (fuel : ℕ) {n : ℕ} {el : Mp3El δ} {pos : ℤ} (hpos : 0 ≤ pos)
    (hbytes : el.bytes pos n ++ rest = fs.flatMap Mp3Frame.bytes) (hd : Decodes H el.inst fs)
    (hlt : n < framesize) :
    ∃ r, decodeLoop H framesize lastLeft (fuel + 1) acceptAll el pos n = some r ∧
      Fed H framesize fs n el.info.estimate rest r := by
  have hstay : Held.decode framesize fs n el.info.estimate = ⟨fs, n, el.info.estimate⟩ := by
    cases fs with
    | nil => rfl
    | cons f fs => rw [Held.decode, if_pos (Or.inl hlt)]
  refine ⟨_, decodeLoop_short hlt, fun _ => ⟨rfl, ?_, ?_⟩, fun hle => ?_⟩
  · rw [hstay]
    constructor
    · rfl
    · show (el.memmove pos n).bytes 0 n ++ rest = _
      rw [Mp3El.memmove_bytes el hpos]
      exact hbytes
    · exact hd
    · rfl
  · rw [hstay, List.nil_append]
  · have := incomplete_le fs n
    omega

/-- A frame that is not complete is an error of the decoder. -/
theorem decodeLoop_cut {framesize : ℤ} (hmin : 200 < framesize) (lastLeft : ℤ) {f : Mp3Frame}
    {fs : List Mp3Frame} (fuel : ℕ) {n : ℕ} {el : Mp3El δ} {pos : ℤ}
    (hd : Decodes H el.inst (f :: fs)) (hpre : el.bytes pos n <+: f.bytes)
    (hcut : n < f.bytes.length) (hle : framesize ≤ n) :
    ∃ r, decodeLoop H framesize lastLeft (fuel + 1) acceptAll el pos n = some r ∧
      r.ret = ESP_CODEC_ERR_FAIL := by
  have hlen : (el.bytes pos n).length = n := by
    rw [Mp3El.length_bytes, Int.toNat_natCast]
  have herr : (H.decode el.inst (el.bytes pos n)).err = ERR_MP3_INDATA_UNDERFLOW := by
    apply hd.2.1 _ hpre (by omega)
    intro heq
    rw [← heq, hlen] at hcut
    omega
  have hsync : mp3FindSyncWord (el.bytes pos n) = 0 := hd.sync_prefix hpre (by omega)
  rw [decodeLoop]
  dsimp only
  rw [hsync, if_neg (by omega), Int.add_zero, Int.sub_zero, herr, if_pos (by decide)]
  exact ⟨_, rfl, rfl⟩

theorem decodeLoop_frames {framesize : ℤ} (hmin : 200 < framesize) (lastLeft : ℤ)
    (rest : List UInt8) (fs : List Mp3Frame) :
    ∀ (fuel n : ℕ) (el : Mp3El δ) (pos : ℤ), 0 ≤ pos → n < fuel →
      el.bytes pos n ++ rest = fs.flatMap Mp3Frame.bytes → Decodes H el.inst fs →
      ∃ r, decodeLoop H framesize lastLeft fuel acceptAll el pos n = some r ∧
        Fed H framesize fs n el.info.estimate rest r := by
  -- by induction on the frames, one round of the loop for each that is there as a whole
  induction fs with
  | nil =>
    intro fuel n el pos hpos hfuel hbytes hd
    obtain ⟨fuel, rfl⟩ := Nat.exists_eq_add_of_lt hfuel
    have hn : n = 0 := by
      have := congrArg List.length hbytes
      rw [List.length_append, Mp3El.length_bytes, List.flatMap_nil, List.length_nil] at this
      omega
    exact decodeLoop_stop lastLeft _ hpos hbytes hd (by omega)
  | cons f fs ih =>
    intro fuel n el pos hpos hfuel hbytes hd
    obtain ⟨fuel, rfl⟩ := Nat.exists_eq_add_of_lt hfuel
    rcases lt_or_ge (n : ℤ) framesize with hlt | hge
    · exact decodeLoop_stop lastLeft _ hpos hbytes hd hlt
    rw [List.flatMap_cons] at hbytes
    rcases lt_or_ge n f.bytes.length with hcut | hlen
    -- the first frame is cut, and there are more bytes of it than the loop waits for: an underflow
    · have hinc : incomplete (f :: fs) n = n := by
        rw [incomplete, if_pos hcut]
      have hpre := el.bytes_prefix hbytes hcut.le
      obtain ⟨r, hr, hret⟩ := decodeLoop_cut hmin lastLeft (n + fuel) hd hpre hcut hge
      refine ⟨r, hr, fun hlt => ?_, fun _ => hret⟩
      rw [hinc] at hlt
      omega
    · obtain ⟨more, hmore, htail, htl⟩ := el.bytes_whole hbytes hlen
      obtain ⟨-, -, -, hinfo, hnext⟩ := hd.2.2 more
      set d := H.decode el.inst (f.bytes ++ more)
      have hshort := (hd.frame []).2
      obtain ⟨r, hr, hfed⟩ := ih (n + fuel) (n - f.bytes.length) (el.decoded H d)
        (pos + f.bytes.length) (by omega) (by omega) (by rw [← htl, ← htail]; rfl) hnext
      rw [estimate_decoded el d hinfo] at hfed
      refine ⟨_, decodeLoop_frame hd hmore hge hr, fun hlt => ?_, fun hle => ?_⟩
      · rw [incomplete, if_neg hlen.not_gt] at hlt
        obtain ⟨hret, hholds, hpcm⟩ := hfed.ample hlt
        rw [Held.decode, if_neg (by omega)]
        exact ⟨hret, hholds, by rw [List.flatMap_cons, hpcm, List.append_assoc]⟩
      · rw [incomplete, if_neg hlen.not_gt] at hle
        exact hfed.short hle

/-! ### The end of the stream -/

theorem drainLoop_frame {lastLeft : ℤ} {fuel n : ℕ} {el : Mp3El δ} {pos : ℤ} {f : Mp3Frame}
    {fs : List Mp3Frame} {rest : List UInt8} (hd : Decodes H el.inst (f :: fs))
    (hbytes : el.bytes pos n = f.bytes ++ rest) {r' : Mp3Result δ}
    (hnext : drainLoop H lastLeft fuel acceptAll
      (el.decoded H (H.decode el.inst (f.bytes ++ rest))) (pos + f.bytes.length)
        (n - f.bytes.length : ℕ) = some r') :
    drainLoop H lastLeft (fuel + 1) acceptAll el pos n =
      some { r' with pcm := f.pcm ++ r'.pcm } := by
  have hlen : f.bytes.length ≤ n := by
    have := congrArg List.length hbytes
    rw [Mp3El.length_bytes, List.length_append] at this
    omega
  obtain ⟨-, -, hwhole⟩ := id hd
  obtain ⟨herr, hcons, hout, hinfo, -⟩ := hwhole rest
  have hsync : mp3FindSyncWord (el.bytes pos n) = 0 := by
    rw [hbytes]
    exact (hd.frame rest).1
  rw [drainLoop, hsync, Int.add_zero, Int.sub_zero, hbytes, if_neg (not_not.mpr herr), hcons,
    hout, hinfo, ← Int.ofNat_sub hlen]
  exact outputFrame_acceptAll hnext

/-- After the last frame the loop goes back by a byte, and a byte is not a frame. -/
theorem drainLoop_nil (lastLeft : ℤ) (fuel : ℕ) (el : Mp3El δ) (pos : ℤ) :
    ∃ r, drainLoop H lastLeft (fuel + 1) acceptAll el pos 0 = some r ∧
      r.ret = ESP_CODEC_ERR_DONE ∧ r.pcm = [] := by
  have herr : (H.decode el.inst (el.bytes (pos + -1) (0 - -1))).err ≠ 0 := by
    intro h
    obtain ⟨hmin, hmax⟩ := H.frame_size _ _ h
    rw [Mp3El.length_bytes] at hmax
    omega
  have hsync : mp3FindSyncWord (el.bytes pos 0) = -1 := rfl
  rw [drainLoop, hsync, if_pos herr]
  exact ⟨_, rfl, rfl, rfl⟩

theorem drainLoop_frames (lastLeft : ℤ) (fs : List Mp3Frame) :
    ∀ (fuel n : ℕ) (el : Mp3El δ) (pos : ℤ), n < fuel →
      el.bytes pos n = fs.flatMap Mp3Frame.bytes → Decodes H el.inst fs →
      ∃ r, drainLoop H lastLeft fuel acceptAll el pos n = some r ∧
        r.ret = ESP_CODEC_ERR_DONE ∧ r.pcm = fs.flatMap Mp3Frame.pcm := by
  -- by induction on the frames, which are all there
  induction fs with
  | nil =>
    intro fuel n el pos hfuel hbytes hd
    obtain ⟨fuel, rfl⟩ := Nat.exists_eq_add_of_lt hfuel
    have hn : n = 0 := by
      have := congrArg List.length hbytes
      rw [Mp3El.length_bytes, List.flatMap_nil, List.length_nil] at this
      omega
    subst hn
    exact drainLoop_nil lastLeft _ el pos
  | cons f fs ih =>
    intro fuel n el pos hfuel hbytes hd
    obtain ⟨fuel, rfl⟩ := Nat.exists_eq_add_of_lt hfuel
    have hlen : f.bytes.length ≤ n := by
      have := congrArg List.length hbytes
      rw [Mp3El.length_bytes, List.flatMap_cons, List.length_append] at this
      omega
    rw [List.flatMap_cons, ← List.append_nil (el.bytes pos n)] at hbytes
    obtain ⟨more, hmore, htail, htl⟩ := el.bytes_whole hbytes hlen
    obtain ⟨-, -, -, -, hnext⟩ := hd.2.2 more
    have hshort := (hd.frame []).2
    obtain ⟨r, hr, hret, hpcm⟩ := ih (n + fuel) (n - f.bytes.length)
      (el.decoded H (H.decode el.inst (f.bytes ++ more))) (pos + f.bytes.length) (by omega)
      (by rw [← htl, ← htail, List.append_nil]; rfl) hnext
    exact ⟨_, drainLoop_frame hd hmore hr, hret, by rw [List.flatMap_cons, ← hpcm]⟩

/-! ### A run -/

/-- A call with bytes. -/
theorem Holds.data {lastLeft : ℤ} {el : Mp3El δ} {h : Held} {bs rest : List UInt8}
    (hh : Holds H lastLeft el h (bs ++ rest)) :
    ∃ r, mp3DecoderProcess H lastLeft el (.data bs) acceptAll = some r ∧
      Fed H h.framesize h.frames (h.left + bs.length) h.framesize rest r := by
  have hbytes : (el.write lastLeft bs).bytes 0 (h.left + bs.length : ℕ) ++ rest =
      h.frames.flatMap Mp3Frame.bytes := by
    rw [Int.natCast_add, ← hh.left, Mp3El.write_bytes _ (by rw [hh.left]; omega),
      List.append_assoc]
    exact hh.bytes
  obtain ⟨r, hr, hfed⟩ := decodeLoop_frames (estimate_pos el.info) lastLeft rest h.frames
    (h.left + bs.length + 1) _ (el.write lastLeft bs) 0 le_rfl (Nat.lt_succ_self _) hbytes
    hh.decodes
  refine ⟨r, ?_, ?_⟩
  · rw [mp3DecoderProcess, hh.left, ← Int.natCast_add, Int.toNat_natCast, ← hh.left]
    exact hr
  · have hsize : (el.write lastLeft bs).info.estimate = h.framesize := hh.framesize
    rw [hsize, hh.framesize] at hfed
    exact hfed

/-- The call at the end of the stream. -/
theorem Holds.done {lastLeft : ℤ} {el : Mp3El δ} {h : Held} (hh : Holds H lastLeft el h []) :
    ∃ r, mp3DecoderProcess H lastLeft el (.code AEL_IO_DONE) acceptAll = some r ∧
      r.ret = ESP_CODEC_ERR_DONE ∧ r.pcm = h.frames.flatMap Mp3Frame.pcm := by
  have hbytes := hh.bytes
  rw [List.append_nil] at hbytes
  rw [mp3DecoderProcess]
  rw [if_neg (by decide)]
  by_cases hleft : 0 < lastLeft
  · rw [if_pos ⟨rfl, hleft⟩]
    rw [hh.left] at hbytes ⊢
    exact drainLoop_frames _ h.frames _ _ el 0 (by omega) hbytes hh.decodes
  · rw [if_neg (by omega)]
    have hnil : h.frames = [] := by
      have hdecodes := hh.decodes
      match hframes : h.frames with
      | [] => rfl
      | f :: fs =>
        rw [hframes] at hbytes hdecodes
        have hshort := (hdecodes.frame []).2
        have := congrArg List.length hbytes
        rw [Mp3El.length_bytes, List.flatMap_cons, List.length_append] at this
        omega
    rw [hnil]
    exact ⟨_, rfl, rfl, rfl⟩

theorem Holds.run (chunks : List (List UInt8)) :
    ∀ {lastLeft : ℤ} {el : Mp3El δ} {h : Held}, Holds H lastLeft el h chunks.flatten →
      ∃ rs, mp3Run H lastLeft el
          (chunks.map (fun bs => (.data bs, acceptAll)) ++ [(.code AEL_IO_DONE, acceptAll)]) =
          some rs ∧
        ((rs.flatMap Prod.snd = h.frames.flatMap Mp3Frame.pcm ∧
          ∀ r ∈ rs, r.1 ≠ ESP_CODEC_ERR_FAIL) ↔ h.Ample (chunks.map List.length)) := by
  -- by induction on the pieces, with what the element holds of the stream so far
  induction chunks with
  | nil =>
    intro lastLeft el h hh
    obtain ⟨r, hr, hret, hpcm⟩ := hh.done
    refine ⟨[(r.ret, r.pcm)], ?_, fun _ => trivial, fun _ => ⟨?_, ?_⟩⟩
    · rw [List.map_nil, List.nil_append, mp3Run, hr, Option.bind_some]
      rfl
    · rw [List.flatMap_cons, List.flatMap_nil, List.append_nil, hpcm]
    · intro x hx
      rw [List.mem_singleton.mp hx, hret]
      show ESP_CODEC_ERR_DONE ≠ ESP_CODEC_ERR_FAIL
      decide
  | cons bs chunks ih =>
    intro lastLeft el h hh
    rw [List.flatten_cons] at hh
    obtain ⟨r, hr, hfed⟩ := hh.data
    rw [List.map_cons, List.cons_append, mp3Run, hr, Option.bind_some]
    -- a call that fails is the last one that matters, whatever comes behind it
    by_cases hample : incomplete h.frames (h.left + bs.length) < h.framesize
    · obtain ⟨hret, hholds, hpcm⟩ := hfed.ample hample
      obtain ⟨rs, hrs, hiff⟩ := ih hholds
      refine ⟨(r.ret, r.pcm) :: rs, by rw [hrs, Option.map_some], ?_⟩
      rw [List.flatMap_cons, hpcm, List.append_cancel_left_eq, List.forall_mem_cons]
      constructor
      · rintro ⟨hrun, -, hfail⟩
        exact ⟨hample, hiff.mp ⟨hrun, hfail⟩⟩
      · rintro ⟨-, hnext⟩
        obtain ⟨hrun, hfail⟩ := hiff.mpr hnext
        refine ⟨hrun, ?_, hfail⟩
        rw [hret]
        show ESP_CODEC_ERR_CONTINUE ≠ ESP_CODEC_ERR_FAIL
        decide
    · obtain ⟨rs, hrs⟩ := Option.isSome_iff_exists.mp (mp3Run_isSome H
        (chunks.map (fun bs => (.data bs, acceptAll)) ++ [(.code AEL_IO_DONE, acceptAll)])
        r.lastLeft r.el)
      refine ⟨(r.ret, r.pcm) :: rs, by rw [hrs, Option.map_some], ?_, ?_⟩
      · rintro ⟨-, hfail⟩
        exact absurd (hfed.short (not_lt.mp hample)) (hfail _ List.mem_cons_self)
      · rintro ⟨hlt, -⟩
        exact absurd hlt hample

/-- **A stream of frames is decoded as a whole, each frame once, however it is cut into pieces,
exactly if no call waits for fewer bytes than there are of an incomplete frame** (`Held.Ample`). -/
theorem mp3Run_frames (el : Mp3El δ) {frames : List Mp3Frame} {chunks : List (List UInt8)}
    (hd : Decodes H el.inst frames) (hc : chunks.flatten = frames.flatMap Mp3Frame.bytes) :
    ∃ rs, mp3Run H 0 el
        (chunks.map (fun bs => (.data bs, acceptAll)) ++ [(.code AEL_IO_DONE, acceptAll)]) =
        some rs ∧
      ((rs.flatMap Prod.snd = frames.flatMap Mp3Frame.pcm ∧
        ∀ r ∈ rs, r.1 ≠ ESP_CODEC_ERR_FAIL) ↔
        Held.Ample ⟨frames, 0, el.info.estimate⟩ (chunks.map List.length)) := by
  have hh : Holds H 0 el ⟨frames, 0, el.info.estimate⟩ chunks.flatten := by
    constructor
    · rfl
    · exact hc
    · exact hd
    · rfl
  exact hh.run chunks

/-! ### Silence -/

/-- The bitrates of MPEG-1 layer III, in kbit/s. -/
def bitrateTab : List ℕ := [0, 32, 40, 48, 56, 64, 80, 96, 112, 128, 160, 192, 224, 256, 320]

/-- The size of the frame at 44100 Hz whose header has the third byte `b`. -/
def silentSize (b : UInt8) : ℕ := max 4 (144000 * bitrateTab.getD (b >>> 4).toNat 0 / 44100)

theorem four_le_silentSize (b : UInt8) : 4 ≤ silentSize b := le_max_left _ _

/-- A decoder that reads the bitrate of a frame, and finds two channels of silence in it.  Its
instance is the third byte of the last header. -/
def silentDecode (d : UInt8) : List UInt8 → Mp3Decoded UInt8
  | h :: l :: b :: _ :: bs =>
    if isSyncWord h l then
      if bs.length + 4 < silentSize b then ⟨b, ERR_MP3_INDATA_UNDERFLOW, 36, fun _ => 0⟩
      else ⟨b, 0, silentSize b, fun _ => 0⟩
    else ⟨d, ERR_MP3_INVALID_FRAMEHEADER, 0, fun _ => 0⟩
  | _ => ⟨d, ERR_MP3_INVALID_FRAMEHEADER, 0, fun _ => 0⟩

def silentHelix : Helix UInt8 where
  init := 0
  decode := silentDecode
  frameInfo b :=
    { bitrate := 1000 * bitrateTab.getD (b >>> 4).toNat 0
      nChans := 2
      samprate := 44100
      bitsPerSample := 16
      outputSamps := 2304 }
  frame_size := by
    intro d bs
    fun_cases silentDecode d bs with
    | case1 => exact fun herr => absurd herr (show ERR_MP3_INDATA_UNDERFLOW ≠ 0 by decide)
    | case2 h l b _ bs hsync hlong =>
      intro _
      have := four_le_silentSize b
      show (4 : ℤ) ≤ silentSize b ∧ (silentSize b : ℤ) ≤ (bs.length + 1 + 1 + 1 + 1 : ℕ)
      omega
    | case3 => exact fun herr => absurd herr (show ERR_MP3_INVALID_FRAMEHEADER ≠ 0 by decide)
    | case4 => exact fun herr => absurd herr (show ERR_MP3_INVALID_FRAMEHEADER ≠ 0 by decide)
  consumed_nonneg := by
    intro d bs
    fun_cases silentDecode d bs <;> simp

/-- The frame of silence whose header has the third byte `b`. -/
def silentFrame (b : UInt8) : Mp3Frame where
  bytes := 0xff :: 0xfb :: b :: 0 :: List.replicate (silentSize b - 4) 0
  info := silentHelix.frameInfo b
  output := fun _ => 0

theorem length_silentFrame (b : UInt8) : (silentFrame b).bytes.length = silentSize b := by
  have := four_le_silentSize b
  simp only [silentFrame, List.length_cons, List.length_replicate]
  omega

theorem decodes_silent (bs : List UInt8) : ∀ d, Decodes silentHelix d (bs.map silentFrame) := by
  induction bs with
  | nil => exact fun _ => trivial
  | cons b bs ih =>
    intro d
    have hsync : isSyncWord 0xff 0xfb = true := by decide
    refine ⟨⟨0xff, 0xfb, _, rfl, hsync⟩, ?_, fun rest => ?_⟩
    · intro pre hpre hhead hne
      have hlt : pre.length < silentSize b := by
        rw [← length_silentFrame b]
        exact lt_of_le_of_ne hpre.length_le fun heq => hne (hpre.eq_of_length heq)
      obtain ⟨rest, hrest⟩ := hpre
      match pre, hhead with
      | x :: y :: z :: w :: pre, _ =>
        obtain ⟨rfl, rfl, rfl, rfl, -⟩ : x = 0xff ∧ y = 0xfb ∧ z = b ∧ w = 0 ∧ _ := by
          simpa [silentFrame] using hrest
        show (silentDecode d _).err = _
        rw [silentDecode, if_pos hsync, if_pos (show pre.length + 4 < silentSize z from hlt)]
    · have hwhole : silentHelix.decode d ((silentFrame b).bytes ++ rest) =
          ⟨b, 0, silentSize b, fun _ => 0⟩ := by
        show silentDecode d ((silentFrame b).bytes ++ rest) = ⟨b, 0, silentSize b, fun _ => 0⟩
        have hmin := four_le_silentSize b
        rw [silentFrame, List.cons_append, List.cons_append, List.cons_append, List.cons_append,
          silentDecode, if_pos hsync, if_neg]
        rw [List.length_append, List.length_replicate]
        omega
      rw [hwhole, length_silentFrame]
      exact ⟨rfl, rfl, rfl, rfl, ih b⟩

/-- A stream of two frames of 417 bytes, in three pieces. -/
def shortFrames : List (List UInt8) :=
  let stream := [silentFrame 0x90, silentFrame 0x90].flatMap Mp3Frame.bytes
  [stream.take 300, (stream.drop 300).take 500, stream.drop 800]

theorem mp3Run_frames_silence :
    ∃ rs, mp3Run silentHelix 0 (.fresh silentHelix 1024)
        (shortFrames.map (fun bs => (.data bs, acceptAll)) ++ [(.code AEL_IO_DONE, acceptAll)]) =
        some rs ∧
      rs.flatMap Prod.snd = [silentFrame 0x90, silentFrame 0x90].flatMap Mp3Frame.pcm ∧
      ∀ r ∈ rs, r.1 ≠ ESP_CODEC_ERR_FAIL := by
  have hpieces : shortFrames.flatten =
      [silentFrame 0x90, silentFrame 0x90].flatMap Mp3Frame.bytes := by
    decide +kernel
  obtain ⟨rs, hrs, hiff⟩ := mp3Run_frames (.fresh silentHelix 1024)
    (decodes_silent [0x90, 0x90] _) hpieces
  exact ⟨rs, hrs, hiff.mpr (by decide +kernel)⟩

/-- A stream of one frame of 626 bytes, in two pieces. -/
def longFrame : List (List UInt8) :=
  [(silentFrame 0xb0).bytes.take 600, (silentFrame 0xb0).bytes.drop 600]

/-- The first call has 600 bytes and waits for 512: it tries to decode a frame that is not there,
and no sample is put out. -/
theorem mp3Run_underestimates :
    Decodes silentHelix (Mp3El.fresh silentHelix 1024).inst [silentFrame 0xb0] ∧
      (silentFrame 0xb0).bytes.length < (Mp3El.fresh silentHelix 1024).bufSize ∧
      longFrame.flatten = [silentFrame 0xb0].flatMap Mp3Frame.bytes ∧
      (∀ bs ∈ longFrame, bs ≠ [] ∧ bs.length ≤ 600) ∧
      mp3Run silentHelix 0 (.fresh silentHelix 1024)
          (longFrame.map (fun bs => (.data bs, acceptAll)) ++ [(.code AEL_IO_DONE, acceptAll)]) =
        some [(ESP_CODEC_ERR_FAIL, []), (ESP_CODEC_ERR_CONTINUE, []), (ESP_CODEC_ERR_DONE, [])] ∧
      [silentFrame 0xb0].flatMap Mp3Frame.pcm ≠ [] := by
  refine ⟨decodes_silent [0xb0] _, ?_, ?_, ?_, ?_, ?_⟩
  · decide +kernel
  · decide +kernel
  · decide +kernel
  · decide +kernel
  · decide +kernel

end AudioPipeline
