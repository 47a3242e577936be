import AudioPipeline.Codec.Equiv.Mp3
import AudioPipeline.Codec.Rounds

/-!
## The loop at the end of the stream

* `drainInside_iff`: the loop stays inside the bytes that are left exactly if it finds a sync word
  among them, and the decoder does not fail with more bytes than there are.
* `drain_leaves`: bytes without a sync word are read from the byte in front of the buffer on.
* `drain_passes`: after the header of a frame that is cut off, `readPtr` is behind the bytes.
-/

namespace AudioPipeline

variable {δ : Type} {H : Helix δ}

/-! ### The loops and their rounds -/

theorem outputFrame_round {accept : ℕ → ℤ → ℤ} {lastLeft : ℤ} {p : Round δ}
    (next : (ℕ → ℤ → ℤ) → Option (Mp3Result δ)) :
    outputFrame accept lastLeft (p.el.decoded H (p.decode H)) (p.frameInfo H)
        (p.decode H).output next =
      if p.Refused H accept then
        some ⟨accept 0 (p.pcm H).length, lastLeft, (p.next H).el, p.pcm H⟩
      else (next (p.nextAccept H accept)).map fun r => { r with pcm := p.pcm H ++ r.pcm } := by
  unfold outputFrame Round.Refused Round.nextAccept Round.pcm Mp3Decoded.Refused
    Mp3Decoded.nextAccept Mp3Decoded.pcm Round.frameInfo
  by_cases hsamps : 0 < (H.frameInfo (p.decode H).inst).outputSamps
  · simp only [hsamps, true_and]
    rfl
  · simp only [hsamps, false_and, if_false, List.nil_append]
    exact Option.map_id'.symm

theorem drainLoop_round (lastLeft : ℤ) (fuel : ℕ) (accept : ℕ → ℤ → ℤ) (p : Round δ) :
    drainLoop H lastLeft (fuel + 1) accept p.el p.pos p.left =
      if (p.decode H).err ≠ 0 then
        some ⟨ESP_CODEC_ERR_DONE, p.readLeft - (p.decode H).consumed,
          { p.el with inst := (p.decode H).inst }, []⟩
      else if p.Refused H accept then
        some ⟨accept 0 (p.pcm H).length, lastLeft, (p.next H).el, p.pcm H⟩
      else
        (drainLoop H lastLeft fuel (p.nextAccept H accept) (p.next H).el (p.next H).pos
          (p.next H).left).map fun r => { r with pcm := p.pcm H ++ r.pcm } := by
  rw [← outputFrame_round fun accept =>
    drainLoop H lastLeft fuel accept (p.next H).el (p.next H).pos (p.next H).left]
  rfl

/-- A frame is among the bytes left. -/
theorem Round.frame_size {p : Round δ} (herr : (p.decode H).err = 0) :
    4 ≤ (p.decode H).consumed ∧ (p.decode H).consumed ≤ p.readLeft := by
  obtain ⟨hmin, hmax⟩ := H.frame_size _ _ herr
  rw [Round.given, Mp3El.length_bytes] at hmax
  change 4 ≤ (p.decode H).consumed at hmin
  change (p.decode H).consumed ≤ p.readLeft.toNat at hmax
  constructor <;> omega

/-! ### Where the loop at the end of the stream is -/

/-- A round inside the `n` bytes that are left: `readPtr` is in front of some of them or behind the
last one, and `left` is their number, at the start of the round, when the decoder is called, and
after it. -/
structure Round.Inside (H : Helix δ) (p : Round δ) (n : ℤ) : Prop where
  pos : 0 ≤ p.pos ∧ p.pos ≤ n
  left : p.left = n - p.pos
  readPos : 0 ≤ p.readPos ∧ p.readPos ≤ n
  readLeft : p.readLeft = n - p.readPos
  donePos : 0 ≤ p.donePos H ∧ p.donePos H ≤ n
  doneLeft : p.doneLeft H = n - p.donePos H

/-- The call at the end of the stream stays inside the `n` bytes that are left, ends, and leaves no
more of them. -/
structure DrainInside (H : Helix δ) (n : ℤ) (el : Mp3El δ) (accept : ℕ → ℤ → ℤ) : Prop where
  rounds : ∀ p ∈ drainRounds H (n.toNat + 1) accept ⟨el, 0, n⟩, p.Inside H n
  ends : ∃ r, mp3DecoderProcess H n el (.code AEL_IO_DONE) accept = some r ∧ r.lastLeft ≤ n

/-- A round in which going back by a byte does not leave the bytes. -/
structure Round.Ahead (p : Round δ) (n : ℤ) : Prop where
  pos : 0 ≤ p.pos ∧ p.pos ≤ n
  left : p.left = n - p.pos
  back : 1 ≤ p.pos ∨ 0 ≤ p.offset

theorem Round.Ahead.read {p : Round δ} {n : ℤ} (h : p.Ahead n) :
    (0 ≤ p.readPos ∧ p.readPos ≤ n) ∧ p.readLeft = n - p.readPos := by
  obtain ⟨hpos, hleft, hback⟩ := h
  have hoff := mp3FindSyncWord_cases (p.el.bytes p.pos p.left)
  rw [Mp3El.length_bytes] at hoff
  have hread : p.readPos = p.pos + p.offset := rfl
  have hreadLeft : p.readLeft = p.left - p.offset := rfl
  change p.offset = -1 ∨ 0 ≤ p.offset ∧ p.offset + 2 ≤ p.left.toNat at hoff
  constructor
  · omega
  · omega

/-- The decoder is given all bytes from `readPtr` on. -/
theorem Round.Ahead.length_given {p : Round δ} {n : ℤ} (h : p.Ahead n) :
    (p.given.length : ℤ) = p.readLeft := by
  obtain ⟨⟨-, hread⟩, hreadLeft⟩ := h.read
  rw [Round.given, Mp3El.length_bytes]
  omega

/-- The round is inside if the decoder does not take more than it is given. -/
theorem Round.Ahead.inside_iff {p : Round δ} {n : ℤ} (h : p.Ahead n) :
    p.Inside H n ↔ (p.decode H).consumed ≤ p.given.length := by
  obtain ⟨hread, hreadLeft⟩ := h.read
  have hcons : 0 ≤ (p.decode H).consumed := H.consumed_nonneg _ _
  have hdone : p.donePos H = p.readPos + (p.decode H).consumed := rfl
  have hdoneLeft : p.doneLeft H = p.readLeft - (p.decode H).consumed := rfl
  rw [h.length_given]
  constructor
  · intro hin
    have := hin.donePos
    omega
  · intro hle
    constructor
    · exact h.pos
    · exact h.left
    · exact hread
    · exact hreadLeft
    · omega
    · omega

theorem Round.Ahead.inside {p : Round δ} {n : ℤ} (h : p.Ahead n) (herr : (p.decode H).err = 0) :
    p.Inside H n :=
  h.inside_iff.mpr (H.frame_size _ _ herr).2

/-- A frame is longer than the byte that the next round may go back. -/
theorem Round.Ahead.next {p : Round δ} {n : ℤ} (h : p.Ahead n) (herr : (p.decode H).err = 0) :
    (p.next H).Ahead n := by
  obtain ⟨⟨hread, -⟩, -⟩ := h.read
  have hin := h.inside herr
  obtain ⟨hmin, -⟩ := p.frame_size herr
  have hpos : (p.next H).pos = p.readPos + (p.decode H).consumed := rfl
  constructor
  · exact hin.donePos
  · exact hin.doneLeft
  · left
    omega

/-- What the decoder is given after a frame. -/
theorem Round.given_next {p : Round δ} (herr : (p.decode H).err = 0) :
    (p.next H).given = behindFrame (p.given.drop ((p.decode H).consumed.toNat - 1)) := by
  obtain ⟨hmin, -⟩ := p.frame_size herr
  have hpos : (p.next H).pos = p.readPos + (p.decode H).consumed := rfl
  have hleft : (p.next H).left = p.readLeft - (p.decode H).consumed := rfl
  have hcons : ((p.decode H).consumed.toNat : ℤ) = (p.decode H).consumed := by omega
  -- the bytes behind the frame, and those with its last byte in front of them
  have htail : (p.given.drop ((p.decode H).consumed.toNat - 1)).tail =
      (p.next H).el.bytes (p.next H).pos (p.next H).left := by
    rw [List.tail_drop, Nat.sub_add_cancel (by omega)]
    have hdrop := p.el.bytes_drop p.readPos p.readLeft (p.decode H).consumed.toNat
    rw [hcons] at hdrop
    exact hdrop.symm
  have hback : p.given.drop ((p.decode H).consumed.toNat - 1) =
      (p.next H).el.bytes ((p.next H).pos - 1) ((p.next H).left + 1) := by
    rw [show (p.next H).pos - 1 = p.readPos + ((p.decode H).consumed.toNat - 1 : ℕ) by omega,
      show (p.next H).left + 1 = p.readLeft - ((p.decode H).consumed.toNat - 1 : ℕ) by omega]
    exact (p.el.bytes_drop _ _ _).symm
  unfold behindFrame
  rw [htail]
  have hoff := mp3FindSyncWord_cases ((p.next H).el.bytes (p.next H).pos (p.next H).left)
  change (p.next H).offset = -1 ∨ 0 ≤ (p.next H).offset ∧ _ at hoff
  show (p.next H).el.bytes ((p.next H).pos + (p.next H).offset)
    ((p.next H).left - (p.next H).offset) = if 0 ≤ (p.next H).offset then
      ((p.next H).el.bytes (p.next H).pos (p.next H).left).drop (p.next H).offset.toNat else _
  rcases hoff with hnone | ⟨hsync, -⟩
  · rw [hnone, if_neg (by decide), hback]
    rfl
  · rw [if_pos hsync, ← Mp3El.bytes_drop, Int.toNat_of_nonneg hsync]

/-- The rounds from `p` on stay inside exactly if the frames from `p` on end inside. -/
theorem drainRounds_inside_iff {n : ℤ} (fuel : ℕ) :
    ∀ (accept : ℕ → ℤ → ℤ) (p : Round δ), p.Ahead n → p.left.toNat < fuel →
      ((∀ q ∈ drainRounds H fuel accept p, q.Inside H n) ↔
        EndsInside H accept p.el.inst p.given) := by
  induction fuel with
  | zero => exact fun _ _ _ hfuel => absurd hfuel (Nat.not_lt_zero _)
  | succ fuel ih =>
    intro accept p hp hfuel
    rw [drainRounds, List.forall_mem_cons]
    by_cases herr : (p.decode H).err = 0
    · -- a frame: the round is inside
      rw [if_neg (not_not.mpr herr)]
      by_cases href : p.Refused H accept
      · rw [if_pos href]
        exact ⟨fun _ => .refused herr href, fun _ => ⟨hp.inside herr, fun _ h => nomatch h⟩⟩
      rw [if_neg href]
      have hlt : (p.next H).left.toNat < fuel := by
        obtain ⟨hpos, hnextLeft, -⟩ := hp.next herr
        obtain ⟨hmin, -⟩ := p.frame_size herr
        have hoff := mp3FindSyncWord_cases (p.el.bytes p.pos p.left)
        change p.offset = -1 ∨ 0 ≤ p.offset ∧ _ at hoff
        have hleft : (p.next H).left = p.left - p.offset - (p.decode H).consumed := rfl
        omega
      have hnext := ih (p.nextAccept H accept) (p.next H) (hp.next herr) hlt
      rw [p.given_next herr] at hnext
      constructor
      · exact fun h => .frame herr href (hnext.mp h.2)
      · intro h
        cases h with
        | fail hfail _ => exact absurd herr hfail
        | refused _ href' => exact absurd href' href
        | frame _ _ h => exact ⟨hp.inside herr, hnext.mpr h⟩
    · -- the decoder fails: this is the last round
      rw [if_pos herr, hp.inside_iff]
      constructor
      · exact fun h => .fail herr h.1
      · intro h
        cases h with
        | fail _ hle => exact ⟨hle, fun _ h => nomatch h⟩
        | refused hok _ => exact absurd hok herr
        | frame hok _ _ => exact absurd hok herr

theorem drainLoop_lastLeft {n : ℤ} (fuel : ℕ) :
    ∀ (accept : ℕ → ℤ → ℤ) (p : Round δ), p.Ahead n →
      ∀ r ∈ drainLoop H n fuel accept p.el p.pos p.left, r.lastLeft ≤ n := by
  induction fuel with
  | zero => exact fun _ _ _ _ hr => absurd hr (Option.not_mem_none _)
  | succ fuel ih =>
    intro accept p hp r hr
    rw [drainLoop_round] at hr
    split_ifs at hr with herr href
    · obtain rfl := Option.some.inj hr
      have hcons := H.consumed_nonneg p.el.inst (p.el.bytes p.readPos p.readLeft)
      obtain ⟨⟨hread, -⟩, hreadLeft⟩ := hp.read
      show p.readLeft - (p.decode H).consumed ≤ n
      change 0 ≤ (p.decode H).consumed at hcons
      omega
    · obtain rfl := Option.some.inj hr
      exact le_rfl
    · rw [not_not] at herr
      obtain ⟨r', hr', rfl⟩ := Option.map_eq_some_iff.mp hr
      exact ih _ _ (hp.next herr) r' hr'

/-- **The call at the end of the stream stays inside the bytes that are left exactly if there is a
sync word among them**, and the decoder, if it comes to bytes with which it fails, does not take
more of them than there are. -/
theorem drainInside_iff {n : ℤ} (hn : 1 ≤ n) (el : Mp3El δ) (accept : ℕ → ℤ → ℤ) :
    DrainInside H n el accept ↔
      0 ≤ mp3FindSyncWord (el.bytes 0 n) ∧
        EndsInside H accept el.inst
          ((el.bytes 0 n).drop (mp3FindSyncWord (el.bytes 0 n)).toNat) := by
  have hstart (hsync : 0 ≤ mp3FindSyncWord (el.bytes 0 n)) : (⟨el, 0, n⟩ : Round δ).Ahead n := by
    refine ⟨⟨le_rfl, ?_⟩, ?_, Or.inr hsync⟩
    · show 0 ≤ n
      omega
    · show n = n - 0
      omega
  have hgiven (hsync : 0 ≤ mp3FindSyncWord (el.bytes 0 n)) : (⟨el, 0, n⟩ : Round δ).given =
      (el.bytes 0 n).drop (mp3FindSyncWord (el.bytes 0 n)).toNat := by
    rw [← Mp3El.bytes_drop, Int.toNat_of_nonneg hsync]
    rfl
  constructor
  · intro h
    have hsync : 0 ≤ mp3FindSyncWord (el.bytes 0 n) := by
      -- `readPtr` is at the sync word in the first round
      have hread := (h.rounds ⟨el, 0, n⟩ List.mem_cons_self).readPos.1
      change 0 ≤ 0 + mp3FindSyncWord (el.bytes 0 n) at hread
      omega
    rw [← hgiven hsync]
    exact ⟨hsync, (drainRounds_inside_iff _ accept _ (hstart hsync) (Nat.lt_succ_self _)).mp
      h.rounds⟩
  · rintro ⟨hsync, hends⟩
    rw [← hgiven hsync] at hends
    constructor
    · exact (drainRounds_inside_iff _ accept _ (hstart hsync) (Nat.lt_succ_self _)).mpr hends
    · obtain ⟨r, hr⟩ := Option.isSome_iff_exists.mp
        (mp3DecoderProcess_isSome H n el (.code AEL_IO_DONE) accept)
      refine ⟨r, hr, ?_⟩
      rw [mp3DecoderProcess, if_neg (by decide), if_pos ⟨rfl, by omega⟩] at hr
      exact drainLoop_lastLeft _ accept _ (hstart hsync) r hr

/-- A frame of silence and one byte, with which the decoder fails. -/
theorem drainInside_frame :
    DrainInside silentHelix 418
      ((Mp3El.fresh silentHelix 1024).write 0 ((silentFrame 0x90).bytes ++ [0xff])) acceptAll := by
  refine (drainInside_iff (by decide) _ _).mpr ⟨by decide +kernel, .frame ?_ ?_ (.fail ?_ ?_)⟩
  all_goals decide +kernel

/-- Five bytes that are not of a frame: `readPtr` is in front of the buffer, and six bytes are left
after the call. -/
theorem drain_leaves :
    let el := (Mp3El.fresh silentHelix 1024).write 0 [1, 2, 3, 4, 5]
    ¬DrainInside silentHelix 5 el acceptAll ∧
      (drainRounds silentHelix 6 acceptAll ⟨el, 0, 5⟩).map (fun p => (p.readPos, p.readLeft)) =
        [(-1, 6)] ∧
      (mp3DecoderProcess silentHelix 5 el (.code AEL_IO_DONE) acceptAll).map Mp3Result.lastLeft =
        some 6 := by
  refine ⟨fun h => ?_, by decide, by decide⟩
  have hread := (h.rounds _ List.mem_cons_self).readPos.1
  exact absurd hread (by decide)

/-- There is a sync word, of a frame that is cut off: the decoder counts the bytes of the header and
of the side information, `readPtr` is 32 bytes behind the last one, and `left` is negative. -/
theorem drain_passes :
    let el := (Mp3El.fresh silentHelix 1024).write 0 [1, 2, 0xff, 0xfb, 0x90, 0]
    ¬DrainInside silentHelix 6 el acceptAll ∧ mp3FindSyncWord (el.bytes 0 6) = 2 ∧
      (drainRounds silentHelix 7 acceptAll ⟨el, 0, 6⟩).map
          (fun p => (p.donePos silentHelix, p.doneLeft silentHelix)) = [(38, -32)] ∧
      (mp3DecoderProcess silentHelix 6 el (.code AEL_IO_DONE) acceptAll).map Mp3Result.lastLeft =
        some (-32) := by
  refine ⟨fun h => ?_, by decide, by decide, by decide⟩
  have hdone := (h.rounds _ List.mem_cons_self).donePos.2
  exact absurd hdone (by decide)

end AudioPipeline
