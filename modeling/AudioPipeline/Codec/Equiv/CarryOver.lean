import AudioPipeline.Codec.Equiv.EndOfStream

/-!
## What a call leaves for the next one

A call of `mp3_decoder_process` that returns a positive value or `AEL_IO_TIMEOUT` is followed by
another one, which takes the first `last_left` bytes of the buffer for the bytes that are not yet
decoded.

* `conserves_iff`: they are that exactly if the call `KeepsCarry`: no output is refused, and nothing
  is carried over when the input times out.
* `timeout_loses`: the silence of a timeout is put over the bytes of a frame.
-/

namespace AudioPipeline

variable {δ : Type} {H : Helix δ}

/-! ### How the loops end -/

theorem Round.next_span {p : Round δ} (hpos : 0 ≤ p.pos) (hoff : 0 ≤ p.offset)
    (herr : (p.decode H).err = 0) :
    0 ≤ (p.next H).pos ∧ 0 ≤ (p.next H).left ∧
      (p.next H).pos + (p.next H).left = p.pos + p.left := by
  obtain ⟨hmin, hmax⟩ := p.frame_size herr
  have hreadPos : p.readPos = p.pos + p.offset := rfl
  have hreadLeft : p.readLeft = p.left - p.offset := rfl
  have hnextPos : (p.next H).pos = p.readPos + (p.decode H).consumed := rfl
  have hnextLeft : (p.next H).left = p.readLeft - (p.decode H).consumed := rfl
  refine ⟨?_, ?_, ?_⟩
  · omega
  · omega
  · omega

theorem decodeLoop_round (framesize lastLeft : ℤ) (fuel : ℕ) (accept : ℕ → ℤ → ℤ) (p : Round δ) :
    decodeLoop H framesize lastLeft (fuel + 1) accept p.el p.pos p.left =
      if p.offset < 0 ∨ p.readLeft < framesize then
        some ⟨ESP_CODEC_ERR_CONTINUE, p.left, p.el.memmove p.pos p.left, []⟩
      else if (p.decode H).err ≠ 0 then
        some ⟨ESP_CODEC_ERR_FAIL, lastLeft, { p.el with inst := (p.decode H).inst }, []⟩
      else if p.Refused H accept then
        some ⟨accept 0 (p.pcm H).length, lastLeft, (p.next H).el, p.pcm H⟩
      else
        (decodeLoop H framesize lastLeft fuel (p.nextAccept H accept) (p.next H).el (p.next H).pos
          (p.next H).left).map fun r => { r with pcm := p.pcm H ++ r.pcm } := by
  rw [← outputFrame_round fun accept => decodeLoop H framesize lastLeft fuel accept (p.next H).el
    (p.next H).pos (p.next H).left]
  rfl

/-- What a loop leaves that ends as `e` says; it returns `code` if the decoder fails. -/
def Mp3Result.EndsAs (r : Mp3Result δ) (code lastLeft : ℤ) (e : Exit × Round δ) : Prop :=
  match e.1 with
  | .stop => r.lastLeft = e.2.left ∧ r.el = e.2.el.memmove e.2.pos e.2.left
  | .fail => r.ret = code
  | .refused w => r.ret = w ∧ r.lastLeft = lastLeft ∧ r.el = e.2.el

theorem decodeLoop_exit {framesize lastLeft : ℤ} (fuel : ℕ) :
    ∀ (accept : ℕ → ℤ → ℤ) (p : Round δ),
      ∀ r ∈ decodeLoop H framesize lastLeft fuel accept p.el p.pos p.left,
        r.EndsAs ESP_CODEC_ERR_FAIL lastLeft (decodeExit H framesize fuel accept p) := by
  induction fuel with
  | zero => exact fun _ _ _ hr => absurd hr (Option.not_mem_none _)
  | succ fuel ih =>
    intro accept p r hr
    rw [decodeLoop_round] at hr
    rw [decodeExit]
    split_ifs at hr ⊢ with hstop herr href
    · obtain rfl := Option.some.inj hr
      exact ⟨rfl, rfl⟩
    · obtain rfl := Option.some.inj hr
      rfl
    · obtain rfl := Option.some.inj hr
      exact ⟨rfl, rfl, rfl⟩
    · obtain ⟨r', hr', rfl⟩ := Option.map_eq_some_iff.mp hr
      exact ih _ _ r' hr'

theorem drainLoop_exit {lastLeft : ℤ} (fuel : ℕ) :
    ∀ (accept : ℕ → ℤ → ℤ) (p : Round δ),
      ∀ r ∈ drainLoop H lastLeft fuel accept p.el p.pos p.left,
        (drainExit H fuel accept p).1 ≠ .stop ∧
          r.EndsAs ESP_CODEC_ERR_DONE lastLeft (drainExit H fuel accept p) := by
  induction fuel with
  | zero => exact fun _ _ _ hr => absurd hr (Option.not_mem_none _)
  | succ fuel ih =>
    intro accept p r hr
    rw [drainLoop_round] at hr
    rw [drainExit]
    split_ifs at hr ⊢ with herr href
    · obtain rfl := Option.some.inj hr
      exact ⟨Exit.noConfusion, rfl⟩
    · obtain rfl := Option.some.inj hr
      exact ⟨Exit.noConfusion, rfl, rfl, rfl⟩
    · obtain ⟨r', hr', rfl⟩ := Option.map_eq_some_iff.mp hr
      exact ih _ _ r' hr'

/-- The loop does not write to the buffer, and goes on in it. -/
theorem decodeExit_span {framesize : ℤ} (fuel : ℕ) :
    ∀ (accept : ℕ → ℤ → ℤ) (p : Round δ), 0 ≤ p.pos → 0 ≤ p.left →
      (∀ pos left, (decodeExit H framesize fuel accept p).2.el.bytes pos left =
          p.el.bytes pos left) ∧
        0 ≤ (decodeExit H framesize fuel accept p).2.pos ∧
        0 ≤ (decodeExit H framesize fuel accept p).2.left ∧
        (decodeExit H framesize fuel accept p).2.pos +
          (decodeExit H framesize fuel accept p).2.left = p.pos + p.left := by
  induction fuel with
  | zero => exact fun _ _ hpos hleft => ⟨fun _ _ => rfl, hpos, hleft, rfl⟩
  | succ fuel ih =>
    intro accept p hpos hleft
    rw [decodeExit]
    split_ifs with hstop herr href
    · exact ⟨fun _ _ => rfl, hpos, hleft, rfl⟩
    · exact ⟨fun _ _ => rfl, hpos, hleft, rfl⟩
    all_goals
      rw [not_or, not_lt] at hstop
      rw [not_not] at herr
      obtain ⟨hnext, hnext', hsum⟩ := p.next_span hpos hstop.1 herr
    · exact ⟨fun _ _ => rfl, hnext, hnext', hsum⟩
    · obtain ⟨hbytes, hpos', hleft', hsum'⟩ := ih (p.nextAccept H accept) (p.next H) hnext hnext'
      exact ⟨fun pos left => (hbytes pos left).trans rfl, hpos', hleft', by omega⟩

/-- Less is left after a frame that is refused at the end of the stream. -/
theorem drainExit_left (fuel : ℕ) :
    ∀ (accept : ℕ → ℤ → ℤ) (p : Round δ) (w : ℤ),
      (drainExit H fuel accept p).1 = .refused w → 0 ≤ (drainExit H fuel accept p).2.left ∧
        (drainExit H fuel accept p).2.left < p.left := by
  -- by induction on the rounds, each of which takes at least 4 bytes and goes back by at most one
  induction fuel with
  | zero => exact fun _ _ _ h => Exit.noConfusion h
  | succ fuel ih =>
    intro accept p w h
    rw [drainExit] at h ⊢
    split_ifs at h ⊢ with herr href
    all_goals
      rw [not_not] at herr
      obtain ⟨hmin, hmax⟩ := p.frame_size herr
      have hoff := mp3FindSyncWord_cases (p.el.bytes p.pos p.left)
      change p.offset = -1 ∨ 0 ≤ p.offset ∧ _ at hoff
      have hread : p.readLeft = p.left - p.offset := rfl
      have hnext : (p.next H).left = p.readLeft - (p.decode H).consumed := rfl
    · show 0 ≤ (p.next H).left ∧ (p.next H).left < p.left
      omega
    · obtain ⟨hnonneg, hlt⟩ := ih _ _ w h
      exact ⟨hnonneg, by omega⟩

/-! ### The bytes that are carried over -/

/-- The element takes up its work again after a call that returns this. -/
def GoesOn (ret : ℤ) : Prop := 0 < ret ∨ ret = AEL_IO_TIMEOUT

instance (ret : ℤ) : Decidable (GoesOn ret) := inferInstanceAs (Decidable (_ ∨ _))

/-- How a call with bytes ends. -/
def dataExit (H : Helix δ) (lastLeft : ℤ) (el : Mp3El δ) (bs : List UInt8)
    (accept : ℕ → ℤ → ℤ) : Exit × Round δ :=
  decodeExit H el.info.estimate ((lastLeft + bs.length).toNat + 1) accept
    ⟨el.write lastLeft bs, 0, lastLeft + bs.length⟩

/-- How a call at the end of the stream ends. -/
def doneExit (H : Helix δ) (lastLeft : ℤ) (el : Mp3El δ) (accept : ℕ → ℤ → ℤ) : Exit × Round δ :=
  drainExit H (lastLeft.toNat + 1) accept ⟨el, 0, lastLeft⟩

/-- The bytes that have been received and not decoded, nor skipped for a sync word: those from
`readPtr` on when the call ends. -/
def unread (H : Helix δ) (lastLeft : ℤ) (el : Mp3El δ) (input : Mp3Input)
    (accept : ℕ → ℤ → ℤ) : List UInt8 :=
  match input with
  | .data bs =>
    let p := (dataExit H lastLeft el bs accept).2
    p.el.bytes p.pos p.left
  | .code ret =>
    if ret = AEL_IO_DONE ∧ 0 < lastLeft then
      let p := (doneExit H lastLeft el accept).2
      p.el.bytes p.pos p.left
    else el.bytes 0 lastLeft

/-- After the call the first `last_left` bytes of the buffer are the unread ones, if there is a call
after it. -/
def Conserves (H : Helix δ) (lastLeft : ℤ) (el : Mp3El δ) (input : Mp3Input)
    (accept : ℕ → ℤ → ℤ) : Prop :=
  ∃ r, mp3DecoderProcess H lastLeft el input accept = some r ∧
    (GoesOn r.ret → r.el.bytes 0 r.lastLeft = unread H lastLeft el input accept)

/-- No frame is refused after which the call is repeated, unless as many bytes are left as there
were, and the same ones.  There are only zeros to keep when the input times out. -/
def KeepsCarry (H : Helix δ) (lastLeft : ℤ) (el : Mp3El δ) (input : Mp3Input)
    (accept : ℕ → ℤ → ℤ) : Prop :=
  match input with
  | .data bs =>
    ∀ w, (dataExit H lastLeft el bs accept).1 = .refused w → GoesOn w →
      el.bytes 0 lastLeft = unread H lastLeft el input accept
  | .code ret =>
    (ret = AEL_IO_TIMEOUT → GoesOn (accept 0 el.bufSize) →
      el.bytes 0 lastLeft = List.replicate lastLeft.toNat 0) ∧
    (ret = AEL_IO_DONE ∧ 0 < lastLeft →
      ∀ w, (doneExit H lastLeft el accept).1 = .refused w → ¬GoesOn w)

/-- The unread bytes are the last ones of those carried over and received. -/
theorem unread_suffix {lastLeft : ℤ} (h₀ : 0 ≤ lastLeft) (el : Mp3El δ) (bs : List UInt8)
    (accept : ℕ → ℤ → ℤ) :
    unread H lastLeft el (.data bs) accept <:+ el.bytes 0 lastLeft ++ bs := by
  have hleft : (0 : ℤ) ≤ lastLeft + bs.length := by omega
  obtain ⟨hbytes, hpos, hleft', hsum⟩ := decodeExit_span (H := H)
    ((lastLeft + bs.length).toNat + 1) accept ⟨el.write lastLeft bs, 0, lastLeft + bs.length⟩
    le_rfl hleft
  rw [← el.write_bytes h₀ bs]
  refine ⟨(el.write lastLeft bs).bytes 0 (dataExit H lastLeft el bs accept).2.pos, ?_⟩
  show _ ++ (dataExit H lastLeft el bs accept).2.el.bytes _ _ = _
  rw [dataExit, hbytes]
  have hsplit := (el.write lastLeft bs).bytes_append 0 hpos hleft'
  rw [hsum, Int.zero_add, Int.zero_add] at hsplit
  exact hsplit.symm

theorem write_front {lastLeft : ℤ} (h₀ : 0 ≤ lastLeft) (el : Mp3El δ) (bs : List UInt8) :
    (el.write lastLeft bs).bytes 0 lastLeft = el.bytes 0 lastLeft := by
  have hsplit := (el.write lastLeft bs).bytes_append 0 h₀ (Int.natCast_nonneg bs.length)
  rw [el.write_bytes h₀ bs] at hsplit
  exact (List.append_inj_left hsplit (by rw [Mp3El.length_bytes, Mp3El.length_bytes])).symm

theorem memset_bytes {el : Mp3El δ} {n : ℤ} (hn : n ≤ el.bufSize) :
    el.memset.bytes 0 n = List.replicate n.toNat 0 := by
  refine List.ext_getElem (by rw [Mp3El.length_bytes, List.length_replicate]) fun i hi hi' => ?_
  rw [Mp3El.length_bytes] at hi
  rw [Mp3El.getElem_bytes, List.getElem_replicate, if_neg (by omega)]
  show (if 0 ≤ 0 + (i : ℤ) ∧ 0 + (i : ℤ) < el.bufSize then 0 else _) = (0 : UInt8)
  rw [if_pos (by omega)]

theorem conserves_data {lastLeft : ℤ} (h₀ : 0 ≤ lastLeft) (el : Mp3El δ) (bs : List UInt8)
    (accept : ℕ → ℤ → ℤ) :
    Conserves H lastLeft el (.data bs) accept ↔ KeepsCarry H lastLeft el (.data bs) accept := by
  obtain ⟨r, hr⟩ := Option.isSome_iff_exists.mp
    (mp3DecoderProcess_isSome H lastLeft el (.data bs) accept)
  have hleft : (0 : ℤ) ≤ lastLeft + bs.length := by omega
  obtain ⟨hbytes, hpos, -, -⟩ := decodeExit_span (H := H) ((lastLeft + bs.length).toNat + 1) accept
    ⟨el.write lastLeft bs, 0, lastLeft + bs.length⟩ le_rfl hleft
  -- how the loop ends says which bytes are carried over
  have hexit : r.EndsAs ESP_CODEC_ERR_FAIL lastLeft (dataExit H lastLeft el bs accept) :=
    decodeLoop_exit _ accept ⟨el.write lastLeft bs, 0, lastLeft + bs.length⟩ r hr
  change ∀ pos left, (dataExit H lastLeft el bs accept).2.el.bytes pos left = _ at hbytes
  change 0 ≤ (dataExit H lastLeft el bs accept).2.pos at hpos
  have hcons : Conserves H lastLeft el (.data bs) accept ↔ (GoesOn r.ret →
      r.el.bytes 0 r.lastLeft = unread H lastLeft el (.data bs) accept) := by
    constructor
    · rintro ⟨r', hr', h⟩
      rw [hr, Option.some.injEq] at hr'
      rw [hr']
      exact h
    · exact fun h => ⟨r, hr, h⟩
  rw [hcons]
  unfold KeepsCarry unread
  unfold Mp3Result.EndsAs at hexit
  dsimp only
  cases he : (dataExit H lastLeft el bs accept).1 with
  | stop =>
    rw [he] at hexit
    obtain ⟨hlast, hel⟩ := hexit
    constructor
    · exact fun _ w h => Exit.noConfusion h
    · intro _ _
      rw [hlast, hel, Mp3El.memmove_bytes _ hpos]
  | fail =>
    rw [he] at hexit
    constructor
    · exact fun _ w h => Exit.noConfusion h
    · intro _ hgo
      have hret : r.ret = ESP_CODEC_ERR_FAIL := hexit
      rw [hret] at hgo
      exact absurd hgo (by decide)
  | refused w =>
    rw [he] at hexit
    obtain ⟨hret, hlast, hel⟩ := hexit
    -- a refused frame leaves `last_left` and the bytes at the start of the buffer as they were
    have hfront : r.el.bytes 0 r.lastLeft = el.bytes 0 lastLeft := by
      rw [hlast, hel, hbytes]
      exact write_front h₀ el bs
    rw [hret, hfront]
    constructor
    · intro h w' hw'
      rw [← Exit.refused.inj hw']
      exact h
    · exact fun h => h w rfl

theorem conserves_code {lastLeft : ℤ} {el : Mp3El δ} (hfit : lastLeft ≤ el.bufSize) (ret : ℤ)
    (accept : ℕ → ℤ → ℤ) :
    Conserves H lastLeft el (.code ret) accept ↔ KeepsCarry H lastLeft el (.code ret) accept := by
  unfold Conserves KeepsCarry unread
  dsimp only
  rw [mp3DecoderProcess]
  by_cases htime : ret = AEL_IO_TIMEOUT
  · have hdone : ¬(ret = AEL_IO_DONE ∧ 0 < lastLeft) := by
      rw [htime]
      exact fun h => absurd h.1 (by decide)
    simp only [if_pos htime, if_neg hdone, Option.some.injEq, exists_eq_left', memset_bytes hfit]
    constructor
    · exact fun h => ⟨fun _ hgo => (h hgo).symm, fun h => absurd h hdone⟩
    · exact fun h hgo => (h.1 htime hgo).symm
  rw [if_neg htime]
  by_cases hdone : ret = AEL_IO_DONE ∧ 0 < lastLeft
  · obtain ⟨r, hr⟩ := Option.isSome_iff_exists.mp (drainLoop_isSome (H := H) lastLeft
      (lastLeft.toNat + 1) accept el 0 lastLeft (Nat.lt_succ_self _))
    have hexit := drainLoop_exit (lastLeft.toNat + 1) accept ⟨el, 0, lastLeft⟩ r hr
    change (doneExit H lastLeft el accept).1 ≠ .stop ∧
      r.EndsAs ESP_CODEC_ERR_DONE lastLeft (doneExit H lastLeft el accept) at hexit
    obtain ⟨hstop, hexit⟩ := hexit
    unfold Mp3Result.EndsAs at hexit
    simp only [if_pos hdone, hr, Option.some.injEq, exists_eq_left']
    cases he : (doneExit H lastLeft el accept).1 with
    | stop => exact absurd he hstop
    | fail =>
      rw [he] at hexit
      have hret : r.ret = ESP_CODEC_ERR_DONE := hexit
      rw [hret]
      constructor
      · exact fun _ => ⟨fun h => absurd h htime, fun _ w h => Exit.noConfusion h⟩
      · exact fun _ hgo => absurd hgo (by decide)
    | refused w =>
      rw [he] at hexit
      obtain ⟨hret, hlast, hel⟩ := hexit
      -- a frame less is left than is kept
      have hlen := drainExit_left (H := H) (lastLeft.toNat + 1) accept ⟨el, 0, lastLeft⟩ w he
      change 0 ≤ (doneExit H lastLeft el accept).2.left ∧
        (doneExit H lastLeft el accept).2.left < lastLeft at hlen
      rw [hret, hlast]
      constructor
      · refine fun h => ⟨fun h => absurd h htime, fun _ w' hw' hgo => ?_⟩
        rw [← Exit.refused.inj hw'] at hgo
        have hbytes := congrArg List.length (h hgo)
        rw [Mp3El.length_bytes, Mp3El.length_bytes] at hbytes
        omega
      · exact fun h hgo => absurd hgo (h.2 hdone w rfl)
  · simp only [if_neg hdone, Option.some.injEq, exists_eq_left']
    constructor
    · exact fun _ => ⟨fun h => absurd h htime, fun h => absurd h hdone⟩
    · exact fun _ _ => trivial

/-- **The bytes that are not decoded yet are carried over exactly if no frame is refused and no
silence is put in their place.** -/
theorem conserves_iff {lastLeft : ℤ} (h₀ : 0 ≤ lastLeft) {el : Mp3El δ}
    (hfit : lastLeft ≤ el.bufSize) (input : Mp3Input) (accept : ℕ → ℤ → ℤ) :
    Conserves H lastLeft el input accept ↔ KeepsCarry H lastLeft el input accept := by
  cases input with
  | data bs => exact conserves_data h₀ el bs accept
  | code ret => exact conserves_code hfit ret accept

/-- A frame is decoded, and the bytes after it are carried over. -/
theorem conserves_frame :
    Conserves silentHelix 0 (.fresh silentHelix 1024) (.data ((silentFrame 0xa0).bytes ++ [0xff]))
      acceptAll := by
  refine (conserves_iff le_rfl (show (0 : ℤ) ≤ 1024 by decide) _ _).mpr fun w hw => ?_
  have hstop : (dataExit silentHelix 0 (.fresh silentHelix 1024)
      ((silentFrame 0xa0).bytes ++ [0xff]) acceptAll).1 = .stop := by
    decide +kernel
  rw [hstop] at hw
  exact Exit.noConfusion hw

/-- Three bytes of a frame are left when the input times out: silence is put out from their place,
and three zeros are taken for them in the next call. -/
theorem timeout_loses :
    let el := (Mp3El.fresh silentHelix 1024).write 0 [0xff, 0xfb, 0x90]
    ¬Conserves silentHelix 3 el (.code AEL_IO_TIMEOUT) acceptAll ∧
      (mp3DecoderProcess silentHelix 3 el (.code AEL_IO_TIMEOUT) acceptAll).map
        (fun r => (r.ret, r.el.bytes 0 r.lastLeft)) = some (1024, [0, 0, 0]) := by
  refine ⟨fun h => ?_, by decide⟩
  have hzero := ((conserves_code (by decide) _ _).mp h).1 rfl (by decide)
  exact absurd hzero (by decide)

end AudioPipeline
