import AudioPipeline.Codec.Equiv.Mp3
import AudioPipeline.Lib.Lts
import Mathlib.Data.Option.Basic

/-!
## Decoder elements side by side

* `sessions_alone`: in every run in which a call finds `last_left` as the last call of its own
  session has left it, and `mp3_decoder_open` finds the decoder as `mp3_decoder_init` has left it,
  an element produces what it would produce alone and for the first time.
* `sessions_interfere`: the bytes left over by one element are decoded again by another.
-/

namespace AudioPipeline

variable {δ : Type} {H : Helix δ}

/-! ### Elements that behave the same -/

/-- Two elements that do not differ where a call looks: the first `extent` bytes of the buffer, the
decoder, and the size of a frame to wait for. -/
structure Mp3El.Same (extent : ℤ) (el el' : Mp3El δ) : Prop where
  inst : el'.inst = el.inst
  estimate : el'.info.estimate = el.info.estimate
  bufSize : el'.bufSize = el.bufSize
  buf : ∀ i, 0 ≤ i → i < extent → el'.buf i = el.buf i

/-- Two calls that return and put out the same.  Unless the stream is over, their elements behave
the same in the next call. -/
structure SameResult (r r' : Mp3Result δ) : Prop where
  ret : r'.ret = r.ret
  pcm : r'.pcm = r.pcm
  lastLeft : r'.lastLeft = r.lastLeft
  next : r.ret ≠ ESP_CODEC_ERR_DONE → 0 ≤ r.lastLeft ∧ Mp3El.Same r.lastLeft r.el r'.el

namespace Mp3El.Same

variable {extent : ℤ} {el el' : Mp3El δ}

theorem mono (h : Same extent el el') {n : ℤ} (hn : n ≤ extent) : Same n el el' where
  inst := h.inst
  estimate := h.estimate
  bufSize := h.bufSize
  buf i h₀ hi := h.buf i h₀ (by omega)

/-- In front of the buffer both read zero. -/
theorem bytes (h : Same extent el el') {pos left : ℤ} (hle : pos + left ≤ extent) :
    el'.bytes pos left = el.bytes pos left := by
  refine List.ext_getElem (by rw [length_bytes, length_bytes]) fun i hi hi' => ?_
  rw [length_bytes] at hi
  rw [getElem_bytes, getElem_bytes]
  split_ifs with hneg
  · rfl
  · exact h.buf _ (by omega) (by omega)

theorem write (h : Same extent el el') (bs : List UInt8) :
    Same (extent + bs.length) (el.write extent bs) (el'.write extent bs) where
  inst := h.inst
  estimate := h.estimate
  bufSize := h.bufSize
  buf i h₀ hi := by
    show (if extent ≤ i ∧ i < extent + bs.length then _ else el'.buf i) =
      if extent ≤ i ∧ i < extent + bs.length then _ else el.buf i
    split_ifs with hnew
    · rfl
    · exact h.buf i h₀ (by omega)

theorem memmove (h : Same extent el el') {pos left : ℤ} (hpos : 0 ≤ pos)
    (hle : pos + left ≤ extent) : Same left (el.memmove pos left) (el'.memmove pos left) where
  inst := h.inst
  estimate := h.estimate
  bufSize := h.bufSize
  buf i h₀ hi := by
    show (if 0 ≤ i ∧ i < left then el'.buf (pos + i) else _) =
      if 0 ≤ i ∧ i < left then el.buf (pos + i) else _
    rw [if_pos ⟨h₀, hi⟩, if_pos ⟨h₀, hi⟩]
    exact h.buf _ (by omega) (by omega)

theorem memset (h : Same extent el el') : Same extent el.memset el'.memset where
  inst := h.inst
  estimate := h.estimate
  bufSize := h.bufSize
  buf i h₀ hi := by
    show (if 0 ≤ i ∧ i < el'.bufSize then 0 else el'.buf i) =
      if 0 ≤ i ∧ i < el.bufSize then 0 else el.buf i
    rw [h.bufSize]
    split_ifs
    · rfl
    · exact h.buf i h₀ hi

theorem setInst (h : Same extent el el') (d : δ) :
    Same extent { el with inst := d } { el' with inst := d } where
  inst := rfl
  estimate := h.estimate
  bufSize := h.bufSize
  buf := h.buf

/-- After a frame both wait for as many bytes, whatever else was in their infos. -/
theorem decoded (h : Same extent el el') (r : Mp3Decoded δ) :
    Same extent (el.decoded H r) (el'.decoded H r) where
  inst := rfl
  estimate := by
    have hframe := fun el : Mp3El δ =>
      estimate_decoded el r (f := ⟨[], H.frameInfo r.inst, r.output⟩) rfl
    rw [hframe el, hframe el']
  bufSize := h.bufSize
  buf := h.buf

end Mp3El.Same

/-! ### A call -/

theorem outputFrame_same {extent lastLeft : ℤ} {accept : ℕ → ℤ → ℤ} {el el' : Mp3El δ}
    {f : Mp3FrameInfo} {output : ℕ → UInt16} {next next' : (ℕ → ℤ → ℤ) → Option (Mp3Result δ)}
    (h : Mp3El.Same extent el el') (h₀ : 0 ≤ lastLeft) (hle : lastLeft ≤ extent)
    (hnext : ∀ accept, Option.Rel SameResult (next accept) (next' accept)) :
    Option.Rel SameResult (outputFrame accept lastLeft el f output next)
      (outputFrame accept lastLeft el' f output next') := by
  unfold outputFrame
  dsimp only
  split_ifs with hpos hne
  · exact .some ⟨rfl, rfl, rfl, fun _ => ⟨h₀, h.mono hle⟩⟩
  · have hrel := hnext fun k => accept (k + 1)
    generalize (next fun k => accept (k + 1)) = a at hrel ⊢
    generalize (next' fun k => accept (k + 1)) = a' at hrel ⊢
    cases hrel with
    | none => exact .none
    | some hr => exact .some ⟨hr.ret, congrArg (_ ++ ·) hr.pcm, hr.lastLeft, hr.next⟩
  · exact hnext accept

/-- The loop does not look behind the bytes that it has. -/
theorem decodeLoop_same {framesize extent lastLeft : ℤ} (h₀ : 0 ≤ lastLeft)
    (hle : lastLeft ≤ extent) (fuel : ℕ) :
    ∀ (accept : ℕ → ℤ → ℤ) (el el' : Mp3El δ) (pos left : ℤ), Mp3El.Same extent el el' →
      0 ≤ pos → 0 ≤ left → pos + left ≤ extent →
      Option.Rel SameResult (decodeLoop H framesize lastLeft fuel accept el pos left)
        (decodeLoop H framesize lastLeft fuel accept el' pos left) := by
  induction fuel with
  | zero => exact fun _ _ _ _ _ _ _ _ _ => .none
  | succ fuel ih =>
    intro accept el el' pos left hs hpos hleft hext
    have hoff := mp3FindSyncWord_cases (el.bytes pos left)
    rw [Mp3El.length_bytes] at hoff
    rw [decodeLoop, decodeLoop]
    dsimp only
    rw [hs.bytes hext, hs.bytes (by omega), hs.inst]
    split_ifs with hend herr
    · exact .some ⟨rfl, rfl, rfl, fun _ => ⟨hleft, hs.memmove hpos hext⟩⟩
    · exact .some ⟨rfl, rfl, rfl, fun _ => ⟨h₀, (hs.setInst _).mono hle⟩⟩
    · rw [not_or, not_lt, not_lt] at hend
      rw [not_not] at herr
      obtain ⟨hmin, hmax⟩ := H.frame_size _ _ herr
      rw [Mp3El.length_bytes] at hmax
      exact outputFrame_same (hs.decoded _) h₀ hle fun accept =>
        ih accept _ _ _ _ (hs.decoded _) (by omega) (by omega) (by omega)

theorem drainLoop_same {extent lastLeft : ℤ} (h₀ : 0 ≤ lastLeft) (hle : lastLeft ≤ extent)
    (fuel : ℕ) :
    ∀ (accept : ℕ → ℤ → ℤ) (el el' : Mp3El δ) (pos left : ℤ), Mp3El.Same extent el el' →
      pos + left ≤ extent →
      Option.Rel SameResult (drainLoop H lastLeft fuel accept el pos left)
        (drainLoop H lastLeft fuel accept el' pos left) := by
  induction fuel with
  | zero => exact fun _ _ _ _ _ _ _ => .none
  | succ fuel ih =>
    intro accept el el' pos left hs hext
    rw [drainLoop, drainLoop, hs.bytes hext, hs.bytes (by omega), hs.inst]
    split_ifs with herr
    · exact .some ⟨rfl, rfl, rfl, fun h => absurd rfl h⟩
    · exact outputFrame_same (hs.decoded _) h₀ hle fun accept =>
        ih accept _ _ _ _ (hs.decoded _) (by omega)

/-- **A call does the same on elements that do not differ where it looks.** -/
theorem mp3DecoderProcess_same {lastLeft : ℤ} (h₀ : 0 ≤ lastLeft) {el el' : Mp3El δ}
    (hs : Mp3El.Same lastLeft el el') (input : Mp3Input) (accept : ℕ → ℤ → ℤ) :
    Option.Rel SameResult (mp3DecoderProcess H lastLeft el input accept)
      (mp3DecoderProcess H lastLeft el' input accept) := by
  unfold mp3DecoderProcess
  cases input with
  | data bs =>
    rw [hs.estimate]
    exact decodeLoop_same h₀ (by omega) _ _ _ _ _ _ (hs.write bs) le_rfl (by omega) (by omega)
  | code ret =>
    simp only
    rw [hs.bufSize]
    split_ifs
    · exact .some ⟨rfl, rfl, rfl, fun _ => ⟨h₀, hs.memset⟩⟩
    · exact drainLoop_same h₀ le_rfl _ _ _ _ _ _ hs (by omega)
    · exact .some ⟨rfl, rfl, rfl, fun _ => ⟨h₀, hs⟩⟩

/-! ### The size of the buffer -/

theorem outputFrame_bufSize {lastLeft n : ℤ} {accept : ℕ → ℤ → ℤ} {el : Mp3El δ}
    {f : Mp3FrameInfo} {output : ℕ → UInt16} {next : (ℕ → ℤ → ℤ) → Option (Mp3Result δ)}
    (h : el.bufSize = n) (hnext : ∀ accept, ∀ r ∈ next accept, r.el.bufSize = n) :
    ∀ r ∈ outputFrame accept lastLeft el f output next, r.el.bufSize = n := by
  intro r hr
  unfold outputFrame at hr
  dsimp only at hr
  split_ifs at hr
  · obtain rfl := Option.some.inj hr
    exact h
  · obtain ⟨r', hr', rfl⟩ := Option.mem_map.mp hr
    exact hnext _ r' hr'
  · exact hnext accept r hr

theorem decodeLoop_bufSize (framesize lastLeft : ℤ) (fuel : ℕ) :
    ∀ (accept : ℕ → ℤ → ℤ) (el : Mp3El δ) (pos left : ℤ),
      ∀ r ∈ decodeLoop H framesize lastLeft fuel accept el pos left,
        r.el.bufSize = el.bufSize := by
  induction fuel with
  | zero => exact fun _ _ _ _ _ hr => absurd hr (Option.not_mem_none _)
  | succ fuel ih =>
    intro accept el pos left r hr
    rw [decodeLoop] at hr
    dsimp only at hr
    split_ifs at hr
    · obtain rfl := Option.some.inj hr
      rfl
    · obtain rfl := Option.some.inj hr
      rfl
    · refine outputFrame_bufSize ?_ ?_ r hr
      · rfl
      · intro accept r' hr'
        have hkeep := ih _ _ _ _ r' hr'
        exact hkeep

theorem drainLoop_bufSize (lastLeft : ℤ) (fuel : ℕ) :
    ∀ (accept : ℕ → ℤ → ℤ) (el : Mp3El δ) (pos left : ℤ),
      ∀ r ∈ drainLoop H lastLeft fuel accept el pos left, r.el.bufSize = el.bufSize := by
  induction fuel with
  | zero => exact fun _ _ _ _ _ hr => absurd hr (Option.not_mem_none _)
  | succ fuel ih =>
    intro accept el pos left r hr
    rw [drainLoop] at hr
    split_ifs at hr
    · obtain rfl := Option.some.inj hr
      rfl
    · refine outputFrame_bufSize ?_ ?_ r hr
      · rfl
      · intro accept r' hr'
        have hkeep := ih _ _ _ _ r' hr'
        exact hkeep

theorem mp3DecoderProcess_bufSize {lastLeft : ℤ} {el : Mp3El δ} {input : Mp3Input}
    {accept : ℕ → ℤ → ℤ} {r : Mp3Result δ}
    (hr : mp3DecoderProcess H lastLeft el input accept = some r) : r.el.bufSize = el.bufSize := by
  unfold mp3DecoderProcess at hr
  cases input with
  | data bs => exact decodeLoop_bufSize _ _ _ _ (el.write lastLeft bs) _ _ r hr
  | code ret =>
    simp only at hr
    split_ifs at hr
    · obtain rfl := Option.some.inj hr
      rfl
    · exact drainLoop_bufSize _ _ _ el _ _ r hr
    · obtain rfl := Option.some.inj hr
      rfl

/-! ### Sessions -/

/-- The calls of a session, made on an element that is alone and new, give what the session has
produced, and leave `el`. -/
def Session.Alone (H : Helix δ) (bufSize : ℤ) (t : Session) (el : Mp3El δ) : Prop :=
  ∀ inputs, mp3Run H 0 (.fresh H bufSize) (t.received ++ inputs) =
    (mp3Run H t.left el inputs).map (t.produced ++ ·)

/-- An element behaves the same as if its session had been run alone. -/
structure Session.Follows (H : Helix δ) (bufSize : ℤ) (t : Session) (el : Mp3El δ) : Prop where
  size : el.bufSize = bufSize
  alone : ∃ el', t.Alone H bufSize el' ∧ (t.ended = false → 0 ≤ t.left ∧ Mp3El.Same t.left el el')

/-- The session after a call. -/
def Session.call (t : Session) (input : Mp3Input) (accept : ℕ → ℤ → ℤ) (r : Mp3Result δ) :
    Session where
  received := t.received ++ [(input, accept)]
  produced := t.produced ++ [(r.ret, r.pcm)]
  left := r.lastLeft
  ended := t.ended || r.ret = ESP_CODEC_ERR_DONE

namespace Session

variable {bufSize : ℤ} {t : Session} {el : Mp3El δ}

theorem Alone.run (h : t.Alone H bufSize el) :
    mp3Run H 0 (.fresh H bufSize) t.received = some t.produced := by
  have := h []
  rw [List.append_nil, mp3Run, Option.map_some, List.append_nil] at this
  exact this

theorem Alone.call (h : t.Alone H bufSize el) {input : Mp3Input} {accept : ℕ → ℤ → ℤ}
    {r : Mp3Result δ} (hr : mp3DecoderProcess H t.left el input accept = some r) :
    (t.call input accept r).Alone H bufSize r.el := by
  intro inputs
  show mp3Run H 0 (.fresh H bufSize) (t.received ++ [(input, accept)] ++ inputs) =
    (mp3Run H r.lastLeft r.el inputs).map (t.produced ++ [(r.ret, r.pcm)] ++ ·)
  rw [List.append_assoc, h, List.singleton_append, mp3Run, hr, Option.bind_some, Option.map_map]
  congr 1
  funext rs
  show t.produced ++ (r.ret, r.pcm) :: rs = _
  rw [List.append_assoc, List.singleton_append]

/-- A session that begins with a new decoder. -/
theorem Follows.start (hsize : el.bufSize = bufSize) (hinst : el.inst = H.init)
    (hestimate : el.info.estimate = 512) : Session.start.Follows H bufSize el where
  size := hsize
  alone := by
    refine ⟨.fresh H bufSize, fun inputs => ?_, fun _ => ⟨le_rfl, ?_⟩⟩
    · show mp3Run H 0 _ ([] ++ inputs) = (mp3Run H 0 _ inputs).map ([] ++ ·)
      simp
    · constructor
      · exact hinst.symm
      · rw [hestimate]
        rfl
      · exact hsize.symm
      · intro i h₀ hi
        exact absurd hi (not_lt.mpr h₀)

theorem Follows.call (h : t.Follows H bufSize el) (hended : t.ended = false) {input : Mp3Input}
    {accept : ℕ → ℤ → ℤ} {r : Mp3Result δ}
    (hr : mp3DecoderProcess H t.left el input accept = some r) :
    (t.call input accept r).Follows H bufSize r.el := by
  obtain ⟨el', halone, hsame⟩ := h.alone
  obtain ⟨h₀, hsame⟩ := hsame hended
  have hrel := mp3DecoderProcess_same (H := H) h₀ hsame input accept
  rw [hr] at hrel
  generalize hr' : mp3DecoderProcess H t.left el' input accept = o at hrel
  cases hrel with
  | @some _ r' hres =>
    constructor
    · rw [mp3DecoderProcess_bufSize hr]
      exact h.size
    · refine ⟨r'.el, ?_, fun hnext => ?_⟩
      · have hcall : t.call input accept r' = t.call input accept r := by
          rw [Session.call, Session.call, hres.ret, hres.pcm, hres.lastLeft]
        rw [← hcall]
        exact halone.call hr'
      · apply hres.next
        intro hdone
        rw [Session.call, hdone] at hnext
        simp at hnext

theorem Follows.close (h : t.Follows H bufSize el) (state : AelState) :
    t.Follows H bufSize (el.mp3DecoderClose state).2 := by
  have hclose : Mp3El.Same t.left el (el.mp3DecoderClose state).2 := by
    unfold Mp3El.mp3DecoderClose
    dsimp only
    split_ifs <;> exact ⟨rfl, rfl, rfl, fun _ _ _ => rfl⟩
  obtain ⟨el', halone, hsame⟩ := h.alone
  constructor
  · rw [hclose.bufSize]
    exact h.size
  · refine ⟨el', halone, fun hended => ⟨(hsame hended).1, ?_⟩⟩
    obtain ⟨-, hsame⟩ := hsame hended
    constructor
    · rw [hsame.inst, hclose.inst]
    · rw [hsame.estimate, hclose.estimate]
    · rw [hsame.bufSize, hclose.bufSize]
    · intro i h₀ hi
      rw [hsame.buf i h₀ hi, hclose.buf i h₀ hi]

end Session

namespace Mp3Sys

variable {ι : Type} [DecidableEq ι]

/-- A call finds `last_left` as the last call of its session has left it, and is not made when the
stream is over.  `mp3_decoder_open` finds the decoder, and the size to wait for, as they are at
first. -/
def KeepsApart (H : Helix δ) (s : Mp3Sys ι δ) : Call ι → Prop
  | .openEl i =>
    (s.els i).isOpen = false → (s.els i).inst = H.init ∧ (s.els i).info.estimate = 512
  | .process i _ _ => s.lastLeft = (s.session i).left ∧ (s.session i).ended = false
  | .closeEl _ _ => True

instance [DecidableEq δ] (s : Mp3Sys ι δ) : (c : Call ι) → Decidable (KeepsApart H s c)
  | .openEl _ => inferInstanceAs (Decidable (_ → _ ∧ _))
  | .process _ _ _ => inferInstanceAs (Decidable (_ ∧ _))
  | .closeEl _ _ => inferInstanceAs (Decidable True)

/-- What an element has produced in its session is what it would have produced alone. -/
theorem follows_step {bufSize : ι → ℤ} {s s' : Mp3Sys ι δ} {c : Call ι}
    (h : ∀ i, (s.session i).Follows H (bufSize i) (s.els i)) (hc : KeepsApart H s c)
    (hs : step H s c = some s') : ∀ i, (s'.session i).Follows H (bufSize i) (s'.els i) := by
  intro j
  -- only the element that is called moves
  cases c with
  | openEl i =>
    obtain rfl := Option.some.inj hs
    by_cases hopen : (s.els i).isOpen
    · have hfail : (s.els i).mp3DecoderOpen = (ESP_FAIL, s.els i) := by
        rw [Mp3El.mp3DecoderOpen, if_pos hopen]
      simp only [hfail, Function.update_eq_self]
      exact h j
    · have hok : (s.els i).mp3DecoderOpen = (ESP_OK, { s.els i with isOpen := true }) := by
        rw [Mp3El.mp3DecoderOpen, if_neg hopen]
      simp only [hok, if_true]
      by_cases hj : j = i
      · subst hj
        rw [Function.update_self, Function.update_self]
        obtain ⟨hinst, hestimate⟩ := hc (Bool.not_eq_true _ ▸ hopen)
        exact .start (h j).size hinst hestimate
      · rw [Function.update_of_ne hj, Function.update_of_ne hj]
        exact h j
  | process i input accept =>
    obtain ⟨hleft, hended⟩ := hc
    rw [step] at hs
    split_ifs at hs
    obtain ⟨r, hr, rfl⟩ := Option.map_eq_some_iff.mp hs
    dsimp only
    by_cases hj : j = i
    · subst hj
      rw [Function.update_self, Function.update_self]
      rw [hleft] at hr
      exact (h j).call hended hr
    · rw [Function.update_of_ne hj, Function.update_of_ne hj]
      exact h j
  | closeEl i state =>
    obtain rfl := Option.some.inj hs
    dsimp only
    by_cases hj : j = i
    · subst hj
      rw [Function.update_self]
      exact (h j).close state
    · rw [Function.update_of_ne hj]
      exact h j

/-- **Elements and sessions do not influence each other** in a run in which every call finds
`last_left`, and every session the decoder, as if there were no other: an element has produced what
it produces alone and for the first time. -/
theorem sessions_alone {bufSize : ι → ℤ} {s : Mp3Sys ι δ}
    (hr : Lts.Reach (step H) (KeepsApart H) (start H bufSize) s) (i : ι) :
    mp3Run H 0 (.fresh H (bufSize i)) (s.session i).received = some (s.session i).produced := by
  have h₀ : ∀ i, ((start H bufSize).session i).Follows H (bufSize i) ((start H bufSize).els i) :=
    fun i => .start rfl rfl rfl
  have h := hr.invariant (I := fun s => ∀ i, (s.session i).Follows H (bufSize i) (s.els i)) h₀
    fun s c s' hf hc hs => follows_step hf hc hs
  obtain ⟨el', halone, -⟩ := (h i).alone
  exact halone.run

/-- What a call returns, and whether it puts out samples. -/
def observed (r : ℤ × List UInt8) : ℤ × Bool := (r.1, !r.2.isEmpty)

/-- Two elements that take turns; a call leaves no bytes over. -/
theorem sessions_alone_turns :
    ∃ s, Lts.run (step silentHelix) (KeepsApart silentHelix)
        (start silentHelix fun _ : Bool => 1024)
        [.openEl true, .openEl false, .process true (.data (silentFrame 0xb0).bytes) acceptAll,
          .process false (.data (silentFrame 0xd0).bytes) acceptAll,
          .process true (.code AEL_IO_DONE) acceptAll, .closeEl true .finished] = some s ∧
      (s.session true).produced.map observed =
        [(ESP_CODEC_ERR_CONTINUE, true), (ESP_CODEC_ERR_DONE, false)] ∧
      mp3Run silentHelix 0 (.fresh silentHelix 1024) (s.session true).received =
        some (s.session true).produced := by
  obtain ⟨s, hs, hobs⟩ := Option.map_eq_some_iff.mp (show (Lts.run (step silentHelix)
      (KeepsApart silentHelix) (start silentHelix fun _ : Bool => 1024)
      [.openEl true, .openEl false, .process true (.data (silentFrame 0xb0).bytes) acceptAll,
        .process false (.data (silentFrame 0xd0).bytes) acceptAll,
        .process true (.code AEL_IO_DONE) acceptAll, .closeEl true .finished]).map
      (fun s => (s.session true).produced.map observed) =
      some [(ESP_CODEC_ERR_CONTINUE, true), (ESP_CODEC_ERR_DONE, false)] by
    decide +kernel)
  exact ⟨s, hs, hobs, sessions_alone (Lts.Reach.refl.of_run _ hs) true⟩

/-- An element is given a piece of a frame, and keeps it.  At the end of its own stream the
other one finds as many bytes left: it decodes the frame that is still in its buffer again. -/
theorem sessions_interfere :
    ∃ s rs, Lts.run (step silentHelix) (fun _ _ => True)
        (start silentHelix fun _ : Bool => 1024)
        [.openEl true, .openEl false, .process true (.data (silentFrame 0xa0).bytes) acceptAll,
          .process false (.data (List.replicate 11 0 ++ (silentFrame 0xb0).bytes.take 511))
            acceptAll,
          .process true (.code AEL_IO_DONE) acceptAll] = some s ∧
      mp3Run silentHelix 0 (.fresh silentHelix 1024) (s.session true).received = some rs ∧
      rs.map observed = [(ESP_CODEC_ERR_CONTINUE, true), (ESP_CODEC_ERR_DONE, false)] ∧
      (s.session true).produced.map observed =
        [(ESP_CODEC_ERR_CONTINUE, true), (ESP_CODEC_ERR_DONE, true)] ∧
      rs ≠ (s.session true).produced := by
  obtain ⟨s, hs, hobs⟩ := Option.map_eq_some_iff.mp (show (Lts.run (step silentHelix)
      (fun _ _ => True) (start silentHelix fun _ : Bool => 1024)
      [.openEl true, .openEl false, .process true (.data (silentFrame 0xa0).bytes) acceptAll,
        .process false (.data (List.replicate 11 0 ++ (silentFrame 0xb0).bytes.take 511))
          acceptAll,
        .process true (.code AEL_IO_DONE) acceptAll]).map
      (fun s => ((s.session true).produced.map observed,
        (mp3Run silentHelix 0 (.fresh silentHelix 1024) (s.session true).received).map
          (·.map observed))) =
      some ([(ESP_CODEC_ERR_CONTINUE, true), (ESP_CODEC_ERR_DONE, true)],
        some [(ESP_CODEC_ERR_CONTINUE, true), (ESP_CODEC_ERR_DONE, false)]) by
    decide +kernel)
  obtain ⟨hproduced, halone⟩ := Prod.mk.inj hobs
  obtain ⟨rs, hrs, hrs'⟩ := Option.map_eq_some_iff.mp halone
  refine ⟨s, rs, hs, hrs, hrs', hproduced, ?_⟩
  intro heq
  rw [heq, hproduced] at hrs'
  exact absurd hrs' (by decide)

end Mp3Sys

end AudioPipeline
