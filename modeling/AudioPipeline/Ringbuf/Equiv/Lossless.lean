import AudioPipeline.Ringbuf.Equiv.Drain

/-!
# Calls that lose nothing

* `ReadCall.Keeps`: a call of `rb_read` returns the bytes that it took, unless it returns
  `RB_ABORT`, and it returns `RB_DONE` only from a ring that is done and empty.  For this
  `is_done_write` must not be stored between the two looks at it of a call that has found 1 to 3
  bytes and has none yet.
* `WriteCall.Puts`: a call of `rb_write` that is neither aborted nor runs into a timeout puts in its
  whole block, as long as the ring is not done.
-/

namespace AudioPipeline

variable {rb rb' : Ringbuf} {timeout : Bool}

/-- The writer is done, and the ring is empty. -/
def Ringbuf.AtEnd (rb : Ringbuf) : Prop := rb.isDoneWrite = true ∧ rb.fillCnt = 0

instance (rb : Ringbuf) : Decidable rb.AtEnd := inferInstanceAs (Decidable (_ ∧ _))

/-! ### `rb_read` -/

/-- Why `rb_read` leaves its loop. -/
def ReadExit (rb : Ringbuf) (total : ℕ) (retVal : ℤ) : Prop :=
  retVal = RB_ABORT ∨ retVal = RB_TIMEOUT ∨ retVal = RB_OK ∧ 0 < total ∨
    retVal = RB_DONE ∧ (total = 0 → rb.AtEnd)

/-- What `rb_read` returns. -/
def ReadReturns (rb : Ringbuf) (total : ℕ) (v : ℤ) : Prop :=
  v = RB_ABORT ∨ v = total ∧ 0 < total ∨ total = 0 ∧ (v = RB_TIMEOUT ∨ v = RB_DONE ∧ rb.AtEnd)

/-- The call has found nothing that it may take, has taken nothing before, and is about to look at
`is_done_write` again. -/
def ReadCall.EmptyHanded (c : ReadCall) : Prop := c.pc = .sized 0 ∧ c.total = 0

instance (c : ReadCall) : Decidable c.EmptyHanded := inferInstanceAs (Decidable (_ ∧ _))

/-- The call has in its buffer what it took. -/
structure ReadCall.Keeps (rb : Ringbuf) (c : ReadCall) : Prop where
  total : c.total = c.buf.length
  found : c.EmptyHanded → rb.isDoneWrite = true → rb.fillCnt = 0
  pc : match c.pc with
    | .lock | .sized _ | .release | .block => 0 < c.bufLen
    | .err retVal | .clear retVal => ReadExit rb c.total retVal
    | .ret v => ReadReturns rb c.total v

namespace ReadCall.Keeps

variable {c c' : ReadCall}

theorem start {len : ℕ} (hlen : 0 < len) : (rbRead len).Keeps rb :=
  ⟨rfl, (fun h => nomatch h.1), hlen⟩

/-- The others do not bring a ring back that is at its end. -/
theorem others (h : c.Keeps rb) (hend : rb.AtEnd → rb'.AtEnd)
    (hfound : c.EmptyHanded → rb'.isDoneWrite = true → rb'.fillCnt = 0) : c.Keeps rb' := by
  refine ⟨h.total, hfound, ?_⟩
  have hexit : ∀ retVal, ReadExit rb c.total retVal → ReadExit rb' c.total retVal := by
    rintro retVal (habort | htimeout | hok | ⟨hdone, hempty⟩)
    · exact Or.inl habort
    · exact Or.inr (Or.inl htimeout)
    · exact Or.inr (Or.inr (Or.inl hok))
    · exact Or.inr (Or.inr (Or.inr ⟨hdone, fun hzero => hend (hempty hzero)⟩))
  have hpc := h.pc
  cases hst : c.pc with
  | lock | sized | release | block =>
    rw [hst] at hpc
    exact hpc
  | err retVal | clear retVal =>
    rw [hst] at hpc
    exact hexit retVal hpc
  | ret v =>
    rw [hst] at hpc
    rcases hpc with habort | hpos | ⟨hzero, htimeout | ⟨hdone, hempty⟩⟩
    · exact Or.inl habort
    · exact Or.inr (Or.inl hpos)
    · exact Or.inr (Or.inr ⟨hzero, Or.inl htimeout⟩)
    · exact Or.inr (Or.inr ⟨hzero, Or.inr ⟨hdone, hend hempty⟩⟩)

/-- The returned value. -/
theorem returns {retVal : ℤ} (h : ReadExit rb c.total retVal) :
    ReadReturns rb c.total (c.result retVal) := by
  by_cases habort : retVal = RB_ABORT
  · refine Or.inl ?_
    rw [habort, ReadCall.result, if_pos (Or.inr rfl)]
    rfl
  · have hcode : ¬(retVal = RB_FAIL ∨ retVal = RB_ABORT) := by
      rcases h with habort' | rfl | ⟨rfl, -⟩ | ⟨rfl, -⟩
      · exact absurd habort' habort
      all_goals decide
    have hresult : c.result retVal = if (c.total : ℤ) > 0 then (c.total : ℤ) else retVal := by
      unfold ReadCall.result
      rw [if_neg hcode]
    rw [hresult]
    by_cases hpos : 0 < c.total
    · rw [if_pos (by omega)]
      exact Or.inr (Or.inl ⟨rfl, hpos⟩)
    · rw [if_neg (by omega)]
      have hzero : c.total = 0 := by omega
      refine Or.inr (Or.inr ⟨hzero, ?_⟩)
      rcases h with habort' | htimeout | ⟨-, hpos'⟩ | ⟨hdone, hempty⟩
      · exact absurd habort' habort
      · exact Or.inl htimeout
      · exact absurd hpos' hpos
      · exact Or.inr ⟨hdone, hempty hzero⟩

/-- The locked region. -/
theorem locked (h : c.Keeps rb) (hwf : rb.Wf) {k : ℕ} (hpc : c.pc = .sized k)
    (hk : k ≤ rb.fillCnt) : (c.locked rb k).2.Keeps (c.locked rb k).1 := by
  have hwant : 0 < c.bufLen := by
    have hst := h.pc
    rw [hpc] at hst
    exact hst
  unfold ReadCall.locked
  by_cases hzero : k = 0
  · rw [if_pos hzero]
    split_ifs with hdone habort hflag
    · refine ⟨h.total, (fun hf => nomatch hf.1), Or.inr (Or.inr (Or.inr ⟨rfl, fun hnone => ?_⟩))⟩
      exact ⟨hdone, h.found ⟨by rw [hpc, hzero], hnone⟩ hdone⟩
    · exact ⟨h.total, (fun hf => nomatch hf.1), Or.inl rfl⟩
    · exact ⟨h.total, (fun hf => nomatch hf.1), Or.inr (Or.inl rfl)⟩
    · exact ⟨h.total, (fun hf => nomatch hf.1), hwant⟩
  · -- bytes are moved
    have hmoved : (rbReadMove rb k).1.length = k := by
      rw [(contents_rbReadMove hwf hk).1, List.length_take, hwf.length_contents]
      omega
    rw [if_neg hzero]
    refine ⟨?_, fun hf => ?_, ?_⟩
    · show c.total + k = (c.buf ++ (rbReadMove rb k).1).length
      rw [List.length_append, hmoved, h.total]
    · have htotal : c.total + k = 0 := hf.2
      omega
    · dsimp only
      by_cases hall : c.bufLen - k = 0
      · rw [if_pos hall]
        show ReadExit _ (c.total + k) RB_OK
        exact Or.inr (Or.inr (Or.inl ⟨rfl, by omega⟩))
      · rw [if_neg hall]
        show 0 < c.bufLen - k
        omega

/-- **A step of the call.** -/
theorem step (h : c.Keeps rb) (hwf : rb.Wf) (hfill : rb.fillCnt < 2 ^ 32)
    (hk : ∀ k, c.pc = .sized k → k ≤ rb.fillCnt) (hs : c.step rb timeout = some (rb', c')) :
    c'.Keeps rb' := by
  have hpc := h.pc
  unfold ReadCall.step at hs
  cases hst : c.pc with
  | lock =>
    rw [hst] at hpc hs
    dsimp only at hs
    split_ifs at hs
    · obtain ⟨rfl, rfl⟩ := Prod.mk.inj (Option.some.inj hs)
      exact ⟨h.total, (fun hf => nomatch hf.1), Or.inr (Or.inl rfl)⟩
    · obtain ⟨rfl, rfl⟩ := Prod.mk.inj (Option.some.inj hs)
      refine ⟨h.total, fun hf hdone => ?_, hpc⟩
      -- with `is_done_write` set, all there is may be taken
      have hzero : rbReadSize rb c.bufLen = 0 := ReadPc.sized.inj hf.1
      rw [rbReadSize_done hdone hfill] at hzero
      have hwant : 0 < c.bufLen := hpc
      split_ifs at hzero <;> omega
  | sized k =>
    rw [hst] at hs
    have hlocked := h.locked hwf hst (hk k hst)
    rw [Option.some.inj hs] at hlocked
    exact hlocked
  | release =>
    rw [hst] at hpc hs
    obtain ⟨rfl, rfl⟩ := Prod.mk.inj (Option.some.inj hs)
    exact ⟨h.total, (fun hf => nomatch hf.1), hpc⟩
  | block =>
    rw [hst] at hpc hs
    dsimp only at hs
    split_ifs at hs
    · obtain ⟨rfl, rfl⟩ := Prod.mk.inj (Option.some.inj hs)
      exact ⟨h.total, (fun hf => nomatch hf.1), Or.inr (Or.inl rfl)⟩
    · obtain ⟨rfl, rfl⟩ := Prod.mk.inj (Option.some.inj hs)
      exact ⟨h.total, (fun hf => nomatch hf.1), hpc⟩
  | err retVal =>
    rw [hst] at hpc hs
    dsimp only at hs
    split_ifs at hs
    all_goals
      obtain ⟨rfl, rfl⟩ := Prod.mk.inj (Option.some.inj hs)
      exact ⟨h.total, (fun hf => nomatch hf.1), hpc⟩
  | clear retVal =>
    rw [hst] at hpc hs
    obtain ⟨rfl, rfl⟩ := Prod.mk.inj (Option.some.inj hs)
    exact ⟨h.total, (fun hf => nomatch hf.1), returns (c := c) hpc⟩
  | ret v =>
    rw [hst] at hs
    exact nomatch hs

end ReadCall.Keeps

/-- A thread in such a call. -/
def RbThread.EmptyHanded : RbThread → Prop
  | .reading c => c.EmptyHanded
  | _ => False

instance : DecidablePred RbThread.EmptyHanded
  | .reading c => inferInstanceAs (Decidable c.EmptyHanded)
  | .idle | .writing _ | .control .. => isFalse id

/-! ### `rb_write` -/

/-- The step makes the call give up: a timeout, or the ring is full and aborted. -/
def WriteCall.GivesUp (rb : Ringbuf) (c : WriteCall) (timeout : Bool) : Prop :=
  (c.pc = .lock ∨ c.pc = .block) ∧ timeout = true ∨
    c.pc = .lock ∧ timeout = false ∧ rbBytesAvailable rb = 0 ∧ rb.isDoneWrite = false ∧
      rb.abortWrite = true

instance (rb : Ringbuf) (c : WriteCall) (timeout : Bool) : Decidable (c.GivesUp rb timeout) :=
  inferInstanceAs (Decidable (_ ∨ _))

/-- A step that makes a write of the thread give up. -/
def RbThread.GivesUp (rb : Ringbuf) (timeout : Bool) : RbThread → Prop
  | .writing c => c.GivesUp rb timeout
  | _ => False

instance (rb : Ringbuf) (timeout : Bool) : DecidablePred (RbThread.GivesUp rb timeout)
  | .writing c => inferInstanceAs (Decidable (c.GivesUp rb timeout))
  | .idle | .reading _ | .control .. => isFalse id

/-- The call has more to write, or has written all of its block. -/
def WriteCall.Puts (c : WriteCall) : Prop :=
  match c.pc with
  | .lock | .release | .block => c.buf ≠ []
  | .err retVal => retVal = RB_OK ∧ c.buf = [] ∧ 0 < c.total
  | .ret v => 0 < v ∧ c.buf = []

namespace WriteCall.Puts

variable {c c' : WriteCall}

/-- The locked region. -/
theorem locked (hne : c.buf ≠ []) (hdone : rb.isDoneWrite = false)
    (habort : rbBytesAvailable rb = 0 → rb.abortWrite = false) : (c.locked rb).2.Puts := by
  have hlen : 0 < c.buf.length := List.length_pos_iff.mpr hne
  have hle := (rbWriteSize_le rb c.buf.length).2
  unfold WriteCall.locked
  dsimp only
  rw [hdone]
  split_ifs with hzero hdone' habort' hall
  · exact nomatch hdone'
  · have hfull : rbBytesAvailable rb = 0 :=
      Nat.sub_eq_zero_of_le ((rbWriteSize_eq_zero hlen).mp hzero)
    rw [habort hfull] at habort'
    exact nomatch habort'
  · exact hne
  · refine ⟨rfl, List.drop_eq_nil_of_le (by omega), ?_⟩
    show 0 < c.total + _
    omega
  · show c.buf.drop _ ≠ []
    rw [← List.length_pos_iff, List.length_drop]
    omega

/-- **A step of the call.** -/
theorem step (h : c.Puts) (hdone : rb.isDoneWrite = false) (hup : ¬c.GivesUp rb timeout)
    (hs : c.step rb timeout = some (rb', c')) : c'.Puts := by
  unfold WriteCall.Puts at h
  unfold WriteCall.step at hs
  cases hst : c.pc with
  | lock =>
    rw [hst] at h hs
    dsimp only at hs
    split_ifs at hs with htimeout
    · exact absurd (Or.inl ⟨Or.inl hst, htimeout⟩) hup
    · have hlocked : (c.locked rb).2.Puts := by
        refine locked h hdone fun hfull => ?_
        by_contra habort
        refine hup (Or.inr ⟨hst, ?_, hfull, hdone, ?_⟩)
        · simpa using htimeout
        · simpa using habort
      rw [Option.some.inj hs] at hlocked
      exact hlocked
  | release =>
    rw [hst] at h hs
    obtain ⟨rfl, rfl⟩ := Prod.mk.inj (Option.some.inj hs)
    exact h
  | block =>
    rw [hst] at h hs
    dsimp only at hs
    split_ifs at hs with htimeout
    · exact absurd (Or.inl ⟨Or.inr hst, htimeout⟩) hup
    · obtain ⟨rfl, rfl⟩ := Prod.mk.inj (Option.some.inj hs)
      exact h
  | err retVal =>
    rw [hst] at h hs
    obtain ⟨rfl, hempty, hpos⟩ := h
    dsimp only at hs
    rw [if_pos hpos] at hs
    obtain ⟨rfl, rfl⟩ := Prod.mk.inj (Option.some.inj hs)
    refine ⟨?_, hempty⟩
    have hresult : c.result RB_OK = c.total := by
      have hcode : ¬(RB_OK = RB_FAIL ∨ RB_OK = RB_ABORT) := by decide
      have htotal : (c.total : ℤ) > 0 := by omega
      unfold WriteCall.result
      rw [if_neg hcode]
      exact if_pos htotal
    rw [hresult]
    omega
  | ret v =>
    rw [hst] at hs
    exact nomatch hs

end WriteCall.Puts

/-! ### Steps of a shared ring -/

namespace RbSys

variable {ι : Type} [DecidableEq ι] {s s' : RbSys ι} {t : ι}

omit [DecidableEq ι] in
/-- The bytes of a ring stay where they are. -/
theorem Held.sameBytes {rb : Ringbuf} (h : s.Held) (hrb : SameBytes s.rb rb) :
    ({ s with rb := rb } : RbSys ι).Held :=
  ⟨h.wf.of_eq hrb.mem hrb.pR hrb.pW hrb.fillCnt hrb.size, fun ht hpc => by
    obtain ⟨hlock, hk⟩ := h.sized ht hpc
    exact ⟨hlock, hk.trans hrb.fillCnt.ge⟩⟩

/-- A call of `rb_read`. -/
theorem step_read {len : ℕ} (hs : s.step (.read t len) = some s') :
    s' = s.goto t (.reading (rbRead len)) ∧ 0 < len := by
  simp only [RbSys.step] at hs
  split_ifs at hs with hidle
  exact ⟨(Option.some.inj hs).symm, hidle.2⟩

/-- A call of `rb_write`. -/
theorem step_write {bytes : List UInt8} (hs : s.step (.write t bytes) = some s') :
    s' = s.goto t (.writing (rbWrite bytes)) := by
  simp only [RbSys.step] at hs
  split_ifs at hs
  exact (Option.some.inj hs).symm

/-- The return from `rb_read`. -/
theorem step_readReturn {c : ReadCall} {v : ℤ} {timeout : Bool} (hth : s.thread t = .reading c)
    (hpc : c.pc = .ret v) (hs : s.step (.step t timeout) = some s') : s' = s.goto t .idle := by
  simp only [RbSys.step, hth, stepRead, hpc] at hs
  exact (Option.some.inj hs).symm

/-- The return from `rb_write`. -/
theorem step_writeReturn {c : WriteCall} {v : ℤ} {timeout : Bool} (hth : s.thread t = .writing c)
    (hpc : c.pc = .ret v) (hs : s.step (.step t timeout) = some s') : s' = s.goto t .idle := by
  simp only [RbSys.step, hth, stepWrite, hpc] at hs
  exact (Option.some.inj hs).symm

/-- What a step of `rb_read` does to the ring, seen from its ends. -/
structure ReadMove (s s' : RbSys ι) (t : ι) (c c' : ReadCall) : Prop where
  thread : s'.thread = Function.update s.thread t (.reading c')
  copiedIn : s'.copiedIn = s.copiedIn
  bytes : c'.buf ++ s'.rb.contents = c.buf ++ s.rb.contents
  done : s'.rb.isDoneWrite = s.rb.isDoneWrite
  size : s'.rb.size = s.rb.size
  keeps : c.Keeps s.rb → s.rb.fillCnt < 2 ^ 32 → c'.Keeps s'.rb

theorem step_reading {c : ReadCall} {timeout : Bool} (hh : s.Held) (hth : s.thread t = .reading c)
    (hpc : ∀ v, c.pc ≠ .ret v) (hs : s.step (.step t timeout) = some s') :
    ∃ c', ReadMove s s' t c c' := by
  simp only [RbSys.step, hth] at hs
  have hk := fun k hpc => (hh.sized (k := k) hth hpc).2
  rcases stepRead_cases hh.wf hk hs with ⟨⟨v, hret⟩, -⟩ | ⟨c', hc, hthread, hin, -, -⟩
  · exact absurd hret (hpc v)
  · obtain ⟨k, -, -, -, hbuf, hcontents, -, -, hsize, -⟩ := ReadCall.step_data hh.wf hk hc
    refine ⟨c', hthread, hin, ?_, (ReadCall.step_flags hc).1, hsize, fun hkeeps hfill => ?_⟩
    · rw [hbuf, hcontents, List.append_assoc, List.take_append_drop]
    · exact hkeeps.step hh.wf hfill hk hc

/-- What a step of `rb_write` does to the ring, seen from its ends. -/
structure WriteMove (s s' : RbSys ι) (t : ι) (c c' : WriteCall) (bytes : List UInt8) : Prop where
  thread : s'.thread = Function.update s.thread t (.writing c')
  copiedIn : s'.copiedIn = s.copiedIn ++ bytes
  contents : s'.rb.contents = s.rb.contents ++ bytes
  rest : c.buf = bytes ++ c'.buf
  done : s'.rb.isDoneWrite = s.rb.isDoneWrite
  size : s'.rb.size = s.rb.size

theorem step_writing {c : WriteCall} {timeout : Bool} (hh : s.Held)
    (hth : s.thread t = .writing c) (hpc : ∀ v, c.pc ≠ .ret v)
    (hs : s.step (.step t timeout) = some s') :
    ∃ c' bytes, c.step s.rb timeout = some (s'.rb, c') ∧ WriteMove s s' t c c' bytes := by
  simp only [RbSys.step, hth] at hs
  rcases stepWrite_cases hh.wf hs with ⟨⟨v, hret⟩, -⟩ | ⟨c', hc, hthread, -, hin, -⟩
  · exact absurd hret (hpc v)
  · obtain ⟨k, hk, -, -, hbuf, hcontents, -, -, hsize, -⟩ := WriteCall.step_data hh.wf hc
    have hlen : c.buf.length - c'.buf.length = k := by
      rw [hbuf, List.length_drop]
      omega
    rw [hlen] at hin
    refine ⟨c', c.buf.take k, hc, hthread, hin, hcontents, ?_, (WriteCall.step_flags hc).1, hsize⟩
    rw [hbuf, List.take_append_drop]

end RbSys

end AudioPipeline
