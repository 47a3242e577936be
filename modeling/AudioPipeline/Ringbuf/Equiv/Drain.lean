import AudioPipeline.Ringbuf.Equiv.Results

/-!
# Draining a ring that is done

Once `is_done_write` is set, and nobody writes any more, a reader gets what is left, and then
`RB_DONE`, without ever waiting (`Drains`).  The proof follows one call: `DrainCall` says what is
left of the contents it found, and how many steps it has left (`drainRank`).

`RB_DONE` says that the ring is empty in a run in which `is_done_write` is not stored while a reader
that found 1 to 3 bytes is on its way to the second look at the flag (`NoLateDone`).
-/

namespace AudioPipeline

variable {ι : Type} [DecidableEq ι] {rb rb' : Ringbuf}

/-! ### One call -/

/-- What a reader may take from a ring that is done. -/
theorem rbReadSize_done {n : ℕ} (hdone : rb.isDoneWrite = true) (hfill : rb.fillCnt < 2 ^ 32) :
    rbReadSize rb n = if rb.fillCnt < n then
      if rb.fillCnt < 4 then rb.fillCnt else rb.fillCnt / 4 * 4 else n := by
  unfold rbReadSize
  rw [land_word_mask hfill, hdone]
  simp only [and_true]
  split_ifs <;> omega

/-- The most steps that a call takes from an iteration on to its return, if it finds `fill` bytes
and wants `want`: an iteration takes what is wanted, all there is, or all but the last 1 to 3
bytes. -/
def drainRank (fill want : ℕ) : ℕ :=
  if fill = 0 ∨ want ≤ fill then 4 else if fill < 4 ∨ 4 ∣ fill then 6 else 8

/-- What `rb_read` returns when `left` bytes are left for good. -/
def drained (len left : ℕ) : ℤ := if left = 0 then RB_DONE else (min len left : ℕ)

/-- A call that drains a ring that is done. -/
structure DrainCall (rb : Ringbuf) (c : ReadCall) (log : CallLog) : Prop where
  len_pos : 0 < log.len
  split : c.total + c.bufLen = log.len
  total_le : c.total ≤ log.before.length
  buf : c.buf = log.before.take c.total
  rest : rb.contents = log.before.drop c.total
  pc : match c.pc with
    | .lock => 0 < c.bufLen ∧ log.steps + drainRank rb.fillCnt c.bufLen ≤ 8
    | .sized k => 0 < c.bufLen ∧ k = rbReadSize rb c.bufLen ∧
      log.steps + drainRank rb.fillCnt c.bufLen ≤ 9
    | .release | .block => False
    | .err retVal =>
      (retVal = RB_OK ∧ c.bufLen = 0 ∨ retVal = RB_DONE ∧ rb.fillCnt = 0) ∧ log.steps + 2 ≤ 8
    | .clear retVal =>
      (retVal = RB_OK ∧ c.bufLen = 0 ∨ retVal = RB_DONE ∧ rb.fillCnt = 0) ∧ log.steps + 1 ≤ 8
    | .ret v => v = drained log.len log.before.length ∧
      c.total = min log.len log.before.length ∧ log.steps ≤ 8

namespace DrainCall

variable {c c' : ReadCall} {log : CallLog} {timeout : Bool}

theorem fillCnt (h : DrainCall rb c log) (hwf : rb.Wf) :
    rb.fillCnt = log.before.length - c.total := by
  rw [← hwf.length_contents, h.rest, List.length_drop]

theorem start (rb : Ringbuf) {len : ℕ} (hlen : 0 < len) :
    DrainCall rb (rbRead len) (.ofRead rb len) where
  len_pos := hlen
  split := Nat.zero_add _
  total_le := Nat.zero_le _
  buf := rfl
  rest := rfl
  pc := by
    refine ⟨hlen, ?_⟩
    show 0 + drainRank _ _ ≤ 8
    unfold drainRank
    split_ifs <;> omega

/-- The control calls do not disturb it. -/
theorem act (h : DrainCall rb c log) (hdone : rb.isDoneWrite = true) (a : RbAct) :
    DrainCall (a.apply rb) c log := by
  obtain ⟨-, -, -, hfill, -⟩ := RbAct.apply_frame rb a
  have hdone' : (a.apply rb).isDoneWrite = true := by
    cases a <;> first | exact hdone | rfl
  have hsize : rbReadSize (a.apply rb) c.bufLen = rbReadSize rb c.bufLen := by
    unfold rbReadSize
    rw [hfill, hdone, hdone']
  refine ⟨h.len_pos, h.split, h.total_le, h.buf, (contents_act rb a).trans h.rest, ?_⟩
  have hpc := h.pc
  rw [hfill, hsize]
  exact hpc

/-- Past the check of its last iteration a call returns what it took, or `RB_DONE`. -/
theorem result_eq (h : DrainCall rb c log) (hwf : rb.Wf) {retVal : ℤ}
    (hret : retVal = RB_OK ∧ c.bufLen = 0 ∨ retVal = RB_DONE ∧ rb.fillCnt = 0) :
    c.result retVal = drained log.len log.before.length ∧
      c.total = min log.len log.before.length := by
  have hlen := h.len_pos
  have hsplit := h.split
  have hle := h.total_le
  have hfill := h.fillCnt hwf
  have htotal : c.total = min log.len log.before.length := by
    rcases hret with ⟨_, hleft⟩ | ⟨_, hempty⟩ <;> omega
  refine ⟨?_, htotal⟩
  unfold ReadCall.result drained
  rw [← htotal]
  by_cases hzero : c.total = 0
  · -- nothing was taken, although something was wanted
    have hbefore : log.before.length = 0 := by omega
    have hdone : retVal = RB_DONE := by
      rcases hret with ⟨_, hleft⟩ | ⟨hdone, _⟩
      · omega
      · exact hdone
    rw [hzero, if_pos hbefore, hdone]
    decide
  · have hbefore : log.before.length ≠ 0 := by omega
    have hcode : ¬(retVal = RB_FAIL ∨ retVal = RB_ABORT) := by
      rcases hret with ⟨rfl, _⟩ | ⟨rfl, _⟩ <;> decide
    rw [if_neg hcode, if_neg hbefore, if_pos (by omega)]

/-- The iteration of a call on a ring that is done. -/
theorem locked (h : DrainCall rb c log) (hsize : rb.fillCnt < 2 ^ 32)
    (hdone : rb.isDoneWrite = true) {k : ℕ} (hpc : c.pc = .sized k) {steps : ℕ}
    (hsteps : steps = log.steps + 1) :
    match (c.locked rb k).2.pc with
    | .lock => 0 < (c.locked rb k).2.bufLen ∧
      steps + drainRank (c.locked rb k).1.fillCnt (c.locked rb k).2.bufLen ≤ 8
    | .err retVal => (retVal = RB_OK ∧ (c.locked rb k).2.bufLen = 0 ∨
      retVal = RB_DONE ∧ (c.locked rb k).1.fillCnt = 0) ∧ steps + 2 ≤ 8
    | _ => False := by
  have hcall := h.pc
  rw [hpc] at hcall
  obtain ⟨hpos, hk, hrank⟩ := hcall
  rw [rbReadSize_done hdone hsize] at hk
  unfold ReadCall.locked
  by_cases hzero : k = 0
  · -- a ring that is done has nothing to take only if it is empty
    have hempty : rb.fillCnt = 0 := by
      split_ifs at hk <;> omega
    rw [if_pos hzero, if_pos hdone]
    refine ⟨Or.inr ⟨rfl, hempty⟩, ?_⟩
    rw [drainRank, if_pos (Or.inl hempty)] at hrank
    omega
  · rw [if_neg hzero]
    dsimp only
    rw [(rbReadMove_frame rb k).1]
    by_cases hall : c.bufLen - k = 0
    · rw [if_pos hall]
      refine ⟨Or.inl ⟨rfl, hall⟩, ?_⟩
      unfold drainRank at hrank
      split_ifs at hrank <;> omega
    · rw [if_neg hall]
      refine ⟨by omega, ?_⟩
      have hlt : rb.fillCnt < c.bufLen := by
        by_contra hge
        rw [if_neg hge] at hk
        omega
      rw [if_pos hlt] at hk
      have hmore : ¬(rb.fillCnt = 0 ∨ c.bufLen ≤ rb.fillCnt) := by
        split_ifs at hk <;> omega
      unfold drainRank at hrank ⊢
      rw [if_neg hmore] at hrank
      split_ifs at hk hrank ⊢ <;> omega

/-- **One step of a call.** -/
theorem step (h : DrainCall rb c log) (hwf : rb.Wf) (hsize : rb.fillCnt < 2 ^ 32)
    (hdone : rb.isDoneWrite = true) (hlock : c.pc = .lock → timeout = false)
    (hs : c.step rb timeout = some (rb', c')) : DrainCall rb' c' (log.read rb rb' c timeout) := by
  have hk : ∀ k, c.pc = .sized k → k ≤ rb.fillCnt ∧ k ≤ c.bufLen := by
    intro k hpc
    have hcall := h.pc
    rw [hpc] at hcall
    rw [hcall.2.1]
    exact rbReadSize_le rb c.bufLen
  obtain ⟨k, hle, hnone, hsome, hbuf, hcontents, hwf', hfill, -, htotal, hleft⟩ :=
    ReadCall.step_data hwf (fun k hpc => (hk k hpc).1) hs
  have hwant : k ≤ c.bufLen := by
    cases hpc : c.pc with
    | sized n =>
      rw [hsome n hpc]
      exact (hk n hpc).2
    | lock | release | block | err | clear | ret =>
      rw [hnone (by rw [hpc]; nofun)]
      exact Nat.zero_le _
  -- the log counts the step, and keeps what the call started with
  have hlog : (log.read rb rb' c timeout).len = log.len ∧
      (log.read rb rb' c timeout).before = log.before ∧
      (log.read rb rb' c timeout).steps = log.steps + 1 := by
    unfold CallLog.read
    cases c.pc with
    | lock => cases timeout <;> exact ⟨rfl, rfl, rfl⟩
    | sized | release | block | err | clear | ret => exact ⟨rfl, rfl, rfl⟩
  obtain ⟨hlen, hbefore, hsteps⟩ := hlog
  -- what has been read and what is in the ring are what the ring held at the start
  have hbound : c.total + k ≤ log.before.length := by
    have hcount := h.fillCnt hwf
    have htotal_le := h.total_le
    omega
  refine ⟨?_, ?_, ?_, ?_, ?_, ?_⟩
  · rw [hlen]
    exact h.len_pos
  · rw [hlen, ← h.split]
    omega
  · rw [hbefore, htotal]
    exact hbound
  · rw [hbefore, hbuf, htotal, h.buf, h.rest, List.take_add]
  · rw [hbefore, hcontents, htotal, h.rest, List.drop_drop]
  -- a step goes down in rank, or the call is at its end
  · have hcall := h.pc
    rw [hlen, hbefore, hsteps]
    cases hpc : c.pc with
    | lock =>
      rw [hpc] at hcall
      unfold ReadCall.step at hs
      rw [hpc, hlock hpc] at hs
      obtain ⟨rfl, rfl⟩ := Prod.mk.inj (Option.some.inj hs)
      refine ⟨hcall.1, rfl, ?_⟩
      show log.steps + 1 + drainRank rb.fillCnt c.bufLen ≤ 9
      have hrank := hcall.2
      omega
    | sized n =>
      unfold ReadCall.step at hs
      rw [hpc] at hs
      have hlocked := h.locked hsize hdone hpc rfl
      rw [Option.some.inj hs] at hlocked
      cases hpc' : c'.pc with
      | lock | err =>
        rw [hpc'] at hlocked
        exact hlocked
      | sized | release | block | clear | ret =>
        rw [hpc'] at hlocked
        exact hlocked.elim
    | release | block =>
      rw [hpc] at hcall
      exact hcall.elim
    | err retVal =>
      rw [hpc] at hcall
      unfold ReadCall.step at hs
      rw [hpc] at hs
      dsimp only at hs
      split_ifs at hs
      all_goals
        obtain ⟨rfl, rfl⟩ := Prod.mk.inj (Option.some.inj hs)
        exact ⟨hcall.1, by rw [Nat.add_assoc]; exact hcall.2⟩
    | clear retVal =>
      rw [hpc] at hcall
      unfold ReadCall.step at hs
      rw [hpc] at hs
      obtain ⟨rfl, rfl⟩ := Prod.mk.inj (Option.some.inj hs)
      have ⟨hresult, hmin⟩ := h.result_eq hwf hcall.1
      exact ⟨hresult, hmin, hcall.2⟩
    | ret v =>
      unfold ReadCall.step at hs
      rw [hpc] at hs
      exact nomatch hs

end DrainCall

/-! ### Draining -/

/-- The thread is in a control call. -/
def RbThread.inControl : RbThread → Bool
  | .control _ _ => true
  | _ => false

namespace RbTrace

variable {s s₀ s' : RbTrace ι} {r : ι}

/-- Nobody but `r` uses the ring any more, except for control calls; a lock that nobody holds is
taken without a timeout. -/
def Draining (r : ι) (s : RbTrace ι) : RbLabel ι → Prop
  | .read t _ => t = r
  | .write _ _ | .reset => False
  | .control _ _ => True
  | .step t timeout =>
    t = r ∧ (timeout = true → s.sys.lock ≠ none) ∨ (s.sys.thread t).inControl = true

instance (r : ι) (s : RbTrace ι) : ∀ l, Decidable (Draining r s l)
  | .read t _ => inferInstanceAs (Decidable (t = r))
  | .write _ _ | .reset => inferInstanceAs (Decidable False)
  | .control _ _ => inferInstanceAs (Decidable True)
  | .step t timeout => inferInstanceAs (Decidable (t = r ∧ (timeout = true → s.sys.lock ≠ none) ∨
      (s.sys.thread t).inControl = true))

/-- The reader `r` drains the ring that it found in the state `s₀`. -/
structure Drains (r : ι) (s₀ s : RbTrace ι) : Prop where
  /-- it never waits for `can_read` -/
  no_wait : ∀ c, s.sys.thread r = .reading c → c.pc ≠ .release ∧ c.pc ≠ .block
  /-- a call ends after 8 steps, and nothing stops it from taking them -/
  ends : ∀ c, s.sys.thread r = .reading c → (s.log r).steps ≤ 8 ∧
    (s.step (.step r false)).isSome = true
  /-- a call returns what it wants, or all there is, or `RB_DONE` if there is nothing -/
  returns : ∀ c v, s.sys.thread r = .reading c → c.pc = .ret v →
    v = drained (s.log r).len (s.log r).before.length ∧
      c.buf = (s.log r).before.take (s.log r).len ∧
      s.sys.rb.contents = (s.log r).before.drop (s.log r).len
  /-- the bytes come out in order -/
  order : ∃ taken, s.sys.copiedOut = s₀.sys.copiedOut ++ taken ∧
    s₀.sys.rb.contents = taken ++ s.sys.rb.contents

/-- What the reader is doing. -/
def DrainThread (rb : Ringbuf) : RbThread → CallLog → Prop
  | .reading c, log => DrainCall rb c log
  | .writing _, _ => False
  | .idle, _ | .control _ _, _ => True

/-- What every state of a draining run satisfies. -/
structure DrainInv (r : ι) (s₀ s : RbTrace ι) : Prop where
  held : s.sys.Held
  size : s.sys.rb.size < 2 ^ 32
  done : s.sys.rb.isDoneWrite = true
  lock : s.sys.lock = none ∨ ∃ c k, s.sys.thread r = .reading c ∧ c.pc = .sized k
  thread : DrainThread s.sys.rb (s.sys.thread r) (s.log r)
  order : ∃ taken, s.sys.copiedOut = s₀.sys.copiedOut ++ taken ∧
    s₀.sys.rb.contents = taken ++ s.sys.rb.contents

omit [DecidableEq ι] in
theorem DrainInv.fill (h : DrainInv r s₀ s) : s.sys.rb.fillCnt < 2 ^ 32 :=
  lt_of_le_of_lt h.held.wf.fillCnt_le h.size

omit [DecidableEq ι] in
/-- Only a reader that has computed its `read_size` holds the lock. -/
theorem DrainInv.unlocked (h : DrainInv r s₀ s)
    (hr : ∀ c, s.sys.thread r = .reading c → ∀ k, c.pc ≠ .sized k) : s.sys.lock = none := by
  refine h.lock.resolve_right ?_
  rintro ⟨c, k, hth, hpc⟩
  exact hr c hth k hpc

omit [DecidableEq ι] in
/-- A step of a control call, which makes a store or a post, or nothing. -/
theorem DrainInv.control (h : DrainInv r s₀ s) {sys' : RbSys ι} {log' : ι → CallLog}
    (hheld : sys'.Held) (hrb : sys'.rb = s.sys.rb ∨ ∃ a : RbAct, sys'.rb = a.apply s.sys.rb)
    (hlock : sys'.lock = s.sys.lock) (hout : sys'.copiedOut = s.sys.copiedOut)
    (hlog : log' r = s.log r)
    (hthread : sys'.thread r = s.sys.thread r ∨ s.sys.lock = none ∧
      (sys'.thread r = .idle ∨ ∃ call acts, sys'.thread r = .control call acts)) :
    DrainInv r s₀ { sys := sys', log := log' } := by
  have hring : sys'.rb.size = s.sys.rb.size ∧ sys'.rb.isDoneWrite = true ∧
      sys'.rb.contents = s.sys.rb.contents ∧ ∀ c log, DrainCall s.sys.rb c log →
        DrainCall sys'.rb c log := by
    rcases hrb with hrb | ⟨a, hrb⟩
    · rw [hrb]
      exact ⟨rfl, h.done, rfl, fun _ _ hc => hc⟩
    · obtain ⟨-, -, -, -, hsize⟩ := RbAct.apply_frame s.sys.rb a
      rw [hrb]
      refine ⟨hsize, ?_, contents_act _ a, fun _ _ hc => hc.act h.done a⟩
      cases a <;> first | exact h.done | rfl
  obtain ⟨hsize, hdone, hcontents, hcall⟩ := hring
  refine ⟨hheld, lt_of_eq_of_lt hsize h.size, hdone, ?_, ?_, ?_⟩
  · show sys'.lock = none ∨ _
    rw [hlock]
    rcases hthread with hsame | ⟨hnone, _⟩
    · rw [hsame]
      exact h.lock
    · exact Or.inl hnone
  · show DrainThread sys'.rb (sys'.thread r) (log' r)
    rw [hlog]
    rcases hthread with hsame | ⟨_, hidle | ⟨call, acts, hcontrol⟩⟩
    · have hth := h.thread
      rw [hsame]
      cases hst : s.sys.thread r with
      | reading c =>
        rw [hst] at hth
        exact hcall c _ hth
      | writing c =>
        rw [hst] at hth
        exact hth
      | idle | control => trivial
    · rw [hidle]
      trivial
    · rw [hcontrol]
      trivial
  · show ∃ taken, sys'.copiedOut = _ ∧ _ = _ ++ sys'.rb.contents
    rw [hcontents, hout]
    exact h.order

/-- The reader makes a step of its call. -/
theorem DrainInv.read (h : DrainInv r s₀ s) {sys' : RbSys ι} {c : ReadCall} {timeout : Bool}
    (hth : s.sys.thread r = .reading c) (hl : timeout = true → s.sys.lock ≠ none)
    (hs : s.sys.stepRead r c timeout = some sys') (hheld : sys'.Held) {log' : ι → CallLog}
    (hlog : log' r = (s.log r).read s.sys.rb sys'.rb c timeout) :
    DrainInv r s₀ { sys := sys', log := log' } := by
  have hcall : DrainCall s.sys.rb c (s.log r) := by
    have hthread := h.thread
    rw [hth] at hthread
    exact hthread
  have hk : ∀ k, c.pc = .sized k → k ≤ s.sys.rb.fillCnt := fun k hpc => (h.held.sized hth hpc).2
  have hunlocked : (∀ k, c.pc ≠ .sized k) → s.sys.lock = none := by
    intro hpc
    refine h.unlocked fun d hd => ?_
    rw [hth] at hd
    obtain rfl := RbThread.reading.inj hd
    exact hpc
  rcases RbSys.stepRead_cases h.held.wf hk hs with
    ⟨⟨v, hpc⟩, rfl⟩ | ⟨c', hc, hthread, -, hout, hlock⟩
  · refine ⟨hheld, h.size, h.done, Or.inl (hunlocked (by rw [hpc]; nofun)), ?_, h.order⟩
    show DrainThread _ ((s.sys.goto r .idle).thread r) _
    rw [RbSys.goto_thread_self]
    trivial
  · -- the lock is free when the reader asks for it, so that it does not time out there
    have hnotimeout : c.pc = .lock → timeout = false := by
      intro hpc
      cases timeout with
      | false => rfl
      | true => exact absurd (hunlocked (by rw [hpc]; nofun)) (hl rfl)
    have hr : sys'.thread r = .reading c' := by
      rw [hthread, Function.update_self]
    obtain ⟨k, -, -, -, hbuf, hcontents, -, -, hsize, -⟩ := ReadCall.step_data h.held.wf hk hc
    refine ⟨hheld, ?_, (ReadCall.step_flags hc).1.trans h.done, ?_, ?_, ?_⟩
    · show sys'.rb.size < _
      rw [hsize]
      exact h.size
    · rcases hlock with ⟨hpc, ht, -, -⟩ | ⟨-, hnone⟩ | ⟨-, hpc, hsame⟩
      · unfold ReadCall.step at hc
        rw [hpc, ht] at hc
        obtain ⟨-, rfl⟩ := Prod.mk.inj (Option.some.inj hc)
        exact Or.inr ⟨_, _, hr, rfl⟩
      · exact Or.inl hnone
      · exact Or.inl (hsame.trans (hunlocked hpc))
    · show DrainThread _ (sys'.thread r) (log' r)
      rw [hr, hlog]
      exact hcall.step h.held.wf h.fill h.done hnotimeout hc
    · -- what has been read stands in front of what is left, before the step and after it
      obtain ⟨taken, hcopied, hbefore⟩ := h.order
      refine ⟨taken ++ s.sys.rb.contents.take k, ?_, ?_⟩
      · show sys'.copiedOut = _
        rw [hout, hbuf, List.drop_left, hcopied, List.append_assoc]
      · show _ = _ ++ sys'.rb.contents
        rw [hcontents, List.append_assoc, List.take_append_drop]
        exact hbefore

/-- **A step of a draining run.** -/
theorem DrainInv.step {l : RbLabel ι} (h : DrainInv r s₀ s) (hl : Draining r s l)
    (hs : s.step l = some s') : DrainInv r s₀ s' := by
  obtain ⟨sys', hsys, rfl⟩ := Option.map_eq_some_iff.mp hs
  have hheld := h.held.step hsys
  -- nobody writes: only the reader and the calls that set flags make steps
  cases l with
  | write => exact hl.elim
  | reset => exact hl.elim
  | read t len =>
    obtain rfl : t = r := hl
    simp only [RbSys.step] at hsys
    split_ifs at hsys with hidle
    obtain rfl := Option.some.inj hsys
    have hnone : s.sys.lock = none := h.unlocked fun c hth => by
      rw [hidle.1] at hth
      cases hth
    refine ⟨hheld, h.size, h.done, Or.inl hnone, ?_, h.order⟩
    show DrainThread _ ((s.sys.goto t _).thread t) (Function.update s.log t _ t)
    rw [RbSys.goto_thread_self, Function.update_self]
    exact DrainCall.start _ hidle.2
  | control t call =>
    simp only [RbSys.step] at hsys
    split_ifs at hsys with hidle
    obtain rfl := Option.some.inj hsys
    refine h.control hheld (Or.inl rfl) rfl rfl rfl ?_
    by_cases hrt : r = t
    · subst hrt
      refine Or.inr ⟨?_, Or.inr ⟨_, _, RbSys.goto_thread_self ..⟩⟩
      refine h.unlocked fun c hth => ?_
      rw [hidle] at hth
      cases hth
    · exact Or.inl (RbSys.goto_thread_ne hrt ..)
  | step t timeout =>
    simp only [RbSys.step] at hsys
    cases hth : s.sys.thread t with
    | idle =>
      rw [hth] at hsys
      cases hsys
    | reading c =>
      rw [hth] at hsys
      have hnot : ¬(s.sys.thread t).inControl = true := by
        rw [hth]
        exact Bool.false_ne_true
      obtain ⟨rfl, htimeout⟩ := hl.resolve_right hnot
      refine h.read hth htimeout hsys hheld ?_
      simp only [record, hth, Function.update_self]
    | writing c =>
      have hnot : ¬(s.sys.thread t).inControl = true := by
        rw [hth]
        exact Bool.false_ne_true
      obtain ⟨rfl, _⟩ := hl.resolve_right hnot
      have hthread := h.thread
      rw [hth] at hthread
      exact hthread.elim
    | control call acts =>
      rw [hth] at hsys
      obtain rfl := Option.some.inj hsys
      have hlog : s.record (s.sys.stepControl t call acts).rb (.step t timeout) r = s.log r := by
        simp only [record, hth]
      have hunlocked : r = t → s.sys.lock = none := by
        rintro rfl
        refine h.unlocked fun c hc => ?_
        rw [hth] at hc
        cases hc
      cases acts with
      | nil =>
        refine h.control hheld (Or.inl rfl) rfl rfl hlog ?_
        by_cases hrt : r = t
        · subst hrt
          exact Or.inr ⟨hunlocked rfl, Or.inl (RbSys.goto_thread_self ..)⟩
        · exact Or.inl (RbSys.goto_thread_ne hrt ..)
      | cons a acts =>
        refine h.control hheld (Or.inr ⟨a, rfl⟩) rfl rfl hlog ?_
        by_cases hrt : r = t
        · subst hrt
          exact Or.inr ⟨hunlocked rfl, Or.inr ⟨_, _, RbSys.goto_thread_self ..⟩⟩
        · exact Or.inl (RbSys.goto_thread_ne hrt ..)

/-- The next step of the reader is never stopped. -/
theorem DrainInv.enabled (h : DrainInv r s₀ s) {c : ReadCall} (hth : s.sys.thread r = .reading c) :
    (s.step (.step r false)).isSome = true := by
  have hcall : DrainCall s.sys.rb c (s.log r) := by
    have hthread := h.thread
    rw [hth] at hthread
    exact hthread
  have hpc := hcall.pc
  have hsys : s.sys.step (.step r false) = s.sys.stepRead r c false := by
    simp only [RbSys.step, hth]
  rw [RbTrace.step, Option.isSome_map, hsys]
  unfold RbSys.stepRead ReadCall.step
  cases hst : c.pc with
  | lock =>
    have hnone : s.sys.lock = none := h.unlocked fun d hd => by
      rw [hth] at hd
      obtain rfl := RbThread.reading.inj hd
      simp [hst]
    simp [hnone]
  | release | block =>
    rw [hst] at hpc
    exact hpc.elim
  | err retVal =>
    dsimp only
    split_ifs <;> rfl
  | sized | clear | ret => rfl

theorem DrainInv.drains (h : DrainInv r s₀ s) : Drains r s₀ s := by
  have hcall : ∀ c, s.sys.thread r = .reading c → DrainCall s.sys.rb c (s.log r) := by
    intro c hth
    have hthread := h.thread
    rw [hth] at hthread
    exact hthread
  refine ⟨fun c hth => ?_, fun c hth => ⟨?_, h.enabled hth⟩, fun c v hth hv => ?_, h.order⟩
  · have hpc := (hcall c hth).pc
    constructor
    · intro hrelease
      rw [hrelease] at hpc
      exact hpc
    · intro hblock
      rw [hblock] at hpc
      exact hpc
  · have hpc := (hcall c hth).pc
    have hrank : 4 ≤ drainRank s.sys.rb.fillCnt c.bufLen := by
      unfold drainRank
      split_ifs <;> omega
    cases hst : c.pc with
    | release | block =>
      rw [hst] at hpc
      exact hpc.elim
    | lock | sized | err | clear | ret =>
      rw [hst] at hpc
      omega
  · have hdrain := hcall c hth
    have hpc := hdrain.pc
    rw [hv] at hpc
    obtain ⟨hdrained, hmin, _⟩ := hpc
    refine ⟨hdrained, ?_, ?_⟩
    · rw [hdrain.buf, hmin]
      exact List.take_eq_take_min.symm
    · rw [hdrain.rest, hmin]
      exact List.drop_eq_drop_min.symm

end RbTrace

/-! ### `RB_DONE` -/

/-- The thread stores `is_done_write` next. -/
def RbThread.storesDone : RbThread → Bool
  | .control _ (.setDone :: _) => true
  | _ => false

/-- The thread is in `rb_read`, has the lock and has found nothing it may take. -/
def RbThread.foundNothing : RbThread → Bool
  | .reading c => c.pc == .sized 0
  | _ => false

/-- Where a call decides to return `RB_DONE`, and how the code travels to its return. -/
theorem ReadCall.step_done {c c' : ReadCall} {timeout : Bool}
    (hs : c.step rb timeout = some (rb', c')) :
    (c'.pc = .err RB_DONE → c.pc = .sized 0 ∧ rb.isDoneWrite = true) ∧
      (c'.pc = .clear RB_DONE → c.pc = .err RB_DONE) ∧
      (c'.pc = .ret RB_DONE → c.pc = .clear RB_DONE) := by
  unfold ReadCall.step at hs
  cases hpc : c.pc with
  | lock | block =>
    rw [hpc] at hs
    dsimp only at hs
    split_ifs at hs
    all_goals
      obtain ⟨-, rfl⟩ := Prod.mk.inj (Option.some.inj hs)
      exact ⟨nofun, nofun, nofun⟩
  | release =>
    rw [hpc] at hs
    obtain ⟨-, rfl⟩ := Prod.mk.inj (Option.some.inj hs)
    exact ⟨nofun, nofun, nofun⟩
  | sized k =>
    rw [hpc] at hs
    have hc : (c.locked rb k).2 = c' := congrArg Prod.snd (Option.some.inj hs)
    rw [← hc]
    unfold ReadCall.locked
    split_ifs with hk hdone
    · -- the only branch that sets RB_DONE: nothing is filled and the writer is done
      exact ⟨fun _ => ⟨by rw [hk], hdone⟩, nofun, nofun⟩
    all_goals exact ⟨nofun, nofun, nofun⟩
  | err retVal =>
    rw [hpc] at hs
    dsimp only at hs
    split_ifs at hs
    all_goals
      obtain ⟨-, rfl⟩ := Prod.mk.inj (Option.some.inj hs)
      refine ⟨nofun, fun h => ?_, nofun⟩
      rw [ReadPc.clear.inj h]
  | clear retVal =>
    rw [hpc] at hs
    obtain ⟨-, rfl⟩ := Prod.mk.inj (Option.some.inj hs)
    refine ⟨nofun, nofun, fun h => ?_⟩
    have hresult : c.result retVal = RB_DONE := ReadPc.ret.inj h
    unfold ReadCall.result at hresult
    dsimp only at hresult
    -- a count of bytes is never negative
    have htotal : (c.total : ℤ) ≠ RB_DONE := by
      show (c.total : ℤ) ≠ -2
      omega
    split_ifs at hresult <;> first | exact absurd hresult htotal | rw [hresult]
  | ret v =>
    rw [hpc] at hs
    exact nomatch hs

namespace RbTrace

variable {s s' : RbTrace ι}

/-- `is_done_write` is not stored while a reader that has found 1 to 3 bytes, and may take none of
them, is about to look at the flag again. -/
def NoLateDone (s : RbTrace ι) : RbLabel ι → Prop
  | .step u _ => (s.sys.thread u).storesDone = true →
    ∀ t ∈ s.sys.lock, (s.sys.thread t).foundNothing = true → s.sys.rb.fillCnt = 0
  | _ => True

instance (s : RbTrace ι) : ∀ l, Decidable (s.NoLateDone l)
  | .step u _ => inferInstanceAs (Decidable ((s.sys.thread u).storesDone = true →
      ∀ t ∈ s.sys.lock, (s.sys.thread t).foundNothing = true → s.sys.rb.fillCnt = 0))
  | .read _ _ | .write _ _ | .control _ _ | .reset => inferInstanceAs (Decidable True)

/-- While `t` has the lock the others leave the bytes of the ring alone. -/
theorem locked_frame {sys sys' : RbSys ι} {l : RbLabel ι} {t : ι} {c : ReadCall} {k : ℕ}
    (hh : sys.Held) (hth : sys.thread t = .reading c) (hpc : c.pc = .sized k)
    (hs : sys.step l = some sys') (hsame : sys'.thread t = sys.thread t) :
    sys'.rb.fillCnt = sys.rb.fillCnt ∧ (sys'.rb.isDoneWrite = true → sys.rb.isDoneWrite = true ∨
      ∃ u timeout, l = .step u timeout ∧ (sys.thread u).storesDone = true) := by
  have hlock : sys.lock = some t := (hh.sized hth hpc).1
  cases l with
  | read u len | write u bytes | control u call =>
    simp only [RbSys.step] at hs
    split_ifs at hs
    obtain rfl := Option.some.inj hs
    exact ⟨rfl, Or.inl⟩
  | reset =>
    simp only [RbSys.step] at hs
    split_ifs at hs with hnone
    rw [hlock] at hnone
    cases hnone
  | step u timeout =>
    simp only [RbSys.step] at hs
    cases hu : sys.thread u with
    | idle =>
      rw [hu] at hs
      cases hs
    | reading d =>
      rw [hu] at hs
      have hk := fun n hn => (hh.sized (k := n) hu hn).2
      rcases RbSys.stepRead_cases hh.wf hk hs with ⟨-, rfl⟩ | ⟨d', hd, hthread, -⟩
      · exact ⟨rfl, Or.inl⟩
      · have hnot : ∀ n, d.pc ≠ .sized n := by
          intro n hn
          have hut : u = t := by
            have hlock' := (hh.sized hu hn).1
            rw [hlock] at hlock'
            exact (Option.some.inj hlock').symm
          subst hut
          -- the holder of the lock does not stay where it is
          rw [hthread, Function.update_self, hth] at hsame
          rw [RbThread.reading.inj hsame] at hd
          have hlocked := (ReadCall.step_sized hd hpc).1
          rw [hlocked] at hn
          cases hn
        obtain ⟨n, -, hzero, -, -, -, -, hfill, -⟩ := ReadCall.step_data hh.wf hk hd
        rw [hzero hnot, Nat.sub_zero] at hfill
        refine ⟨hfill, fun hdone => Or.inl ?_⟩
        rwa [(ReadCall.step_flags hd).1] at hdone
    | writing d =>
      rw [hu] at hs
      rcases RbSys.stepWrite_cases hh.wf hs with ⟨-, rfl⟩ | ⟨d', hd, -, -, -, -, hfree⟩
      · exact ⟨rfl, Or.inl⟩
      · obtain ⟨n, -, -, hzero, -, -, -, hfill, -⟩ := WriteCall.step_data hh.wf hd
        have hn : n = 0 := by
          refine hzero ?_
          by_contra hboth
          rw [not_or, not_not] at hboth
          have hnone := hfree hboth.1 (by simpa using hboth.2)
          rw [hlock] at hnone
          cases hnone
        rw [hn, Nat.add_zero] at hfill
        refine ⟨hfill, fun hdone => Or.inl ?_⟩
        rwa [(WriteCall.step_flags hd).1] at hdone
    | control call acts =>
      rw [hu] at hs
      obtain rfl := Option.some.inj hs
      cases acts with
      | nil => exact ⟨rfl, Or.inl⟩
      | cons a acts =>
        obtain ⟨-, -, -, hfill, -⟩ := RbAct.apply_frame sys.rb a
        refine ⟨hfill, fun hdone => ?_⟩
        cases a with
        | setDone => exact Or.inr ⟨u, timeout, rfl, by rw [hu]; rfl⟩
        | setAbortRead | setAbortWrite | setUnblock | postRead | postWrite => exact Or.inl hdone

/-- `RB_DONE` comes from an empty ring that is done. -/
structure DoneInv (s : RbTrace ι) : Prop where
  sized : ∀ t c, s.sys.thread t = .reading c → c.pc = .sized 0 → s.sys.rb.isDoneWrite = true →
    s.sys.rb.fillCnt = 0
  exits : ∀ t c, s.sys.thread t = .reading c →
    c.pc = .err RB_DONE ∨ c.pc = .clear RB_DONE ∨ c.pc = .ret RB_DONE →
    (s.log t).lastDone = some (true, 0)

theorem DoneInv.step {l : RbLabel ι} (h : DoneInv s) (hh : s.sys.Held)
    (hsize : s.sys.rb.fillCnt < 2 ^ 32) (haligned : ∀ t, ReadsAligned (s.sys.thread t) (s.log t))
    (hl : s.NoLateDone l) (hs : s.step l = some s') : DoneInv s' := by
  have hsys : s.sys.step l = some s'.sys := by
    obtain ⟨sys', hsys, rfl⟩ := Option.map_eq_some_iff.mp hs
    exact hsys
  -- a size of 0 with the flag set, and then what the call returns for it
  refine ⟨fun t c hth hpc hdone => ?_, fun t c hth hpc => ?_⟩
  · cases step_thread hh hs t with
    | stay hsame _ =>
      rw [hth] at hsame
      have hfrom := hsame.symm
      have ⟨hfill, hstored⟩ := locked_frame hh hfrom hpc hsys (hth.trans hsame)
      rw [hfill]
      -- the flag was set before, or it is stored behind the check, which is late
      rcases hstored hdone with hbefore | ⟨u, timeout, rfl, hstores⟩
      · exact h.sized t c hfrom hpc hbefore
      · refine hl hstores t (hh.sized hfrom hpc).1 ?_
        rw [hfrom]
        show (c.pc == .sized 0) = true
        rw [hpc]
        decide
    | read d d' timeout hfrom hstep hthread _ =>
      rw [hth] at hthread
      obtain rfl := RbThread.reading.inj hthread
      obtain ⟨hlock, _, hrb, hzero⟩ := ReadCall.step_sized hstep hpc
      have hwants : 0 < d.bufLen := by
        have hd := haligned t
        rw [hfrom] at hd
        exact hd.wants (by rw [hlock]; trivial)
      rw [hrb] at hdone ⊢
      rw [rbReadSize_done hdone hsize] at hzero
      split_ifs at hzero <;> omega
    | rbRead len _ hthread _ =>
      rw [hth] at hthread
      obtain rfl := RbThread.reading.inj hthread
      exact nomatch hpc
    | idle hthread | control _ _ hthread | rbWrite _ hthread _ | write _ _ _ _ _ hthread _ =>
      rw [hth] at hthread
      exact nomatch hthread
  · cases step_thread hh hs t with
    | stay hsame hlog =>
      rw [hlog]
      exact h.exits t c (hsame.symm.trans hth) hpc
    | read d d' timeout hfrom hstep hthread hlog =>
      rw [hth] at hthread
      obtain rfl := RbThread.reading.inj hthread
      obtain ⟨herr, hclear, hret⟩ := ReadCall.step_done hstep
      rw [hlog]
      rcases hpc with hpc | hpc | hpc
      · obtain ⟨hzero, hdone⟩ := herr hpc
        rw [CallLog.read_lastDone_sized hzero, hdone, h.sized t d hfrom hzero hdone]
      · rw [CallLog.read_lastDone (by rw [hclear hpc]; nofun)]
        exact h.exits t d hfrom (Or.inl (hclear hpc))
      · rw [CallLog.read_lastDone (by rw [hret hpc]; nofun)]
        exact h.exits t d hfrom (Or.inr (Or.inl (hret hpc)))
    | rbRead len _ hthread _ =>
      rw [hth] at hthread
      obtain rfl := RbThread.reading.inj hthread
      rcases hpc with hpc | hpc | hpc <;> exact nomatch hpc
    | idle hthread | control _ _ hthread | rbWrite _ hthread _ | write _ _ _ _ _ hthread _ =>
      rw [hth] at hthread
      exact nomatch hthread

end RbTrace

/-- **Draining a ring**: from any state in which `is_done_write` is set and the lock is free, a
reader that has the ring for itself drains it, and `RB_DONE` says that the ring was done and empty
when the call looked at the flag, unless the flag was stored in the middle of the iteration. -/
theorem ring_drains {blockSize nBlocks : ℤ} {allocated : Bool}
    (hcreate : rbCreate blockSize nBlocks allocated = some rb) (s₀ : RbTrace ι) :
    (RbTrace.Reachable rb s₀ → s₀.sys.rb.isDoneWrite = true → s₀.sys.lock = none →
      ∀ r, s₀.sys.thread r = .idle → ∀ s, Lts.Reach RbTrace.step (RbTrace.Draining r) s₀ s →
      RbTrace.Drains r s₀ s) ∧
    (Lts.Reach RbTrace.step RbTrace.NoLateDone (RbTrace.init rb) s₀ →
      ∀ t c, s₀.sys.thread t = .reading c → c.pc = .ret RB_DONE →
      (s₀.log t).lastDone = some (true, 0)) := by
  obtain ⟨hwf, hempty, -⟩ := rbCreate_spec hcreate
  have hsize := rbCreate_size hcreate
  constructor
  · intro hreach hdone hlock r hidle s hs
    obtain ⟨hheld, f, hsim⟩ := (RbTrace.Reach.sys hreach).sim hwf hempty
    have hstart : RbTrace.DrainInv r s₀ s₀ := by
      refine ⟨hheld, lt_of_eq_of_lt hsim.size hsize, hdone, Or.inl hlock, ?_, [], ?_, rfl⟩
      · rw [hidle]
        trivial
      · rw [List.append_nil]
    exact (hs.invariant hstart fun _ _ _ hi hl hs => hi.step hl hs).drains
  · intro hreach t c hth hret
    have hinv : RbTrace.DoneInv s₀ := by
      refine hreach.invariant_reach ⟨nofun, nofun⟩ fun s l s' hr hi hl hs => ?_
      obtain ⟨hheld, f, hsim⟩ := (RbTrace.Reach.sys hr).sim hwf hempty
      have hfill : s.sys.rb.fillCnt < 2 ^ 32 :=
        lt_of_le_of_lt (hheld.wf.fillCnt_le.trans hsim.size.le) hsize
      exact hi.step hheld hfill (fun t => (readsAligned hsize).holds hwf hempty hr t) hl hs
    exact hinv.exits t c hth (Or.inr (Or.inr hret))

/-- Six bytes of a ring that is done, in one call, and a second call. -/
theorem ring_drains_six :
    (∃ s₀ s : RbTrace (Fin 2), s₀.sys.rb.contents = [1, 2, 3, 4, 5, 6] ∧
      RbTrace.Drains 1 s₀ s ∧ s.sys.copiedOut = [1, 2, 3, 4, 5, 6]) ∧
      ∃ (s : RbTrace (Fin 2)) (c : ReadCall), s.sys.thread 1 = .reading c ∧ c.pc = .ret RB_DONE ∧
        (s.log 1).lastDone = some (true, 0) := by
  have hcreate : rbCreate 8 1 true = some (Ringbuf.empty 8) := rfl
  let writer : List (RbLabel (Fin 2)) := [.write 0 [1, 2, 3, 4, 5, 6], .step 0 false,
    .step 0 false, .step 0 false, .control 0 .doneWrite, .step 0 false, .step 0 false,
    .step 0 false]
  let reader : List (RbLabel (Fin 2)) := .read 1 8 :: List.replicate 9 (.step 1 false) ++
    .read 1 8 :: List.replicate 4 (.step 1 false)
  let start : Option (RbTrace (Fin 2)) :=
    Lts.run RbTrace.step RbTrace.NoLateDone (RbTrace.init (Ringbuf.empty 8)) writer
  have hstart : start.map (fun s => (s.sys.rb.contents, s.sys.rb.isDoneWrite, s.sys.lock,
      s.sys.thread 1)) = some ([1, 2, 3, 4, 5, 6], true, none, .idle) := by
    decide
  have hdrained : (start.bind fun s => Lts.run RbTrace.step (RbTrace.Draining 1) s reader).map
      (fun s => s.sys.copiedOut) = some [1, 2, 3, 4, 5, 6] := by
    decide
  have hreturned : (start.bind fun s => Lts.run RbTrace.step RbTrace.NoLateDone s reader).map
      (fun s => s.sys.thread 1) = some (.reading ⟨8, 0, [], false, .ret RB_DONE⟩) := by
    decide
  obtain ⟨s₀, hs₀, hobs⟩ := Option.map_eq_some_iff.mp hstart
  obtain ⟨hcontents, hobs⟩ := Prod.mk.inj hobs
  obtain ⟨hdone, hobs⟩ := Prod.mk.inj hobs
  obtain ⟨hlock, hidle⟩ := Prod.mk.inj hobs
  have hr₀ := Lts.Reach.of_run _ Lts.Reach.refl hs₀
  rw [hs₀, Option.bind_some] at hdrained hreturned
  obtain ⟨s, hs, hout⟩ := Option.map_eq_some_iff.mp hdrained
  obtain ⟨s', hs', hret⟩ := Option.map_eq_some_iff.mp hreturned
  constructor
  · have hdrains := (ring_drains hcreate s₀).1 (hr₀.mono fun _ _ _ => trivial) hdone hlock 1 hidle s
    exact ⟨s₀, s, hcontents, hdrains (Lts.Reach.of_run _ Lts.Reach.refl hs), hout⟩
  · have hempty := (ring_drains hcreate s').2 (Lts.Reach.of_run _ hr₀ hs') 1 _ hret rfl
    exact ⟨s', _, hret, rfl, hempty⟩

/-- The flag is stored while a reader that found one byte is about to look at it again. -/
theorem done_before_empty :
    ¬∀ (blockSize nBlocks : ℤ) (allocated : Bool) (rb : Ringbuf) (s : RbTrace (Fin 2)),
      rbCreate blockSize nBlocks allocated = some rb → RbTrace.Reachable rb s →
      ∀ t c, s.sys.thread t = .reading c → c.pc = .ret RB_DONE →
      (s.log t).lastDone = some (true, 0) := by
  intro hall
  obtain ⟨s, hs⟩ : ∃ s, Lts.run RbTrace.step (fun _ _ => True)
      (RbTrace.init (Ringbuf.empty 8) : RbTrace (Fin 2))
      [.write 0 [1], .step 0 false, .step 0 false, .step 0 false, .control 0 .doneWrite,
        .read 1 4, .step 1 false, .step 0 false, .step 1 false, .step 1 false, .step 1 false] =
      some s :=
    ⟨_, rfl⟩
  have hempty := hall 8 1 true _ s rfl (Lts.Reach.of_run _ Lts.Reach.refl hs) 1
  obtain rfl := Option.some.inj hs
  exact nomatch hempty _ rfl rfl

end AudioPipeline
