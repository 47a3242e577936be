import AudioPipeline.Ringbuf.Equiv.Fifo
import AudioPipeline.Ringbuf.Trace

/-!
# What `rb_read` and `rb_write` report

Everything here is about one call, whatever the other threads do to the ring between its steps.
`RbTrace.ThreadStep` says what a step can do to one thread and its record, and `CallInv.holds` is
the induction over a run: what a call keeps in each of its own steps holds in every reached state.

* `transfers_reported`: a positive result is the number of bytes that were moved, and a call that
  moved some can return nothing else but `RB_ABORT`.
* `short_reads_aligned`: a short read of a ring that is not done is a multiple of 4.
-/

namespace AudioPipeline

namespace RbTrace

variable {ι : Type} [DecidableEq ι] {s s' : RbTrace ι} {rb : Ringbuf}

/-- What a step of the threads does to the thread `t`. -/
inductive ThreadStep (s s' : RbTrace ι) (t : ι) : Prop
  | stay (hthread : s'.sys.thread t = s.sys.thread t) (hlog : s'.log t = s.log t)
  | idle (hthread : s'.sys.thread t = .idle)
  | control (call : RbControl) (acts : List RbAct)
    (hthread : s'.sys.thread t = .control call acts)
  | rbRead (len : ℕ) (hlen : 0 < len) (hthread : s'.sys.thread t = .reading (rbRead len))
    (hlog : s'.log t = .ofRead s.sys.rb len)
  | rbWrite (bytes : List UInt8) (hthread : s'.sys.thread t = .writing (rbWrite bytes))
    (hlog : s'.log t = .ofWrite s.sys.rb bytes)
  | read (c c' : ReadCall) (timeout : Bool) (hfrom : s.sys.thread t = .reading c)
    (hstep : c.step s.sys.rb timeout = some (s'.sys.rb, c'))
    (hthread : s'.sys.thread t = .reading c')
    (hlog : s'.log t = (s.log t).read s.sys.rb s'.sys.rb c timeout)
  | write (c c' : WriteCall) (timeout : Bool) (hfrom : s.sys.thread t = .writing c)
    (hstep : c.step s.sys.rb timeout = some (s'.sys.rb, c'))
    (hthread : s'.sys.thread t = .writing c')
    (hlog : s'.log t = (s.log t).write s.sys.rb s'.sys.rb)

/-- The thread that makes a step. -/
def thread : RbLabel ι → Option ι
  | .read t _ | .write t _ | .control t _ | .step t _ => some t
  | .reset => none

/-- A step leaves the other threads and their records alone. -/
theorem step_other {l : RbLabel ι} {t : ι} (hh : s.sys.Held) (hs : s.step l = some s')
    (hl : thread l ≠ some t) : s'.sys.thread t = s.sys.thread t ∧ s'.log t = s.log t := by
  obtain ⟨sys', hsys, rfl⟩ := Option.map_eq_some_iff.mp hs
  cases l with
  | read u len | write u bytes =>
    have htu : t ≠ u := fun h => hl (congrArg some h.symm)
    simp only [RbSys.step] at hsys
    split_ifs at hsys
    obtain rfl := Option.some.inj hsys
    exact ⟨RbSys.goto_thread_ne htu .., Function.update_of_ne htu ..⟩
  | control u call =>
    have htu : t ≠ u := fun h => hl (congrArg some h.symm)
    simp only [RbSys.step] at hsys
    split_ifs at hsys
    obtain rfl := Option.some.inj hsys
    exact ⟨RbSys.goto_thread_ne htu .., rfl⟩
  | reset =>
    simp only [RbSys.step] at hsys
    split_ifs at hsys
    obtain rfl := Option.some.inj hsys
    exact ⟨rfl, rfl⟩
  | step u timeout =>
    have htu : t ≠ u := fun h => hl (congrArg some h.symm)
    simp only [RbSys.step] at hsys
    cases hth : s.sys.thread u with
    | idle =>
      rw [hth] at hsys
      cases hsys
    | reading c =>
      rw [hth] at hsys
      have hk := fun k hpc => (hh.sized (k := k) hth hpc).2
      -- a record is made when a call returns, for its own thread
      have hlog : s.record sys'.rb (.step u timeout) t = s.log t := by
        simp only [record, hth]
        exact Function.update_of_ne htu ..
      rcases RbSys.stepRead_cases hh.wf hk hsys with ⟨-, rfl⟩ | ⟨c', -, hthread, -⟩
      · exact ⟨RbSys.goto_thread_ne htu .., hlog⟩
      · refine ⟨?_, hlog⟩
        show sys'.thread t = _
        rw [hthread, Function.update_of_ne htu]
    | writing c =>
      rw [hth] at hsys
      have hlog : s.record sys'.rb (.step u timeout) t = s.log t := by
        simp only [record, hth]
        exact Function.update_of_ne htu ..
      rcases RbSys.stepWrite_cases hh.wf hsys with ⟨-, rfl⟩ | ⟨c', -, hthread, -⟩
      · exact ⟨RbSys.goto_thread_ne htu .., hlog⟩
      · refine ⟨?_, hlog⟩
        show sys'.thread t = _
        rw [hthread, Function.update_of_ne htu]
    | control call acts =>
      rw [hth] at hsys
      obtain rfl := Option.some.inj hsys
      have hlog : s.record (s.sys.stepControl u call acts).rb (.step u timeout) t = s.log t := by
        simp only [record, hth]
      refine ⟨?_, hlog⟩
      cases acts with
      | nil => exact RbSys.goto_thread_ne htu ..
      | cons a acts => exact RbSys.goto_thread_ne htu ..

/-- **A step of `rb_read`**, or the return from it. -/
theorem step_reading {t : ι} {c : ReadCall} {timeout : Bool} (hh : s.sys.Held)
    (hs : s.step (.step t timeout) = some s') (hth : s.sys.thread t = .reading c) :
    (∃ v, c.pc = .ret v) ∧ s'.sys.thread t = .idle ∨
      ∃ c', c.step s.sys.rb timeout = some (s'.sys.rb, c') ∧ s'.sys.thread t = .reading c' ∧
        s'.log t = (s.log t).read s.sys.rb s'.sys.rb c timeout := by
  obtain ⟨sys', hsys, rfl⟩ := Option.map_eq_some_iff.mp hs
  simp only [RbSys.step, hth] at hsys
  have hk := fun k hpc => (hh.sized (k := k) hth hpc).2
  rcases RbSys.stepRead_cases hh.wf hk hsys with ⟨hret, rfl⟩ | ⟨c', hc, hthread, -⟩
  · exact Or.inl ⟨hret, RbSys.goto_thread_self ..⟩
  · refine Or.inr ⟨c', hc, ?_, ?_⟩
    · show sys'.thread t = _
      rw [hthread, Function.update_self]
    · show s.record sys'.rb (.step t timeout) t = _
      simp only [record, hth]
      exact Function.update_self ..

/-- **A step of `rb_write`**, or the return from it. -/
theorem step_writing {t : ι} {c : WriteCall} {timeout : Bool} (hh : s.sys.Held)
    (hs : s.step (.step t timeout) = some s') (hth : s.sys.thread t = .writing c) :
    (∃ v, c.pc = .ret v) ∧ s'.sys.thread t = .idle ∨
      ∃ c', c.step s.sys.rb timeout = some (s'.sys.rb, c') ∧ s'.sys.thread t = .writing c' ∧
        s'.log t = (s.log t).write s.sys.rb s'.sys.rb := by
  obtain ⟨sys', hsys, rfl⟩ := Option.map_eq_some_iff.mp hs
  simp only [RbSys.step, hth] at hsys
  rcases RbSys.stepWrite_cases hh.wf hsys with ⟨hret, rfl⟩ | ⟨c', hc, hthread, -⟩
  · exact Or.inl ⟨hret, RbSys.goto_thread_self ..⟩
  · refine Or.inr ⟨c', hc, ?_, ?_⟩
    · show sys'.thread t = _
      rw [hthread, Function.update_self]
    · show s.record sys'.rb (.step t timeout) t = _
      simp only [record, hth]
      exact Function.update_self ..

/-- **A call of `rb_write`.** -/
theorem step_rbWrite {t : ι} {bytes : List UInt8} (hs : s.step (.write t bytes) = some s') :
    s'.sys.thread t = .writing (rbWrite bytes) ∧ s'.log t = .ofWrite s.sys.rb bytes := by
  obtain ⟨sys', hsys, rfl⟩ := Option.map_eq_some_iff.mp hs
  simp only [RbSys.step] at hsys
  split_ifs at hsys
  obtain rfl := Option.some.inj hsys
  exact ⟨RbSys.goto_thread_self .., Function.update_self ..⟩

/-- **Every step** is one of these for every thread. -/
theorem step_thread {l : RbLabel ι} (hh : s.sys.Held) (hs : s.step l = some s') (t : ι) :
    ThreadStep s s' t := by
  by_cases hl : thread l = some t
  · cases l with
    | read u len =>
      obtain rfl : u = t := Option.some.inj hl
      obtain ⟨sys', hsys, rfl⟩ := Option.map_eq_some_iff.mp hs
      simp only [RbSys.step] at hsys
      split_ifs at hsys with hidle
      obtain rfl := Option.some.inj hsys
      exact .rbRead len hidle.2 (RbSys.goto_thread_self ..) (Function.update_self ..)
    | write u bytes =>
      obtain rfl : u = t := Option.some.inj hl
      obtain ⟨hthread, hlog⟩ := step_rbWrite hs
      exact .rbWrite bytes hthread hlog
    | control u call =>
      obtain rfl : u = t := Option.some.inj hl
      obtain ⟨sys', hsys, rfl⟩ := Option.map_eq_some_iff.mp hs
      simp only [RbSys.step] at hsys
      split_ifs at hsys
      obtain rfl := Option.some.inj hsys
      exact .control call call.acts (RbSys.goto_thread_self ..)
    | reset => cases hl
    | step u timeout =>
      obtain rfl : u = t := Option.some.inj hl
      cases hth : s.sys.thread u with
      | idle =>
        obtain ⟨sys', hsys, rfl⟩ := Option.map_eq_some_iff.mp hs
        simp only [RbSys.step, hth] at hsys
        cases hsys
      | reading c =>
        rcases step_reading hh hs hth with ⟨-, hidle⟩ | ⟨c', hc, hthread, hlog⟩
        · exact .idle hidle
        · exact .read c c' timeout hth hc hthread hlog
      | writing c =>
        rcases step_writing hh hs hth with ⟨-, hidle⟩ | ⟨c', hc, hthread, hlog⟩
        · exact .idle hidle
        · exact .write c c' timeout hth hc hthread hlog
      | control call acts =>
        obtain ⟨sys', hsys, rfl⟩ := Option.map_eq_some_iff.mp hs
        simp only [RbSys.step, hth] at hsys
        obtain rfl := Option.some.inj hsys
        cases acts with
        | nil => exact .idle (RbSys.goto_thread_self ..)
        | cons a acts => exact .control call acts (RbSys.goto_thread_self ..)
  · obtain ⟨hthread, hlog⟩ := step_other hh hs hl
    exact .stay hthread hlog

/-! ### Runs -/

theorem Reach.sys {P : RbTrace ι → RbLabel ι → Prop} (h : Lts.Reach step P (init rb) s) :
    RbSys.Reachable rb s.sys := by
  have hstart : RbSys.Reachable rb (init rb : RbTrace ι).sys := Lts.Reach.refl
  refine h.invariant (I := fun s => RbSys.Reachable rb s.sys) hstart ?_
  intro s l s' hr _ hs
  obtain ⟨sys', hsys, rfl⟩ := Option.map_eq_some_iff.mp hs
  exact Lts.Reach.tail hr trivial hsys

/-- What each call keeps in its own steps: a property of the call and its record. -/
structure CallInv (n : ℕ) (P : RbThread → CallLog → Prop) : Prop where
  idle : ∀ log, P .idle log
  control : ∀ call acts log, P (.control call acts) log
  rbRead : ∀ rb len, 0 < len → P (.reading (rbRead len)) (.ofRead rb len)
  rbWrite : ∀ rb bytes, P (.writing (rbWrite bytes)) (.ofWrite rb bytes)
  read : ∀ {rb rb' : Ringbuf} {c c' : ReadCall} {log : CallLog} {timeout : Bool}, rb.Wf →
    rb.size = n → (∀ k, c.pc = .sized k → k ≤ rb.fillCnt) → P (.reading c) log →
    c.step rb timeout = some (rb', c') → P (.reading c') (log.read rb rb' c timeout)
  write : ∀ {rb rb' : Ringbuf} {c c' : WriteCall} {log : CallLog} {timeout : Bool}, rb.Wf →
    rb.size = n → P (.writing c) log → c.step rb timeout = some (rb', c') →
    P (.writing c') (log.write rb rb')

/-- **The induction over a run**: what each call keeps in its own steps holds of every thread. -/
theorem CallInv.holds {P : RbThread → CallLog → Prop} {Q : RbTrace ι → RbLabel ι → Prop}
    (hP : CallInv rb.size P) (hwf : rb.Wf) (hempty : rb.fillCnt = 0)
    (h : Lts.Reach step Q (init rb) s) (t : ι) : P (s.sys.thread t) (s.log t) := by
  suffices hall : ∀ t, P (s.sys.thread t) (s.log t) from hall t
  refine h.invariant_reach (I := fun s => ∀ t, P (s.sys.thread t) (s.log t)) (fun t => hP.idle _) ?_
  intro s l s' hr hall _ hs t
  obtain ⟨hh, f, hsim⟩ := (Reach.sys hr).sim hwf hempty
  have ht := hall t
  cases step_thread hh hs t with
  | stay hthread hlog =>
    rw [hthread, hlog]
    exact ht
  | idle hthread =>
    rw [hthread]
    exact hP.idle _
  | control call acts hthread =>
    rw [hthread]
    exact hP.control call acts _
  | rbRead len hlen hthread hlog =>
    rw [hthread, hlog]
    exact hP.rbRead _ len hlen
  | rbWrite bytes hthread hlog =>
    rw [hthread, hlog]
    exact hP.rbWrite _ bytes
  | read c c' timeout hfrom hstep hthread hlog =>
    rw [hfrom] at ht
    rw [hthread, hlog]
    exact hP.read hh.wf hsim.size (fun k hpc => (hh.sized hfrom hpc).2) ht hstep
  | write c c' timeout hfrom hstep hthread hlog =>
    rw [hfrom] at ht
    rw [hthread, hlog]
    exact hP.write hh.wf hsim.size ht hstep

end RbTrace

/-! ### Reported transfers -/

/-- The codes that the loops of `rb_read` and `rb_write` leave with. -/
def ExitCode (retVal : ℤ) : Prop := retVal ≤ 0 ∧ retVal ≠ RB_FAIL

/-- A call that is on its way out carries such a code, or has returned what it makes of one. -/
def ReadCall.Exits (c : ReadCall) : Prop :=
  match c.pc with
  | .err retVal | .clear retVal => ExitCode retVal
  | .ret v => ∃ retVal, ExitCode retVal ∧ v = c.result retVal
  | _ => True

/-- A call that is on its way out carries such a code, or has returned what it makes of one. -/
def WriteCall.Exits (c : WriteCall) : Prop :=
  match c.pc with
  | .err retVal => ExitCode retVal
  | .ret v => ∃ retVal, ExitCode retVal ∧ v = c.result retVal
  | _ => True

theorem ReadCall.Exits.step {rb rb' : Ringbuf} {c c' : ReadCall} {timeout : Bool} (h : c.Exits)
    (hs : c.step rb timeout = some (rb', c')) : c'.Exits := by
  have hexit : ∀ r, r = RB_DONE ∨ r = RB_ABORT ∨ r = RB_TIMEOUT ∨ r = RB_OK → ExitCode r := by
    rintro r (rfl | rfl | rfl | rfl) <;> exact ⟨by decide, by decide⟩
  unfold ReadCall.step at hs
  unfold ReadCall.Exits at h
  cases hpc : c.pc with
  | lock | block =>
    rw [hpc] at hs
    dsimp only at hs
    split_ifs at hs
    all_goals
      obtain ⟨-, rfl⟩ := Prod.mk.inj (Option.some.inj hs)
      first | exact hexit _ (by simp) | trivial
  | sized k =>
    rw [hpc] at hs
    have hc : (c.locked rb k).2 = c' := congrArg Prod.snd (Option.some.inj hs)
    rw [← hc]
    unfold ReadCall.locked
    split_ifs
    all_goals first | exact hexit _ (by simp) | trivial
  | release =>
    rw [hpc] at hs
    obtain ⟨-, rfl⟩ := Prod.mk.inj (Option.some.inj hs)
    trivial
  | err retVal =>
    rw [hpc] at h hs
    dsimp only at hs
    split_ifs at hs
    all_goals
      obtain ⟨-, rfl⟩ := Prod.mk.inj (Option.some.inj hs)
      exact h
  | clear retVal =>
    rw [hpc] at h hs
    obtain ⟨-, rfl⟩ := Prod.mk.inj (Option.some.inj hs)
    exact ⟨retVal, h, rfl⟩
  | ret v =>
    rw [hpc] at hs
    exact nomatch hs

theorem WriteCall.Exits.step {rb rb' : Ringbuf} {c c' : WriteCall} {timeout : Bool} (h : c.Exits)
    (hs : c.step rb timeout = some (rb', c')) : c'.Exits := by
  have hexit : ∀ r, r = RB_DONE ∨ r = RB_ABORT ∨ r = RB_TIMEOUT ∨ r = RB_OK → ExitCode r := by
    rintro r (rfl | rfl | rfl | rfl) <;> exact ⟨by decide, by decide⟩
  unfold WriteCall.step at hs
  unfold WriteCall.Exits at h
  cases hpc : c.pc with
  | lock =>
    rw [hpc] at hs
    dsimp only at hs
    split_ifs at hs
    · obtain ⟨-, rfl⟩ := Prod.mk.inj (Option.some.inj hs)
      exact hexit _ (by simp)
    · have hc : (c.locked rb).2 = c' := congrArg Prod.snd (Option.some.inj hs)
      rw [← hc]
      unfold WriteCall.locked
      dsimp only
      split_ifs
      all_goals first | exact hexit _ (by simp) | trivial
  | block =>
    rw [hpc] at hs
    dsimp only at hs
    split_ifs at hs
    all_goals
      obtain ⟨-, rfl⟩ := Prod.mk.inj (Option.some.inj hs)
      first | exact hexit _ (by simp) | trivial
  | release =>
    rw [hpc] at hs
    obtain ⟨-, rfl⟩ := Prod.mk.inj (Option.some.inj hs)
    trivial
  | err retVal =>
    rw [hpc] at h hs
    dsimp only at hs
    split_ifs at hs
    all_goals
      obtain ⟨-, rfl⟩ := Prod.mk.inj (Option.some.inj hs)
      exact ⟨retVal, h, rfl⟩
  | ret v =>
    rw [hpc] at hs
    exact nomatch hs

/-- What `total` and the exit code are merged to (the same in both functions). -/
theorem result_spec {total : ℕ} {retVal v : ℤ} (h : ExitCode retVal)
    (hv : v = if (if retVal = RB_FAIL ∨ retVal = RB_ABORT then retVal else (total : ℤ)) > 0 then
      (if retVal = RB_FAIL ∨ retVal = RB_ABORT then retVal else (total : ℤ)) else retVal) :
    (0 < v → (total : ℤ) = v) ∧ (v ≤ 0 → v ≠ RB_ABORT → total = 0) := by
  obtain ⟨hle, hfail⟩ := h
  by_cases habort : retVal = RB_ABORT
  · rw [if_pos (Or.inr habort), if_neg (by omega)] at hv
    exact ⟨fun hpos => by omega, fun _ hne => absurd (hv.trans habort) hne⟩
  · rw [if_neg (not_or.mpr ⟨hfail, habort⟩)] at hv
    split_ifs at hv with htotal
    · exact ⟨fun _ => hv.symm, fun hle => by omega⟩
    · exact ⟨fun hpos => by omega, fun _ _ => by omega⟩

/-- The counters of a call agree with what happened to the ring. -/
def Reported : RbThread → CallLog → Prop
  | .reading c, log => c.buf = log.moved ∧ c.total = log.moved.length ∧ c.Exits
  | .writing c, log => log.given = log.moved ++ c.buf ∧ c.total = log.moved.length ∧ c.Exits
  | _, _ => True

theorem reported (n : ℕ) : RbTrace.CallInv n Reported where
  idle _ := trivial
  control _ _ _ := trivial
  rbRead _ _ _ := ⟨rfl, rfl, trivial⟩
  rbWrite _ _ := ⟨rfl, rfl, trivial⟩
  read := by
    rintro rb rb' c c' log timeout hwf - hk ⟨hbuf, htotal, hexits⟩ hs
    obtain ⟨k, hle, -, -, hbuf', -, -, hfill, -, htotal', -⟩ := ReadCall.step_data hwf hk hs
    have hmoved : (log.read rb rb' c timeout).moved = log.moved ++ rb.contents.take k := by
      have hk' : rb.fillCnt - rb'.fillCnt = k := by omega
      rw [CallLog.read_moved, hk']
    refine ⟨?_, ?_, hexits.step hs⟩
    · rw [hmoved, hbuf', hbuf]
    · rw [hmoved, htotal', htotal, List.length_append,
        List.length_take_of_le (by rwa [hwf.length_contents])]
  write := by
    rintro rb rb' c c' log timeout hwf - ⟨hgiven, htotal, hexits⟩ hs
    obtain ⟨k, hle, -, -, hbuf, hcontents, -, -, -, htotal'⟩ := WriteCall.step_data hwf hs
    have hmoved : (log.write rb rb').moved = log.moved ++ c.buf.take k := by
      show log.moved ++ rb'.contents.drop rb.fillCnt = _
      rw [hcontents, ← hwf.length_contents, List.drop_left]
    refine ⟨?_, ?_, hexits.step hs⟩
    · show log.given = _
      rw [hmoved, hbuf, List.append_assoc, List.take_append_drop]
      exact hgiven
    · rw [hmoved, htotal', htotal, List.length_append, List.length_take_of_le hle]

/-- **Ring transfers are reported exactly**, up to a call that is aborted: a positive result is the
number of bytes that left the ring for `buf`, or came to it from `buf`, in the steps of the call,
and a call that returns no positive number and not `RB_ABORT` has moved nothing. -/
theorem transfers_reported {ι : Type} [DecidableEq ι] {blockSize nBlocks : ℤ} {allocated : Bool}
    {rb : Ringbuf} (hcreate : rbCreate blockSize nBlocks allocated = some rb) {s : RbTrace ι}
    (hs : RbTrace.Reachable rb s) (t : ι) (v : ℤ) :
    (∀ c, s.sys.thread t = .reading c → c.pc = .ret v →
      (0 < v → ((s.log t).moved.length : ℤ) = v ∧ c.buf = (s.log t).moved) ∧
      (v ≤ 0 → v ≠ RB_ABORT → (s.log t).moved = [])) ∧
    ∀ c, s.sys.thread t = .writing c → c.pc = .ret v →
      (0 < v → ((s.log t).moved.length : ℤ) = v ∧
        (s.log t).moved = (s.log t).given.take (s.log t).moved.length) ∧
      (v ≤ 0 → v ≠ RB_ABORT → (s.log t).moved = []) := by
  obtain ⟨hwf, hempty, -⟩ := rbCreate_spec hcreate
  have hreported := (reported rb.size).holds hwf hempty hs t
  constructor
  · intro c hth hpc
    rw [hth] at hreported
    obtain ⟨hbuf, htotal, hexits⟩ := hreported
    unfold ReadCall.Exits at hexits
    rw [hpc] at hexits
    obtain ⟨retVal, hexit, hv⟩ := hexits
    have hspec := result_spec hexit hv
    refine ⟨fun hpos => ⟨?_, hbuf⟩, fun hle hne => ?_⟩
    · rw [← htotal]
      exact hspec.1 hpos
    · rw [hspec.2 hle hne] at htotal
      exact List.eq_nil_of_length_eq_zero htotal.symm
  · intro c hth hpc
    rw [hth] at hreported
    obtain ⟨hgiven, htotal, hexits⟩ := hreported
    unfold WriteCall.Exits at hexits
    rw [hpc] at hexits
    obtain ⟨retVal, hexit, hv⟩ := hexits
    have hspec := result_spec hexit hv
    refine ⟨fun hpos => ⟨?_, ?_⟩, fun hle hne => ?_⟩
    · rw [← htotal]
      exact hspec.1 hpos
    · rw [hgiven, List.take_left]
    · rw [hspec.2 hle hne] at htotal
      exact List.eq_nil_of_length_eq_zero htotal.symm

/-- A reader that gets what it asked for, and a writer that finds room for half of it. -/
theorem transfers_reported_two :
    ∃ rb, rbCreate 4 1 true = some rb ∧
      ∃ s : RbTrace (Fin 2), RbTrace.Reachable rb s ∧ (s.log 0).moved = [1, 2, 3, 4] ∧
        (((s.log 0).moved.length : ℤ) = 4 ∧ (s.log 0).moved = [1, 2, 3, 4, 5, 6].take 4) ∧
        (((s.log 1).moved.length : ℤ) = 2 ∧ [1, 2] = (s.log 1).moved) := by
  obtain ⟨rb, hrb⟩ : ∃ rb, rbCreate 4 1 true = some rb := ⟨_, rfl⟩
  obtain ⟨s, hs⟩ : ∃ s, Lts.run RbTrace.step (fun _ _ => True) (RbTrace.init rb : RbTrace (Fin 2))
      [.write 0 [1, 2, 3, 4, 5, 6], .step 0 false, .step 0 false, .step 0 false, .step 0 true,
        .step 0 false, .read 1 2, .step 1 false, .step 1 false, .step 1 false, .step 1 false] =
      some s := by
    obtain rfl := Option.some.inj hrb
    exact ⟨_, rfl⟩
  have hr : RbTrace.Reachable rb s := Lts.Reach.of_run _ Lts.Reach.refl hs
  have hwrite := (transfers_reported hrb hr 0 4).2
  have hread := (transfers_reported hrb hr 1 2).1
  obtain rfl := Option.some.inj hrb
  obtain rfl := Option.some.inj hs
  exact ⟨_, rfl, _, hr, rfl, (hwrite _ rfl rfl).1 (by decide), (hread _ rfl rfl).1 (by decide)⟩

/-- A reader that is aborted after its first 4 bytes. -/
theorem abort_hides_transfer :
    ¬∀ (blockSize nBlocks : ℤ) (allocated : Bool) (rb : Ringbuf) (s : RbTrace (Fin 2)),
      rbCreate blockSize nBlocks allocated = some rb → RbTrace.Reachable rb s →
      ∀ t c v, s.sys.thread t = .reading c → c.pc = .ret v → v ≤ 0 → (s.log t).moved = [] := by
  intro hall
  obtain ⟨s, hs⟩ : ∃ s, Lts.run RbTrace.step (fun _ _ => True)
      (RbTrace.init (Ringbuf.empty 4) : RbTrace (Fin 2))
      [.write 0 [1, 2, 3, 4], .step 0 false, .step 0 false, .step 0 false,
        .read 1 8, .step 1 false, .step 1 false, .control 0 .abort, .step 0 false, .step 1 false,
        .step 1 false, .step 1 false, .step 1 false] = some s :=
    ⟨_, rfl⟩
  have hmoved := hall 4 1 true _ s rfl (Lts.Reach.of_run _ Lts.Reach.refl hs) 1
  obtain rfl := Option.some.inj hs
  exact nomatch hmoved _ RB_ABORT rfl rfl (by decide)

/-! ### Short reads -/

/-- The call is in its loop. -/
def ReadPc.Loops : ReadPc → Prop
  | .lock | .sized _ | .release | .block => True
  | _ => False

/-- The call is past the check of its latest iteration. -/
def ReadPc.Checked : ReadPc → Prop
  | .lock | .sized _ => False
  | _ => True

/-- A short read is cut down to a multiple of 4 while the writer is not done. -/
theorem rbReadSize_eq {rb : Ringbuf} (hdone : rb.isDoneWrite = false) (hfill : rb.fillCnt < 2 ^ 32)
    (n : ℕ) : rbReadSize rb n = if rb.fillCnt < n then rb.fillCnt / 4 * 4 else n := by
  unfold rbReadSize
  rw [land_word_mask hfill, hdone]
  simp

/-- What a reader that has not seen `is_done_write` keeps: it has taken a multiple of 4 or all it
wants, and past its check the ring held less than 4 bytes and less than it wanted. -/
structure Aligned (c : ReadCall) (log : CallLog) : Prop where
  split : c.total + c.bufLen = log.len
  wants : c.pc.Loops → 0 < c.bufLen
  sized : ∀ k, c.pc = .sized k → k ≤ c.bufLen ∧ (log.sawDone = false →
    ∃ fill, log.lastCheck = some ⟨fill, c.bufLen⟩ ∧
      (k = c.bufLen ∨ 4 ∣ k ∧ fill < c.bufLen ∧ (k = 0 → fill < 4)))
  aligned : log.sawDone = false → 4 ∣ c.total ∨ c.bufLen = 0
  short : log.sawDone = false → c.pc.Checked → c.bufLen ≠ 0 →
    ∀ check, log.lastCheck = some check → check.fill < 4 ∧ check.fill < check.want

/-- A step that only moves on in the code. -/
theorem Aligned.goto {c c' : ReadCall} {log log' : CallLog} (h : Aligned c log)
    (hc : c'.total = c.total ∧ c'.bufLen = c.bufLen)
    (hlog : log'.len = log.len ∧ log'.sawDone = log.sawDone ∧ log'.lastCheck = log.lastCheck)
    (hloops : c'.pc.Loops → c.pc.Loops) (hchecked : c'.pc.Checked → c.pc.Checked)
    (hsized : ∀ k, c'.pc ≠ .sized k) : Aligned c' log' := by
  obtain ⟨htotal, hlen⟩ := hc
  obtain ⟨hlog1, hlog2, hlog3⟩ := hlog
  refine ⟨?_, ?_, fun k hk => absurd hk (hsized k), ?_, ?_⟩
  · rw [htotal, hlen, hlog1]
    exact h.split
  · rw [hlen]
    exact fun hl => h.wants (hloops hl)
  · rw [htotal, hlen, hlog2]
    exact h.aligned
  · rw [hlen, hlog2, hlog3]
    exact fun hdone hpc => h.short hdone (hchecked hpc)

theorem Aligned.step {rb rb' : Ringbuf} {c c' : ReadCall} {log : CallLog} {timeout : Bool}
    (h : Aligned c log) (hfill : rb.fillCnt < 2 ^ 32) (hs : c.step rb timeout = some (rb', c')) :
    Aligned c' (log.read rb rb' c timeout) := by
  have ⟨hsplit, hwants, hsized, haligned, _⟩ := h
  unfold ReadCall.step at hs
  unfold CallLog.read
  -- the check of an iteration is made at `lock`, and the bytes are taken at `sized`
  cases hpc : c.pc with
  | lock =>
    have hpos : 0 < c.bufLen := hwants (by rw [hpc]; trivial)
    rw [hpc] at hs
    dsimp only at hs
    split_ifs at hs with ht
    · obtain ⟨-, rfl⟩ := Prod.mk.inj (Option.some.inj hs)
      simp only [ht, if_true]
      exact ⟨hsplit, nofun, nofun, haligned, nofun⟩
    · obtain ⟨-, rfl⟩ := Prod.mk.inj (Option.some.inj hs)
      simp only [ht]
      refine ⟨hsplit, fun _ => hpos, ?_, ?_, nofun⟩
      · rintro k ⟨⟩
        refine ⟨(rbReadSize_le rb c.bufLen).2, fun hdone => ⟨rb.fillCnt, rfl, ?_⟩⟩
        have hdone' : rb.isDoneWrite = false := (Bool.or_eq_false_iff.mp hdone).2
        rw [rbReadSize_eq hdone' hfill]
        split_ifs with hlt
        · exact Or.inr ⟨Nat.dvd_mul_left 4 _, hlt, fun h0 => by omega⟩
        · exact Or.inl rfl
      · exact fun hdone => haligned (Bool.or_eq_false_iff.mp hdone).1
  | sized k =>
    have hpos : 0 < c.bufLen := hwants (by rw [hpc]; trivial)
    obtain ⟨hle, hcheck⟩ := hsized k hpc
    rw [hpc] at hs
    have hc : (c.locked rb k).2 = c' := congrArg Prod.snd (Option.some.inj hs)
    rw [← hc]
    by_cases hk : k = 0
    · -- nothing was taken: what the check found is below 4 and below what is wanted
      have hfound : log.sawDone = false → ∀ check, log.lastCheck = some check →
          check.fill < 4 ∧ check.fill < check.want := by
        intro hdone check hlast
        obtain ⟨fill, hlast', hfill'⟩ := hcheck hdone
        obtain rfl := Option.some.inj (hlast.symm.trans hlast')
        rcases hfill' with hall | ⟨_, hlt, h4⟩
        · omega
        · exact ⟨h4 hk, hlt⟩
      unfold ReadCall.locked
      rw [if_pos hk]
      split_ifs
      all_goals
        refine ⟨hsplit, fun _ => hpos, nofun, haligned, fun hdone _ _ => hfound hdone⟩
    · unfold ReadCall.locked
      rw [if_neg hk]
      refine ⟨?_, ?_, ?_, ?_, ?_⟩
      · show c.total + k + (c.bufLen - k) = log.len
        omega
      · dsimp only
        split_ifs
        · nofun
        · intro _
          omega
      · intro n hn
        dsimp only at hn
        split_ifs at hn
      · intro hdone
        show 4 ∣ c.total + k ∨ c.bufLen - k = 0
        obtain ⟨fill, _, hall | ⟨hdvd, _⟩⟩ := hcheck hdone
        · exact Or.inr (by omega)
        · refine (haligned hdone).imp (fun h4 => (Nat.dvd_add_right h4).mpr hdvd) fun h0 => ?_
          omega
      · intro _ hchecked hleft
        dsimp only at hchecked hleft
        rw [if_neg hleft] at hchecked
        exact hchecked.elim
  | release | clear _ =>
    rw [hpc] at hs
    obtain ⟨-, rfl⟩ := Prod.mk.inj (Option.some.inj hs)
    exact h.goto ⟨rfl, rfl⟩ ⟨rfl, rfl, rfl⟩ (by simp [hpc, ReadPc.Loops])
      (by simp [hpc, ReadPc.Checked]) nofun
  | block | err _ =>
    rw [hpc] at hs
    dsimp only at hs
    split_ifs at hs
    all_goals
      obtain ⟨-, rfl⟩ := Prod.mk.inj (Option.some.inj hs)
      exact h.goto ⟨rfl, rfl⟩ ⟨rfl, rfl, rfl⟩ (by simp [hpc, ReadPc.Loops])
        (by simp [hpc, ReadPc.Checked]) nofun
  | ret _ =>
    rw [hpc] at hs
    exact nomatch hs

/-- A thread that reads is `Aligned`. -/
def ReadsAligned : RbThread → CallLog → Prop
  | .reading c, log => Aligned c log
  | _, _ => True

theorem readsAligned {n : ℕ} (hn : n < 2 ^ 32) : RbTrace.CallInv n ReadsAligned where
  idle _ := trivial
  control _ _ _ := trivial
  rbRead _ len hlen := by
    refine ⟨Nat.zero_add _, fun _ => hlen, nofun, fun _ => Or.inl (Nat.dvd_zero 4), ?_⟩
    exact fun _ hchecked => hchecked.elim
  rbWrite _ _ := trivial
  read hwf hsize _ h hs :=
    Aligned.step h (lt_of_le_of_lt (hwf.fillCnt_le.trans hsize.le) hn) hs
  write _ _ _ _ := trivial

/-- **A short read is a multiple of 4** unless the reader has seen `is_done_write`, and its last
check found less than 4 bytes, and less than what was still wanted. -/
theorem short_reads_aligned {ι : Type} [DecidableEq ι] {blockSize nBlocks : ℤ} {allocated : Bool}
    {rb : Ringbuf} (hcreate : rbCreate blockSize nBlocks allocated = some rb) {s : RbTrace ι}
    (hs : RbTrace.Reachable rb s) {t : ι} {c : ReadCall} {k : ℕ}
    (hth : s.sys.thread t = .reading c) (hret : c.pc = .ret k) (hpos : 0 < k)
    (hshort : k < (s.log t).len) (hdone : (s.log t).sawDone = false) :
    4 ∣ k ∧ ∀ check, (s.log t).lastCheck = some check →
      check.fill < 4 ∧ check.fill < check.want := by
  obtain ⟨hwf, hempty, -⟩ := rbCreate_spec hcreate
  have hsize : rb.size < 2 ^ 32 := rbCreate_size hcreate
  have hreported := (reported rb.size).holds hwf hempty hs t
  have haligned := (readsAligned hsize).holds hwf hempty hs t
  rw [hth] at hreported haligned
  obtain ⟨-, -, hexits⟩ := hreported
  obtain ⟨hsplit, -, -, h4, hcheck⟩ := haligned
  unfold ReadCall.Exits at hexits
  rw [hret] at hexits
  obtain ⟨retVal, hexit, hv⟩ := hexits
  have htotal : c.total = k := by
    have hspec := (result_spec hexit hv).1 (by omega)
    omega
  have hleft : c.bufLen ≠ 0 := by omega
  refine ⟨?_, hcheck hdone ?_ hleft⟩
  · rw [← htotal]
    exact (h4 hdone).resolve_right hleft
  · rw [hret]
    trivial

/-- A writer puts in 6 bytes; a reader that wants 8 takes 4 of them and times out. -/
theorem short_reads_aligned_six :
    ∃ s : RbTrace (Fin 2), RbTrace.Reachable (Ringbuf.empty 8) s ∧
      (s.log 1).lastCheck = some ⟨2, 4⟩ ∧ 4 ∣ 4 ∧ ∀ check, (s.log 1).lastCheck = some check →
        check.fill < 4 ∧ check.fill < check.want := by
  obtain ⟨s, hs⟩ : ∃ s, Lts.run RbTrace.step (fun _ _ => True)
      (RbTrace.init (Ringbuf.empty 8) : RbTrace (Fin 2))
      [.write 0 [1, 2, 3, 4, 5, 6], .step 0 false, .read 1 8, .step 1 false, .step 1 false,
        .step 1 false, .step 1 false, .step 1 false, .step 1 true, .step 1 false, .step 1 false] =
      some s :=
    ⟨_, rfl⟩
  have hr : RbTrace.Reachable (Ringbuf.empty 8) s := Lts.Reach.of_run _ Lts.Reach.refl hs
  have hcreate : rbCreate 8 1 true = some (Ringbuf.empty 8) := rfl
  have hshort := fun c => short_reads_aligned (t := 1) (c := c) (k := 4) hcreate hr
  obtain rfl := Option.some.inj hs
  exact ⟨_, hr, rfl, hshort _ rfl rfl (by decide) (by decide) rfl⟩

end AudioPipeline
