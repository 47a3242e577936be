import AudioPipeline.Ringbuf.Equiv.Results
import AudioPipeline.Stream.Copy

/-!
## What a copy stage loses

* `copy_stage_copies`: a stage passes on what it obtains, as long as no `rb_write` of it gives up
  after a part of its block.
-/

namespace AudioPipeline

/-! ### `rb_write` that does not cut its block -/

/-- This step makes `rb_write` give up after a part of the block: a timeout, or a full ring that is
done. -/
def WriteCall.Cuts (rb : Ringbuf) (c : WriteCall) (timeout : Bool) : Prop :=
  0 < c.total ∧
    ((c.pc = .lock ∨ c.pc = .block) ∧ timeout = true ∨
      c.pc = .lock ∧ timeout = false ∧ rbBytesAvailable rb = 0 ∧ rb.isDoneWrite = true)

instance (rb : Ringbuf) (c : WriteCall) (timeout : Bool) : Decidable (c.Cuts rb timeout) :=
  inferInstanceAs (Decidable (_ ∧ (_ ∨ _)))

/-- A call that will return a positive number has written the whole block. -/
def WriteCall.Whole (c : WriteCall) : Prop :=
  match c.pc with
  | .err retVal => 0 < c.total → c.buf = [] ∨ retVal = RB_ABORT
  | .ret v => 0 < v → c.buf = []
  | _ => True

/-- The locked region: a full ring that is done is one of the cuts. -/
theorem WriteCall.locked_whole {rb : Ringbuf} {c : WriteCall} {timeout : Bool} (hpc : c.pc = .lock)
    (htimeout : ¬timeout = true) (hcuts : ¬c.Cuts rb timeout) : (c.locked rb).2.Whole := by
  unfold WriteCall.locked
  dsimp only
  split_ifs with hsize hdone habort hlast
  · intro hpos
    refine Or.inl
      (by_contra fun hne => hcuts ⟨hpos, Or.inr ⟨hpc, by simpa using htimeout, ?_, hdone⟩⟩)
    have hfull := (rbWriteSize_eq_zero (List.length_pos_iff.mpr hne)).mp hsize
    exact Nat.sub_eq_zero_of_le hfull
  · exact fun _ => Or.inr rfl
  · trivial
  · exact fun _ => Or.inl (List.drop_eq_nil_of_le (by omega))
  · trivial

theorem WriteCall.Whole.step {rb rb' : Ringbuf} {c c' : WriteCall} {timeout : Bool} (h : c.Whole)
    (hexits : c.Exits) (hcuts : ¬c.Cuts rb timeout) (hs : c.step rb timeout = some (rb', c')) :
    c'.Whole := by
  unfold WriteCall.step at hs
  unfold WriteCall.Whole at h
  unfold WriteCall.Exits at hexits
  cases hpc : c.pc with
  | lock =>
    rw [hpc] at hs
    dsimp only at hs
    split_ifs at hs with htimeout
    · -- the lock is not taken in time
      obtain ⟨-, rfl⟩ := Prod.mk.inj (Option.some.inj hs)
      exact fun hpos => absurd ⟨hpos, Or.inl ⟨Or.inl hpc, htimeout⟩⟩ hcuts
    · have hc : (c.locked rb).2 = c' := congrArg Prod.snd (Option.some.inj hs)
      rw [← hc]
      exact locked_whole hpc htimeout hcuts
  | block =>
    rw [hpc] at hs
    dsimp only at hs
    split_ifs at hs with htimeout
    · obtain ⟨-, rfl⟩ := Prod.mk.inj (Option.some.inj hs)
      exact fun hpos => absurd ⟨hpos, Or.inl ⟨Or.inr hpc, htimeout⟩⟩ hcuts
    · obtain ⟨-, rfl⟩ := Prod.mk.inj (Option.some.inj hs)
      trivial
  | release =>
    rw [hpc] at hs
    obtain ⟨-, rfl⟩ := Prod.mk.inj (Option.some.inj hs)
    trivial
  | err retVal =>
    rw [hpc] at h hexits hs
    dsimp only at hs h hexits
    have hbuf : 0 < c.result retVal → c.buf = [] := by
      intro hpos
      have htotal : (c.total : ℤ) = c.result retVal := (result_spec hexits rfl).1 hpos
      refine (h (by omega)).resolve_right fun habort => ?_
      rw [habort, WriteCall.result, if_pos (Or.inr rfl)] at hpos
      exact absurd hpos (by decide)
    split_ifs at hs
    all_goals
      obtain ⟨-, rfl⟩ := Prod.mk.inj (Option.some.inj hs)
      exact hbuf
  | ret v =>
    rw [hpc] at hs
    exact nomatch hs

/-- A cut is what goes wrong: the rest of the block is left, and the call will return the positive
number of bytes that it has put in. -/
theorem WriteCall.Cuts.step {rb rb' : Ringbuf} {c c' : WriteCall} {timeout : Bool}
    (h : c.Cuts rb timeout) (hs : c.step rb timeout = some (rb', c')) :
    c'.buf = c.buf ∧ ∃ retVal, c'.pc = .err retVal ∧ c'.result retVal = c.total := by
  have hresult : ∀ retVal, retVal = RB_TIMEOUT ∨ retVal = RB_DONE →
      ({ c with pc := .err retVal } : WriteCall).result retVal = c.total := by
    intro retVal hr
    have hcode : ¬(retVal = RB_FAIL ∨ retVal = RB_ABORT) := by
      rcases hr with rfl | rfl <;> decide
    have hpos : (c.total : ℤ) > 0 := by
      have htotal := h.1
      omega
    unfold WriteCall.result
    rw [if_neg hcode]
    exact if_pos hpos
  unfold WriteCall.step at hs
  obtain ⟨-, ⟨hpc | hpc, rfl⟩ | ⟨hpc, rfl, hfull, hdone⟩⟩ := h
  · rw [hpc] at hs
    obtain ⟨-, rfl⟩ := Prod.mk.inj (Option.some.inj hs)
    exact ⟨rfl, RB_TIMEOUT, rfl, hresult RB_TIMEOUT (Or.inl rfl)⟩
  · rw [hpc] at hs
    obtain ⟨-, rfl⟩ := Prod.mk.inj (Option.some.inj hs)
    exact ⟨rfl, RB_TIMEOUT, rfl, hresult RB_TIMEOUT (Or.inl rfl)⟩
  · -- nothing fits into a ring that is full
    have hsize : rbWriteSize rb c.buf.length = 0 := by
      unfold rbWriteSize
      split_ifs <;> omega
    have hlocked : c.locked rb = (rb, { c with pc := .err RB_DONE }) := by
      unfold WriteCall.locked
      dsimp only
      rw [if_pos hsize, if_pos hdone]
    rw [hpc] at hs
    dsimp only at hs
    rw [if_neg Bool.false_ne_true, hlocked] at hs
    obtain ⟨-, rfl⟩ := Prod.mk.inj (Option.some.inj hs)
    exact ⟨rfl, RB_DONE, rfl, hresult RB_DONE (Or.inr rfl)⟩

/-! ### A stage -/

/-- A step that makes a write of `th` give up after a part of its block. -/
def RbThread.Cuts (rb : Ringbuf) (timeout : Bool) : RbThread → Prop
  | .writing c => c.Cuts rb timeout
  | _ => False

instance (rb : Ringbuf) (timeout : Bool) : (th : RbThread) → Decidable (th.Cuts rb timeout)
  | .writing c => inferInstanceAs (Decidable (c.Cuts rb timeout))
  | .idle | .reading _ | .control .. => isFalse id

namespace CopySys

variable {ι : Type} [DecidableEq ι] {stage : CopyStage} {w : ι} {s s' : CopySys ι}

/-- The step makes the stage's own write give up after a part of its block. -/
def CutsBlock (w : ι) (s : CopySys ι) : CopyLabel ι → Prop
  | .outputRing (.step t timeout) =>
    t = w ∧ (s.output.sys.thread w).Cuts s.output.sys.rb timeout
  | _ => False

instance (w : ι) (s : CopySys ι) : (l : CopyLabel ι) → Decidable (CutsBlock w s l)
  | .outputRing (.step t timeout) =>
    inferInstanceAs (Decidable (t = w ∧ (s.output.sys.thread w).Cuts s.output.sys.rb timeout))
  | .outputRing (.read ..) | .outputRing (.write ..) | .outputRing (.control ..)
  | .outputRing .reset => isFalse id
  | .call _ | .inputRing _ | .callback .. | .inputDone _ | .outputDone => isFalse id

/-- The stage has passed on what it has obtained. -/
structure Copies (s : CopySys ι) : Prop where
  /-- A block that did not get through as a whole is no success. -/
  blocks : ∀ call ∈ s.calls, call.put ≠ call.got → call.ret ≤ 0
  /-- As long as all calls succeed, what went in has come out. -/
  stream : (∀ call ∈ s.calls, 0 < call.ret) →
    s.calls.flatMap CopyCall.put = s.calls.flatMap CopyCall.got

/-- Both rings are in reachable states, a write that goes on is one of the whole block that was
obtained, and so was each one that has returned a positive number. -/
structure Inv (w : ι) (input : Option Ringbuf) (output : Ringbuf) (s : CopySys ι) : Prop where
  input : ∀ ring ∈ s.input, ∃ rb ∈ input, RbTrace.Reachable rb ring
  output : RbTrace.Reachable output s.output
  writing : ∀ got, s.pc = .output got → ∃ c, s.output.sys.thread w = .writing c ∧
    (s.output.log w).given = got ∧ c.Whole
  calls : ∀ call ∈ s.calls, call.put ≠ call.got → call.ret ≤ 0

variable {input : Option Ringbuf} {output : Ringbuf}

theorem Inv.init : Inv w input output (CopySys.init input output : CopySys ι) where
  input := by
    intro ring hring
    obtain ⟨rb, hrb, rfl⟩ := Option.map_eq_some_iff.mp hring
    exact ⟨rb, hrb, Lts.Reach.refl⟩
  output := Lts.Reach.refl
  writing := nofun
  calls := nofun

/-- The process callback returns, with the output ring in some later state. -/
theorem Inv.finish (h : Inv w input output s) {ring : RbTrace ι}
    (hring : RbTrace.Reachable output ring) {call : CopyCall}
    (hcall : call.put ≠ call.got → call.ret ≤ 0) :
    Inv w input output ({ s with output := ring }.finish call) where
  input := h.input
  output := hring
  writing := nofun
  calls := by
    intro call' hmem
    rcases List.mem_append.mp hmem with hmem | hmem
    · exact h.calls call' hmem
    · obtain rfl := List.mem_singleton.mp hmem
      exact hcall

/-- Something happens to the input ring. -/
theorem Inv.inputRing (h : Inv w input output s) {ring ring' : RbTrace ι} {l : RbLabel ι}
    (hring : s.input = some ring) (hs : ring.step l = some ring') :
    Inv w input output { s with input := some ring' } where
  input := by
    obtain ⟨rb, hrb, hreach⟩ := h.input ring hring
    intro r hr
    obtain rfl := Option.some.inj hr
    exact ⟨rb, hrb, hreach.tail trivial hs⟩
  output := h.output
  writing := h.writing
  calls := h.calls

/-- The input has been read: `block` holds what was obtained, if it is a success. -/
theorem Inv.afterInput (h : Inv w input output s) {got block : List UInt8} {rSize : ℤ}
    {stopping : Bool} (hblock : 0 < rSize → block.take rSize.toNat = got)
    (hs : s.afterInput stage w got block rSize stopping = some s') : Inv w input output s' := by
  unfold CopySys.afterInput at hs
  split_ifs at hs with hstopping hpos
  · obtain rfl := Option.some.inj hs
    exact h.finish h.output fun _ => show AEL_IO_ABORT ≤ 0 by decide
  · obtain ⟨ring, hring, rfl⟩ := Option.map_eq_some_iff.mp hs
    obtain ⟨hthread, hlog⟩ := RbTrace.step_rbWrite hring
    refine ⟨h.input, h.output.tail trivial hring, ?_, h.calls⟩
    intro got' hpc
    obtain rfl := CopyPc.output.inj hpc
    refine ⟨_, hthread, ?_, trivial⟩
    show (ring.log w).given = got
    rw [hlog]
    exact hblock hpos
  · obtain rfl := Option.some.inj hs
    exact h.finish h.output fun _ => not_lt.mp hpos

/-- `rb_read` returns: the buffer holds the bytes that left the ring. -/
theorem Inv.inputDone (h : Inv w input output s)
    (hin : ∀ rb ∈ input, rb.Wf ∧ rb.fillCnt = 0) {ring : RbTrace ι} (hring : s.input = some ring)
    {c : ReadCall} (hth : ring.sys.thread w = .reading c) {v : ℤ} (hpc : c.pc = .ret v)
    (hpos : 0 < v) : c.buf.take v.toNat = (ring.log w).moved := by
  obtain ⟨rb, hrb, hreach⟩ := h.input ring hring
  obtain ⟨hwf, hempty⟩ := hin rb hrb
  have hreported := (reported rb.size).holds hwf hempty hreach w
  rw [hth] at hreported
  obtain ⟨hbuf, htotal, hexits⟩ := hreported
  unfold ReadCall.Exits at hexits
  rw [hpc] at hexits
  obtain ⟨retVal, hexit, hv⟩ := hexits
  have hlen : (c.total : ℤ) = v := (result_spec hexit hv).1 hpos
  rw [hbuf]
  exact List.take_of_length_le (by omega)

/-- Something happens to the output ring: the stage's write stays one of the whole block. -/
theorem Inv.outputRing (h : Inv w input output s) (hwf : output.Wf) (hempty : output.fillCnt = 0)
    {l : RbLabel ι} (hadmits : admits w s.output l = true) (hcuts : ¬CutsBlock w s (.outputRing l))
    {ring : RbTrace ι} (hs : s.output.step l = some ring) :
    Inv w input output { s with output := ring } := by
  refine ⟨h.input, h.output.tail trivial hs, ?_, h.calls⟩
  intro got hpc
  obtain ⟨c, hth, hgiven, hwhole⟩ := h.writing got hpc
  have hh : s.output.sys.Held := ((RbTrace.Reach.sys h.output).sim hwf hempty).1
  by_cases hl : RbTrace.thread l = some w
  · cases l with
    | read t n | write t bytes | control t call =>
      -- the stage is in its write and makes no other call
      exact absurd (Option.some.inj hl) (of_decide_eq_true hadmits)
    | reset => exact nomatch hl
    | step t timeout =>
      obtain rfl : t = w := Option.some.inj hl
      have hexits : c.Exits := by
        have hreported := (reported output.size).holds hwf hempty h.output t
        rw [hth] at hreported
        exact hreported.2.2
      have hcuts' : ¬c.Cuts s.output.sys.rb timeout := by
        intro hc
        refine hcuts ⟨rfl, ?_⟩
        rw [hth]
        exact hc
      rcases RbTrace.step_writing hh hs hth with ⟨⟨v, hret⟩, -⟩ | ⟨c', hc, hthread, hlog⟩
      · -- a write that has returned is taken by `outputDone`
        simp [admits, returned, hth, hret] at hadmits
      · refine ⟨c', hthread, ?_, hwhole.step hexits hcuts' hc⟩
        show (ring.log t).given = got
        rw [hlog]
        exact hgiven
  · obtain ⟨hthread, hlog⟩ := RbTrace.step_other hh hs hl
    refine ⟨c, hthread.trans hth, ?_, hwhole⟩
    show (ring.log w).given = got
    rw [hlog]
    exact hgiven

/-- `rb_write` returns: a positive number means that the whole block went to the ring. -/
theorem Inv.outputDone (h : Inv w input output s) (hwf : output.Wf) (hempty : output.fillCnt = 0)
    {got : List UInt8} (hpc : s.pc = .output got) {c : WriteCall}
    (hth : s.output.sys.thread w = .writing c) {v : ℤ} (hret : c.pc = .ret v)
    (hne : (s.output.log w).moved ≠ got) : v ≤ 0 := by
  obtain ⟨c', hth', hgiven, hwhole⟩ := h.writing got hpc
  obtain rfl : c = c' := RbThread.writing.inj (hth.symm.trans hth')
  have hreported := (reported output.size).holds hwf hempty h.output w
  rw [hth] at hreported
  unfold WriteCall.Whole at hwhole
  rw [hret] at hwhole
  by_contra hpos
  have hbuf : c.buf = [] := hwhole (not_le.mp hpos)
  refine hne ?_
  rw [← hgiven, hreported.1, hbuf, List.append_nil]

/-- **Every step keeps it**, unless it cuts a block. -/
theorem Inv.step (h : Inv w input output s) (hwf : output.Wf) (hempty : output.fillCnt = 0)
    (hin : ∀ rb ∈ input, rb.Wf ∧ rb.fillCnt = 0) {l : CopyLabel ι} (hcuts : ¬CutsBlock w s l)
    (hs : s.step stage w l = some s') : Inv w input output s' := by
  -- by the part of the stage that moves: the callbacks, a ring, or the stage itself
  cases l with
  | call inLen =>
    simp only [CopySys.step] at hs
    split at hs
    · obtain rfl := Option.some.inj hs
      exact ⟨h.input, h.output, nofun, h.calls⟩
    next ring hpc hinput =>
      obtain ⟨ring', hring, rfl⟩ := Option.map_eq_some_iff.mp hs
      have h' := h.inputRing hinput hring
      exact ⟨h'.input, h'.output, nofun, h'.calls⟩
    next => exact nomatch hs
  | inputRing l =>
    simp only [CopySys.step] at hs
    split at hs
    next ring hinput =>
      split_ifs at hs
      obtain ⟨ring', hring, rfl⟩ := Option.map_eq_some_iff.mp hs
      exact h.inputRing hinput hring
    next => exact nomatch hs
  | outputRing l =>
    simp only [CopySys.step] at hs
    split_ifs at hs with hadmits
    obtain ⟨ring, hring, rfl⟩ := Option.map_eq_some_iff.mp hs
    exact h.outputRing hwf hempty hadmits hcuts hring
  | callback result stopping =>
    simp only [CopySys.step] at hs
    split at hs
    · cases result with
      | ok block =>
        refine h.afterInput (fun _ => ?_) hs
        rw [Int.toNat_natCast, List.take_length]
      | error code =>
        dsimp only at hs
        split_ifs at hs with hcode
        exact h.afterInput (fun hpos => absurd hcode (not_le.mpr hpos)) hs
    · exact nomatch hs
  | inputDone stopping =>
    simp only [CopySys.step] at hs
    split at hs
    next ring hpc hinput =>
      split at hs
      next c hth =>
        split at hs
        next v hret =>
          obtain ⟨ring', hring, hs⟩ := Option.bind_eq_some_iff.mp hs
          exact (h.inputRing hinput hring).afterInput (h.inputDone hin hinput hth hret) hs
        next => exact nomatch hs
      next => exact nomatch hs
    next => exact nomatch hs
  | outputDone =>
    simp only [CopySys.step] at hs
    split at hs
    next got hpc =>
      split at hs
      next c hth =>
        split at hs
        next v hret =>
          obtain ⟨ring, hring, rfl⟩ := Option.map_eq_some_iff.mp hs
          exact h.finish (h.output.tail trivial hring) (h.outputDone hwf hempty hpc hth hret)
        next => exact nomatch hs
      next => exact nomatch hs
    next => exact nomatch hs

/-- What `Inv` says of the calls is what the stage promises. -/
theorem Inv.copies (h : Inv w input output s) : s.Copies where
  blocks := h.calls
  stream := by
    intro hall
    refine List.flatMap_congr fun call hmem => ?_
    by_contra hne
    exact absurd (h.calls call hmem hne) (not_le.mpr (hall call hmem))

end CopySys

/-- **A copy stage never drops data** as long as no `rb_write` of it gives up after a part of its
block: whatever the input delivers and whatever the other threads do to the rings, a block that does
not get through as a whole is reported by a result `≤ 0`, and while the results are positive the
output has got exactly what the input has delivered. -/
theorem copy_stage_copies {ι : Type} [DecidableEq ι] (stage : CopyStage) (w : ι)
    {input : Option Ringbuf} {output : Ringbuf} {blockSize nBlocks : ℤ} {allocated : Bool}
    (hinput : ∀ rb ∈ input, ∃ blockSize nBlocks allocated,
      rbCreate blockSize nBlocks allocated = some rb)
    (houtput : rbCreate blockSize nBlocks allocated = some output) {s : CopySys ι}
    (hs : Lts.Reach (CopySys.step stage w) (fun s l => ¬CopySys.CutsBlock w s l)
      (CopySys.init input output) s) : s.Copies := by
  obtain ⟨hwf, hempty, -⟩ := rbCreate_spec houtput
  have hin : ∀ rb ∈ input, rb.Wf ∧ rb.fillCnt = 0 := by
    intro rb hrb
    obtain ⟨blockSize, nBlocks, allocated, hcreate⟩ := hinput rb hrb
    obtain ⟨hwf', hempty', -⟩ := rbCreate_spec hcreate
    exact ⟨hwf', hempty'⟩
  have hinv : CopySys.Inv w input output s := by
    refine hs.invariant CopySys.Inv.init ?_
    intro s l s' h hcuts hstep
    exact h.step hwf hempty hin hcuts hstep
  exact hinv.copies

/-- A block of 3 bytes, which the ring has room for. -/
theorem copy_stage_copies_three :
    ∃ s : CopySys (Fin 2), s.calls = [⟨[1, 2, 3], [1, 2, 3], 3⟩] ∧ s.Copies := by
  obtain ⟨s, hs⟩ : ∃ s, Lts.run (CopySys.step .fatfs 0) (fun s l => ¬CopySys.CutsBlock 0 s l)
      (CopySys.init none (Ringbuf.empty 8) : CopySys (Fin 2))
      [.call 16, .callback (.ok [1, 2, 3]) false, .outputRing (.step 0 false),
        .outputRing (.step 0 false), .outputDone] = some s :=
    ⟨_, rfl⟩
  have hcreate : rbCreate 4 2 true = some (Ringbuf.empty 8) := rfl
  have hcopies : s.Copies := by
    refine copy_stage_copies .fatfs 0 ?_ hcreate (Lts.Reach.of_run _ Lts.Reach.refl hs)
    intro rb hrb
    exact nomatch hrb
  obtain rfl := Option.some.inj hs
  exact ⟨_, rfl, hcopies⟩

/-- A block of 6 bytes, a ring of 4, and a reader that does not come in time. -/
theorem copy_stage_loses :
    ¬∀ (stage : CopyStage) (output : Ringbuf) (s : CopySys (Fin 2)),
      rbCreate 4 1 true = some output →
      Lts.Reach (CopySys.step stage 0) (fun _ _ => True) (CopySys.init none output) s →
      s.Copies := by
  intro hall
  obtain ⟨s, hs⟩ : ∃ s, Lts.run (CopySys.step .fatfs 0) (fun _ _ => True)
      (CopySys.init none (Ringbuf.empty 4) : CopySys (Fin 2))
      [.call 16, .callback (.ok [1, 2, 3, 4, 5, 6]) false, .outputRing (.step 0 false),
        .outputRing (.step 0 false), .outputRing (.step 0 false), .outputRing (.step 0 true),
        .outputRing (.step 0 false), .outputDone] = some s :=
    ⟨_, rfl⟩
  have hcopies := hall .fatfs _ s rfl (Lts.Reach.of_run _ Lts.Reach.refl hs)
  obtain rfl := Option.some.inj hs
  have hret : (4 : ℤ) ≤ 0 := hcopies.blocks ⟨[1, 2, 3, 4, 5, 6], [1, 2, 3, 4], 4⟩
    (List.mem_singleton.mpr rfl) (by decide)
  exact absurd hret (by decide)

end AudioPipeline
