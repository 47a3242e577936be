import AudioPipeline.Ringbuf.Equiv.Fifo

/-!
# When a reader and a writer can stall each other

`rb_read` cuts a short read down to a multiple of 4, so it takes nothing from a ring with fewer
than 4 bytes unless it asked for no more than those.  A ring of at least 4 bytes is full only with
4 bytes or more, and one side always moves.  `rb_create` also accepts rings of 2 and 3 bytes (and
of none, for `n_blocks = 0`), and those can be full with nothing that a long read takes:
`noStall_iff` says that 4 bytes is the exact bound.
-/

namespace AudioPipeline

variable {ι : Type} [DecidableEq ι] {blockSize nBlocks : ℤ} {allocated : Bool} {rb : Ringbuf}

/-- No reader and writer of the ring are ever both left with nothing to move while no flag is
set. -/
def NoStall (ι : Type) [DecidableEq ι] (rb : Ringbuf) : Prop :=
  ∀ s : RbSys ι, RbSys.Reachable rb s → s.rb.isDoneWrite = false → s.rb.abortRead = false →
    s.rb.abortWrite = false → s.rb.unblockReaderFlag = false →
      ∀ readLen writeLen, 1 ≤ readLen → 1 ≤ writeLen →
        ¬(rbReadSize s.rb readLen = 0 ∧ rbWriteSize s.rb writeLen = 0)

/-- A ring fits in an `int`, so masking its lengths to 32 bits loses nothing. -/
theorem rbCreate_size_lt (h : rbCreate blockSize nBlocks allocated = some rb) :
    rb.size < 2 ^ 31 := by
  have hsize := (rbCreate_spec h).2.2.1
  unfold rbCreate at h
  split_ifs at h with h1 h2
  simp only [not_or, not_lt, INT_MAX] at h2
  omega

/-- What a read leaves on a ring nobody is done with: nothing, or less than a word. -/
theorem rbReadSize_eq_zero {n : ℕ} (hfill : rb.fillCnt < 2 ^ 32) (hdone : rb.isDoneWrite = false)
    (hn : 1 ≤ n) : rbReadSize rb n = 0 ↔ rb.fillCnt < 4 ∧ rb.fillCnt < n := by
  unfold rbReadSize
  dsimp only
  rw [land_word_mask hfill, hdone]
  simp only [Bool.false_eq_true, and_false, if_false]
  split_ifs <;> omega

/-- On a ring of 4 bytes or more, a full ring has something for every reader. -/
theorem noStall_of_le (h : rbCreate blockSize nBlocks allocated = some rb) (h4 : 4 ≤ rb.size) :
    NoStall ι rb := by
  rintro s hs hdone - - - readLen writeLen hr hw ⟨hread, hwrite⟩
  obtain ⟨hsize, hle, -⟩ := rb_fifo h hs
  have hlt := rbCreate_size_lt h
  have hfull := (rbWriteSize_eq_zero hw).mp hwrite
  have hfew := (rbReadSize_eq_zero (by omega) hdone hr).mp hread
  omega

/-- A ring of fewer than 4 bytes that one thread has filled up. -/
theorem exists_full (h : rbCreate blockSize nBlocks allocated = some rb) (hpos : 0 < rb.size)
    (t : ι) : ∃ s : RbSys ι, RbSys.Reachable rb s ∧ s.rb.fillCnt = rb.size ∧
      s.rb.size = rb.size ∧ s.rb.isDoneWrite = false ∧ s.rb.abortRead = false ∧
      s.rb.abortWrite = false ∧ s.rb.unblockReaderFlag = rb.unblockReaderFlag := by
  obtain ⟨hwf, hempty, -, hdone, hread, hwrite⟩ := rbCreate_spec h
  set bytes : List UInt8 := List.replicate rb.size 0 with hbytes
  have hlen : bytes.length = rb.size := List.length_replicate
  -- the whole block goes in with the first locked iteration
  have hwsize : rbWriteSize rb bytes.length = rb.size := by
    unfold rbWriteSize rbBytesAvailable
    rw [hempty, hlen]
    simp
  set s₁ : RbSys ι := (RbSys.init rb).goto t (.writing (rbWrite bytes))
  have h₁ : RbSys.step (RbSys.init rb) (.write t bytes) = some s₁ := by
    simp only [RbSys.step]
    exact if_pos ⟨rfl, by omega⟩
  set p := (rbWrite bytes).locked rb with hp
  have h₂ : s₁.step (.step t false) = some { s₁.goto t (.writing p.2) with
      rb := p.1, copiedIn := s₁.copiedIn ++ bytes.take (bytes.length - p.2.buf.length) } := by
    simp only [RbSys.step, s₁, RbSys.goto_thread_self]
    rfl
  have hp1 : p.1 = rbWriteMove rb (bytes.take rb.size) := by
    rw [hp]
    unfold WriteCall.locked rbWrite
    dsimp only
    rw [hwsize, if_neg (by omega)]
  obtain ⟨f1, f2, f3, f4, f5, f6, -⟩ := rbWriteMove_frame rb (bytes.take rb.size)
  rw [← hp1] at f1 f2 f3 f4 f5 f6
  rw [hempty, List.length_take, hlen] at f1
  exact ⟨_, (Lts.Reach.refl.tail trivial h₁).tail trivial h₂, f1.trans (by omega), f2,
    f3.trans hdone, f4.trans hread, f5.trans hwrite, f6⟩

/-- **Four bytes is the exact bound**: a ring that `rb_create` built cannot stall its users if and
only if `block_size * n_blocks` is at least 4. -/
theorem noStall_iff [Nonempty ι] (h : rbCreate blockSize nBlocks allocated = some rb) :
    NoStall ι rb ↔ 4 ≤ blockSize * nBlocks := by
  obtain ⟨-, hempty, hsize, hdone, hread, hwrite⟩ := rbCreate_spec h
  have hunblock : rb.unblockReaderFlag = false := by
    unfold rbCreate at h
    split_ifs at h
    rw [← Option.some.inj h, Ringbuf.empty]
  constructor
  · intro hns
    by_contra hlt
    obtain ⟨t⟩ := ‹Nonempty ι›
    -- a reader of 4 bytes and a writer of 1 byte, on the ring filled up
    rcases Nat.eq_zero_or_pos rb.size with h0 | hpos
    · refine hns (RbSys.init rb) Lts.Reach.refl hdone hread hwrite hunblock 4 1 (by omega) le_rfl
        ⟨?_, ?_⟩
      · exact (@rbReadSize_eq_zero rb 4 (by omega) hdone (by omega)).mpr (by omega)
      · exact (@rbWriteSize_eq_zero rb 1 (by omega)).mpr (by omega)
    · obtain ⟨s, hs, hfill, hs', hd, hr, hw, hu⟩ := exists_full h hpos t
      refine hns s hs hd hr hw (hu.trans hunblock) 4 1 (by omega) le_rfl ⟨?_, ?_⟩
      · exact (rbReadSize_eq_zero (by omega) hd (by omega)).mpr (by omega)
      · exact (rbWriteSize_eq_zero (by omega)).mpr (by omega)
  · intro h4
    exact noStall_of_le h (by omega)

/-- The smallest ring that never stalls. -/
theorem noStall_four : ∃ rb, rbCreate 2 2 true = some rb ∧ NoStall (Fin 2) rb := by
  obtain ⟨rb, hrb⟩ : ∃ rb, rbCreate 2 2 true = some rb := ⟨_, rfl⟩
  exact ⟨rb, hrb, (noStall_iff hrb).mpr (by decide)⟩

/-- A ring of 2 bytes does stall. -/
theorem not_noStall_two :
    ¬∀ (blockSize nBlocks : ℤ) (allocated : Bool) (rb : Ringbuf), 2 ≤ blockSize →
      rbCreate blockSize nBlocks allocated = some rb → NoStall (Fin 2) rb := by
  intro h
  refine h 2 1 true _ le_rfl rfl
    ((Lts.run RbSys.step (fun _ _ => True) (RbSys.init _) [.write 0 [7, 8], .step 0 false]).get rfl)
    (Lts.Reach.of_run _ Lts.Reach.refl (Option.some_get _).symm) rfl rfl rfl rfl 4 1 (by decide)
    le_rfl ⟨by decide, by decide⟩

end AudioPipeline
