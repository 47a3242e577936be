import AudioPipeline.Ringbuf.Basic
import Mathlib.Tactic.IntervalCases

/-!
# What the moves of the ring buffer do to its contents

`Ringbuf.Wf` is the shape every ring keeps: the pointers stay in `[p_o, p_o + size]` (the end is a
legal resting place, since the wrap tests are strict) and `p_w` is `fill_cnt` places after `p_r`,
going round.  Under it

* `contents_rbReadMove`: taking `k ≤ fill_cnt` bytes returns the first `k` of the contents and
  leaves the others;
* `contents_rbWriteMove`: writing `bytes` that fit appends them to the contents.

Both keep the shape (`Wf.rbReadMove`, `Wf.rbWriteMove`).
-/

namespace AudioPipeline

open Circular

/-- The shape of a ring.  `turn` is `p_w ≡ p_r + fill_cnt` modulo the size, spelled out. -/
structure Ringbuf.Wf (rb : Ringbuf) : Prop where
  mem_length : rb.mem.length = rb.size
  pR_le : rb.pR ≤ rb.size
  pW_le : rb.pW ≤ rb.size
  fillCnt_le : rb.fillCnt ≤ rb.size
  turn : rb.pR + rb.fillCnt = rb.pW ∨ rb.pR + rb.fillCnt = rb.pW + rb.size ∨
    rb.pR + rb.fillCnt = rb.pW + 2 * rb.size

/-- The capacity of a ring that `rb_create` built, and the state it is built in. -/
theorem rbCreate_spec {blockSize nBlocks : ℤ} {allocated : Bool} {rb : Ringbuf}
    (h : rbCreate blockSize nBlocks allocated = some rb) :
    rb.Wf ∧ rb.fillCnt = 0 ∧ (rb.size : ℤ) = blockSize * nBlocks ∧
      rb.isDoneWrite = false ∧ rb.abortRead = false ∧ rb.abortWrite = false := by
  unfold rbCreate at h
  split_ifs at h with h1 h2
  simp only [not_or, not_lt] at h2
  obtain rfl := Option.some.inj h
  have hprod : 0 ≤ blockSize * nBlocks := Int.mul_nonneg (by omega) (by omega)
  exact ⟨⟨List.length_replicate, Nat.zero_le _, Nat.zero_le _, Nat.zero_le _, Or.inl rfl⟩,
    rfl, Int.toNat_of_nonneg hprod, rfl, rfl, rfl⟩

/-- `size` is an `int`. -/
theorem rbCreate_size {blockSize nBlocks : ℤ} {allocated : Bool} {rb : Ringbuf}
    (h : rbCreate blockSize nBlocks allocated = some rb) : rb.size < 2 ^ 32 := by
  have hsize := (rbCreate_spec h).2.2.1
  unfold rbCreate at h
  split_ifs at h with h1 h2
  simp only [not_or, not_lt, INT_MAX] at h2
  omega

/-- The masked length is the largest multiple of 4 below it. -/
theorem land_word_mask {n : ℕ} (hn : n < 2 ^ 32) : n &&& 0xfffffffc = n / 4 * 4 := by
  apply Nat.eq_of_testBit_eq
  intro i
  have hshift : n / 4 * 4 = (n >>> 2) <<< 2 := by
    rw [Nat.shiftRight_eq_div_pow, Nat.shiftLeft_eq]
  rw [hshift, Nat.testBit_and, Nat.testBit_shiftLeft, Nat.testBit_shiftRight]
  rcases Nat.lt_or_ge i 32 with hi | hi
  · have hmask : Nat.testBit 0xfffffffc i = decide (2 ≤ i) := by
      interval_cases i <;> decide
    rw [hmask]
    by_cases h2 : 2 ≤ i
    · rw [show 2 + (i - 2) = i by omega]
      simp [h2]
    · simp [h2]
  · have hbit : n.testBit i = false :=
      Nat.testBit_lt_two_pow (Nat.lt_of_lt_of_le hn (Nat.pow_le_pow_right (by omega) hi))
    rw [show 2 + (i - 2) = i by omega, hbit]
    simp

/-- A read takes no more than there is and no more than it asked for. -/
theorem rbReadSize_le (rb : Ringbuf) (n : ℕ) :
    rbReadSize rb n ≤ rb.fillCnt ∧ rbReadSize rb n ≤ n := by
  have hand : rb.fillCnt &&& 0xfffffffc ≤ rb.fillCnt := Nat.and_le_left
  unfold rbReadSize
  dsimp only
  split_ifs <;> omega

/-- A write puts in no more than fits and no more than it has. -/
theorem rbWriteSize_le (rb : Ringbuf) (n : ℕ) :
    rbWriteSize rb n ≤ rb.size - rb.fillCnt ∧ rbWriteSize rb n ≤ n := by
  unfold rbWriteSize rbBytesAvailable
  split_ifs <;> omega

theorem rbWriteSize_eq_zero {rb : Ringbuf} {n : ℕ} (hn : 0 < n) :
    rbWriteSize rb n = 0 ↔ rb.size ≤ rb.fillCnt := by
  unfold rbWriteSize rbBytesAvailable
  split_ifs <;> omega

theorem Ringbuf.Wf.length_contents {rb : Ringbuf} (h : rb.Wf) :
    rb.contents.length = rb.fillCnt :=
  length_window (by rw [h.mem_length]; exact h.fillCnt_le)

theorem Ringbuf.Wf.rbReset (rb : Ringbuf) (h : rb.mem.length = rb.size) : (rbReset rb).Wf :=
  ⟨h, Nat.zero_le _, Nat.zero_le _, Nat.zero_le _, Or.inl rfl⟩

@[simp] theorem contents_rbReset (rb : Ringbuf) : (rbReset rb).contents = [] := window_zero _ _

/-- **A read takes from the front**: the copied bytes, and what is left. -/
theorem contents_rbReadMove {rb : Ringbuf} (h : rb.Wf) {k : ℕ} (hk : k ≤ rb.fillCnt) :
    (rbReadMove rb k).1 = rb.contents.take k ∧
      (rbReadMove rb k).2.contents = rb.contents.drop k := by
  have hlen := h.mem_length
  have hpR := h.pR_le
  have hfill := h.fillCnt_le
  have hk' : k ≤ rb.mem.length := by omega
  -- where the read pointer rests afterwards, and the bytes on the way there
  have hbytes : (rbReadMove rb k).1 = window rb.mem rb.pR k := by
    unfold rbReadMove
    split_ifs with hwrap
    · rw [window_eq_of_lt (by omega) hk' (by omega), hlen]
    · rw [window_eq_of_le (by omega)]
  have hsplit : rb.contents
      = window rb.mem rb.pR k ++ window rb.mem (rbReadMove rb k).2.pR (rb.fillCnt - k) := by
    apply window_split (by omega) (by omega) hk
    · unfold rbReadMove; split_ifs <;> dsimp only <;> omega
    · unfold rbReadMove; split_ifs <;> dsimp only <;> omega
  have hrest : (rbReadMove rb k).2.contents
      = window rb.mem (rbReadMove rb k).2.pR (rb.fillCnt - k) := by
    unfold rbReadMove Ringbuf.contents
    split_ifs <;> rfl
  rw [hbytes, hrest, hsplit]
  have hlk : (window rb.mem rb.pR k).length = k := length_window hk'
  exact ⟨(List.take_left' hlk).symm, (List.drop_left' hlk).symm⟩

/-- What a read leaves alone. -/
@[simp] theorem rbReadMove_frame (rb : Ringbuf) (k : ℕ) :
    (rbReadMove rb k).2.fillCnt = rb.fillCnt - k ∧ (rbReadMove rb k).2.size = rb.size ∧
      (rbReadMove rb k).2.isDoneWrite = rb.isDoneWrite ∧
      (rbReadMove rb k).2.abortRead = rb.abortRead ∧
      (rbReadMove rb k).2.abortWrite = rb.abortWrite ∧
      (rbReadMove rb k).2.unblockReaderFlag = rb.unblockReaderFlag ∧
      (rbReadMove rb k).2.canRead = rb.canRead ∧ (rbReadMove rb k).2.canWrite = rb.canWrite := by
  unfold rbReadMove
  split_ifs <;> simp

theorem Ringbuf.Wf.rbReadMove {rb : Ringbuf} (h : rb.Wf) {k : ℕ} (hk : k ≤ rb.fillCnt) :
    (rbReadMove rb k).2.Wf := by
  obtain ⟨hlen, hpR, hpW, hfill, hturn⟩ := h
  unfold AudioPipeline.rbReadMove
  split_ifs with hwrap <;> refine ⟨hlen, ?_, hpW, ?_, ?_⟩ <;> simp only <;> omega

/-- **A write appends at the back.** -/
theorem contents_rbWriteMove {rb : Ringbuf} (h : rb.Wf) {bytes : List UInt8}
    (hfit : rb.fillCnt + bytes.length ≤ rb.size) :
    (rbWriteMove rb bytes).contents = rb.contents ++ bytes := by
  have hlen := h.mem_length
  have hpR := h.pR_le
  have hpW := h.pW_le
  have hturn := h.turn
  unfold rbWriteMove Ringbuf.contents
  split_ifs with hwrap
  · simp only
    rw [← hlen]
    exact window_blit_wrap (by omega) (by omega) (by omega) (by omega) (by omega)
  · dsimp only
    exact window_blit (by omega) (by omega) (by omega) (by omega)

/-- What a write leaves alone. -/
@[simp] theorem rbWriteMove_frame (rb : Ringbuf) (bytes : List UInt8) :
    (rbWriteMove rb bytes).fillCnt = rb.fillCnt + bytes.length ∧
      (rbWriteMove rb bytes).size = rb.size ∧
      (rbWriteMove rb bytes).isDoneWrite = rb.isDoneWrite ∧
      (rbWriteMove rb bytes).abortRead = rb.abortRead ∧
      (rbWriteMove rb bytes).abortWrite = rb.abortWrite ∧
      (rbWriteMove rb bytes).unblockReaderFlag = rb.unblockReaderFlag ∧
      (rbWriteMove rb bytes).canRead = rb.canRead ∧
      (rbWriteMove rb bytes).canWrite = rb.canWrite := by
  unfold rbWriteMove
  split_ifs <;> simp

theorem Ringbuf.Wf.rbWriteMove {rb : Ringbuf} (h : rb.Wf) {bytes : List UInt8}
    (hfit : rb.fillCnt + bytes.length ≤ rb.size) : (rbWriteMove rb bytes).Wf := by
  obtain ⟨hlen, hpR, hpW, hfill, hturn⟩ := h
  unfold AudioPipeline.rbWriteMove
  split_ifs with hwrap
  · refine ⟨?_, hpR, ?_, ?_, ?_⟩ <;> simp only
    · have h1 : (bytes.take (rb.size - rb.pW)).length = rb.size - rb.pW := by
        rw [List.length_take]; omega
      have h2 : (bytes.drop (rb.size - rb.pW)).length = bytes.length - (rb.size - rb.pW) :=
        List.length_drop
      have h3 : (blit rb.mem rb.pW (bytes.take (rb.size - rb.pW))).length = rb.mem.length :=
        length_blit (by omega)
      rw [length_blit (by omega), h3, hlen]
    all_goals omega
  · refine ⟨?_, hpR, ?_, ?_, ?_⟩ <;> simp only
    · rw [length_blit (by omega), hlen]
    all_goals omega

/-- A ring keeps its shape and contents when only counts and flags change. -/
theorem Ringbuf.Wf.of_eq {rb rb' : Ringbuf} (h : rb.Wf) (hmem : rb'.mem = rb.mem)
    (hpR : rb'.pR = rb.pR) (hpW : rb'.pW = rb.pW) (hfill : rb'.fillCnt = rb.fillCnt)
    (hsize : rb'.size = rb.size) : rb'.Wf := by
  obtain ⟨h1, h2, h3, h4, h5⟩ := h
  constructor <;> simp only [hmem, hpR, hpW, hfill, hsize] <;> assumption

theorem RbAct.apply_frame (rb : Ringbuf) (a : RbAct) :
    (a.apply rb).mem = rb.mem ∧ (a.apply rb).pR = rb.pR ∧ (a.apply rb).pW = rb.pW ∧
      (a.apply rb).fillCnt = rb.fillCnt ∧ (a.apply rb).size = rb.size := by
  cases a <;> exact ⟨rfl, rfl, rfl, rfl, rfl⟩

theorem Ringbuf.Wf.act {rb : Ringbuf} (h : rb.Wf) (a : RbAct) : (a.apply rb).Wf := by
  obtain ⟨h1, h2, h3, h4, h5⟩ := RbAct.apply_frame rb a
  exact h.of_eq h1 h2 h3 h4 h5

@[simp] theorem contents_act (rb : Ringbuf) (a : RbAct) : (a.apply rb).contents = rb.contents := by
  cases a <;> rfl

/-- The bytes of a ring buffer and the places of its pointers are the same. -/
structure SameBytes (rb rb' : Ringbuf) : Prop where
  mem : rb'.mem = rb.mem
  pR : rb'.pR = rb.pR
  pW : rb'.pW = rb.pW
  fillCnt : rb'.fillCnt = rb.fillCnt
  size : rb'.size = rb.size

namespace SameBytes

variable {rb rb₁ rb' : Ringbuf}

theorem refl (rb : Ringbuf) : SameBytes rb rb := ⟨rfl, rfl, rfl, rfl, rfl⟩

theorem trans (h : SameBytes rb rb₁) (h' : SameBytes rb₁ rb') : SameBytes rb rb' :=
  ⟨h'.1.trans h.1, h'.2.trans h.2, h'.3.trans h.3, h'.4.trans h.4, h'.5.trans h.5⟩

theorem contents (h : SameBytes rb rb') : rb'.contents = rb.contents := by
  rw [Ringbuf.contents, Ringbuf.contents, h.mem, h.pR, h.fillCnt]

theorem abort (rb : Ringbuf) : SameBytes rb rb.abort := ⟨rfl, rfl, rfl, rfl, rfl⟩

theorem doneWrite (rb : Ringbuf) : SameBytes rb rb.doneWrite := ⟨rfl, rfl, rfl, rfl, rfl⟩

end SameBytes

end AudioPipeline
