import AudioPipeline.Ringbuf.Equiv.Moves

/-!
# What one step of `rb_read` and of `rb_write` does

`ReadCall.step_data` and `WriteCall.step_data` say everything a step does to the bytes: some
number `k` of them moves (none, outside the locked region), from the front of the contents to the
end of the caller's buffer or from the front of the caller's buffer to the end of the contents.
`ReadCall.step_flags` and `WriteCall.step_flags` say that neither call touches `is_done_write`,
`abort_read` or `abort_write`.
-/

namespace AudioPipeline

variable {rb rb' : Ringbuf} {timeout : Bool}

/-- The locked region of `rb_read`, whatever size was computed for it. -/
theorem ReadCall.locked_data (h : rb.Wf) {c : ReadCall} {k : ℕ} (hk : k ≤ rb.fillCnt) :
    (c.locked rb k).2.buf = c.buf ++ rb.contents.take k ∧
      (c.locked rb k).1.contents = rb.contents.drop k ∧ (c.locked rb k).1.Wf ∧
      (c.locked rb k).1.fillCnt = rb.fillCnt - k ∧ (c.locked rb k).1.size = rb.size ∧
      (c.locked rb k).2.total = c.total + k ∧ (c.locked rb k).2.bufLen = c.bufLen - k := by
  unfold ReadCall.locked
  by_cases h0 : k = 0
  · rw [if_pos h0, h0]
    split_ifs <;> simp [h]
  · rw [if_neg h0]
    obtain ⟨h1, h2⟩ := contents_rbReadMove h hk
    refine ⟨?_, h2, h.rbReadMove hk, ?_, ?_, rfl, rfl⟩
    · rw [← h1]
    · simp
    · simp

/-- **One step of `rb_read`**: `k` bytes go from the front of the ring to the caller. -/
theorem ReadCall.step_data (h : rb.Wf) {c c' : ReadCall}
    (hk : ∀ k, c.pc = .sized k → k ≤ rb.fillCnt) (hs : c.step rb timeout = some (rb', c')) :
    ∃ k, k ≤ rb.fillCnt ∧ ((∀ n, c.pc ≠ .sized n) → k = 0) ∧ (∀ n, c.pc = .sized n → k = n) ∧
      c'.buf = c.buf ++ rb.contents.take k ∧ rb'.contents = rb.contents.drop k ∧ rb'.Wf ∧
      rb'.fillCnt = rb.fillCnt - k ∧ rb'.size = rb.size ∧ c'.total = c.total + k ∧
      c'.bufLen = c.bufLen - k := by
  unfold ReadCall.step at hs
  cases hpc : c.pc with
  | sized k =>
    rw [hpc] at hs
    obtain ⟨rfl, rfl⟩ := Prod.mk.inj (Option.some.inj hs)
    obtain ⟨h1, h2, h3, h4, h5, h6, h7⟩ := ReadCall.locked_data (c := c) h (hk k hpc)
    exact ⟨k, hk k hpc, fun hn => absurd rfl (hn k), fun n hn => by injection hn,
      h1, h2, h3, h4, h5, h6, h7⟩
  | lock | block | err _ =>
    rw [hpc] at hs
    dsimp only at hs
    split_ifs at hs
    all_goals
      obtain ⟨rfl, rfl⟩ := Prod.mk.inj (Option.some.inj hs)
      refine ⟨0, Nat.zero_le _, fun _ => rfl, fun n hn => by simp at hn, ?_⟩
      simp [h, Ringbuf.contents, RbAct.apply]
    all_goals exact h.of_eq rfl rfl rfl rfl rfl
  | release | clear _ =>
    rw [hpc] at hs
    obtain ⟨rfl, rfl⟩ := Prod.mk.inj (Option.some.inj hs)
    refine ⟨0, Nat.zero_le _, fun _ => rfl, fun n hn => by simp at hn, ?_⟩
    simp [Ringbuf.contents, RbAct.apply]
    exact h.of_eq rfl rfl rfl rfl rfl
  | ret _ =>
    rw [hpc] at hs
    simp at hs

/-- The size a locked reader holds was computed on the ring as it is. -/
theorem ReadCall.step_sized {c c' : ReadCall} (hs : c.step rb timeout = some (rb', c')) {k : ℕ}
    (hpc : c'.pc = .sized k) :
    c.pc = .lock ∧ timeout = false ∧ rb' = rb ∧ k = rbReadSize rb c.bufLen := by
  unfold ReadCall.step at hs
  split at hs
  · rename_i hlock
    split_ifs at hs with ht <;> obtain ⟨rfl, rfl⟩ := Prod.mk.inj (Option.some.inj hs)
    · simp at hpc
    · simp only [ReadPc.sized.injEq] at hpc
      exact ⟨hlock, by simpa using ht, rfl, hpc.symm⟩
  · simp only [ReadCall.locked] at hs
    split_ifs at hs <;> obtain ⟨rfl, rfl⟩ := Prod.mk.inj (Option.some.inj hs) <;>
      simp only [reduceCtorEq] at hpc
  · obtain ⟨rfl, rfl⟩ := Prod.mk.inj (Option.some.inj hs)
    simp at hpc
  · split_ifs at hs <;> obtain ⟨rfl, rfl⟩ := Prod.mk.inj (Option.some.inj hs) <;> simp at hpc
  · split_ifs at hs <;> obtain ⟨rfl, rfl⟩ := Prod.mk.inj (Option.some.inj hs) <;> simp at hpc
  · obtain ⟨rfl, rfl⟩ := Prod.mk.inj (Option.some.inj hs)
    simp at hpc
  · simp at hs

/-- `rb_read` leaves the done and abort flags alone. -/
theorem ReadCall.step_flags {c c' : ReadCall} (hs : c.step rb timeout = some (rb', c')) :
    rb'.isDoneWrite = rb.isDoneWrite ∧ rb'.abortRead = rb.abortRead ∧
      rb'.abortWrite = rb.abortWrite := by
  unfold ReadCall.step at hs
  split at hs <;> (try simp only [ReadCall.locked] at hs) <;> (try split_ifs at hs) <;>
    simp only [Option.some.injEq, Prod.mk.injEq, reduceCtorEq] at hs <;>
    obtain ⟨rfl, rfl⟩ := hs <;> simp [RbAct.apply]

/-- The locked region of `rb_write`. -/
theorem WriteCall.locked_data (h : rb.Wf) (c : WriteCall) :
    (c.locked rb).2.buf = c.buf.drop (rbWriteSize rb c.buf.length) ∧
      (c.locked rb).1.contents = rb.contents ++ c.buf.take (rbWriteSize rb c.buf.length) ∧
      (c.locked rb).1.Wf ∧
      (c.locked rb).1.fillCnt = rb.fillCnt + rbWriteSize rb c.buf.length ∧
      (c.locked rb).1.size = rb.size ∧
      (c.locked rb).2.total = c.total + rbWriteSize rb c.buf.length := by
  obtain ⟨hfit, hle⟩ := rbWriteSize_le rb c.buf.length
  have hfill := h.fillCnt_le
  unfold WriteCall.locked
  dsimp only
  by_cases h0 : rbWriteSize rb c.buf.length = 0
  · rw [if_pos h0, h0]
    split_ifs <;> simp [h]
  · rw [if_neg h0]
    have hlen : (c.buf.take (rbWriteSize rb c.buf.length)).length
        = rbWriteSize rb c.buf.length := by
      rw [List.length_take]; omega
    refine ⟨rfl, contents_rbWriteMove h (by omega), h.rbWriteMove (by omega), ?_, ?_, rfl⟩
    · simp [hlen]
    · simp

/-- **One step of `rb_write`**: `k` bytes go from the caller to the back of the ring. -/
theorem WriteCall.step_data (h : rb.Wf) {c c' : WriteCall}
    (hs : c.step rb timeout = some (rb', c')) :
    ∃ k, k ≤ c.buf.length ∧ rb.fillCnt + k ≤ rb.size ∧ ((c.pc ≠ .lock ∨ timeout) → k = 0) ∧
      c'.buf = c.buf.drop k ∧ rb'.contents = rb.contents ++ c.buf.take k ∧ rb'.Wf ∧
      rb'.fillCnt = rb.fillCnt + k ∧ rb'.size = rb.size ∧ c'.total = c.total + k := by
  have hfill := h.fillCnt_le
  unfold WriteCall.step at hs
  cases hpc : c.pc with
  | lock =>
    rw [hpc] at hs
    dsimp only at hs
    split_ifs at hs with ht <;> obtain ⟨rfl, rfl⟩ := Prod.mk.inj (Option.some.inj hs)
    · exact ⟨0, Nat.zero_le _, by omega, fun _ => rfl, by simp [h]⟩
    · obtain ⟨hfit, hle⟩ := rbWriteSize_le rb c.buf.length
      obtain ⟨h1, h2, h3, h4, h5, h6⟩ := WriteCall.locked_data h c
      exact ⟨rbWriteSize rb c.buf.length, hle, by omega, by simp [ht], h1, h2, h3, h4, h5, h6⟩
  | block | err _ =>
    rw [hpc] at hs
    dsimp only at hs
    split_ifs at hs
    all_goals
      obtain ⟨rfl, rfl⟩ := Prod.mk.inj (Option.some.inj hs)
      refine ⟨0, Nat.zero_le _, by omega, fun _ => rfl, ?_⟩
      simp [h, Ringbuf.contents, RbAct.apply]
    all_goals exact h.of_eq rfl rfl rfl rfl rfl
  | release =>
    rw [hpc] at hs
    obtain ⟨rfl, rfl⟩ := Prod.mk.inj (Option.some.inj hs)
    refine ⟨0, Nat.zero_le _, by omega, fun _ => rfl, ?_⟩
    simp [Ringbuf.contents, RbAct.apply]
    exact h.of_eq rfl rfl rfl rfl rfl
  | ret _ =>
    rw [hpc] at hs
    simp at hs

/-- `rb_write` leaves the flags alone. -/
theorem WriteCall.step_flags {c c' : WriteCall} (hs : c.step rb timeout = some (rb', c')) :
    rb'.isDoneWrite = rb.isDoneWrite ∧ rb'.abortRead = rb.abortRead ∧
      rb'.abortWrite = rb.abortWrite ∧ rb'.unblockReaderFlag = rb.unblockReaderFlag := by
  unfold WriteCall.step at hs
  split at hs <;> (try simp only [WriteCall.locked] at hs) <;> (try split_ifs at hs) <;>
    simp only [Option.some.injEq, Prod.mk.injEq, reduceCtorEq] at hs <;>
    obtain ⟨rfl, rfl⟩ := hs <;> simp [RbAct.apply]

/-- An `rb_read` that looks at the ring leaves its loop. -/
def Ringbuf.Wakes (rb : Ringbuf) : Prop :=
  ∀ c : ReadCall, c.pc = .lock → 0 < c.bufLen → ∃ c₁ retVal,
    c.step rb false = some (rb, c₁) ∧ c₁.step rb false = some (rb, { c₁ with pc := .err retVal }) ∧
      (retVal = RB_DONE ∨ retVal = RB_ABORT)

theorem Ringbuf.Marked.wakes {rb : Ringbuf} (h : rb.Marked) (hempty : rb.fillCnt = 0) :
    rb.Wakes := by
  intro c hpc hpos
  have hsize : rbReadSize rb c.bufLen = 0 := by
    have hle := (rbReadSize_le rb c.bufLen).1
    omega
  have hlock : c.step rb false = some (rb, { c with pc := .sized 0 }) := by
    rw [ReadCall.step, hpc]
    dsimp only
    rw [if_neg Bool.false_ne_true, hsize]
  refine ⟨{ c with pc := .sized 0 }, ?_⟩
  show ∃ retVal, _ ∧ some (ReadCall.locked rb { c with pc := .sized 0 } 0) = _ ∧ _
  unfold ReadCall.locked
  rw [if_pos rfl]
  by_cases hdone : rb.isDoneWrite = true
  · rw [if_pos hdone]
    exact ⟨RB_DONE, hlock, rfl, Or.inl rfl⟩
  · rw [if_neg hdone, if_pos (h.resolve_left hdone)]
    exact ⟨RB_ABORT, hlock, rfl, Or.inr rfl⟩

end AudioPipeline
