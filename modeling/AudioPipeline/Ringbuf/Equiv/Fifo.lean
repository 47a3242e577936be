import AudioPipeline.Lib.Flow
import AudioPipeline.Ringbuf.Equiv.Threads
import Mathlib.Data.Nat.ModEq

/-!
# The ring buffer is a first-in first-out queue

The shared ring simulates a `QueueFlow` of the same capacity: what was copied in is what the flow
was given, what was copied out is what it gave back, and the contents of the ring are what it holds
(`RbSys.Sim`).  A locked iteration of `rb_read` is a `QueueFlow.pop`, one of `rb_write` a
`QueueFlow.push`, `rb_reset` starts a new flow, and everything else is invisible (`Sim.step`).  So
the bytes of a ring are conserved over every run, whoever uses it (`rb_fifo`).
-/

namespace AudioPipeline

namespace RbSys

variable {ι : Type} [DecidableEq ι] {s s' : RbSys ι} {cap : ℕ} {f : QueueFlow UInt8 cap}

/-- The ring and its threads, seen as the queue `f`. -/
structure Sim (s : RbSys ι) (f : QueueFlow UInt8 cap) : Prop where
  size : s.rb.size = cap
  held : f.held = s.rb.contents
  written : f.written = s.copiedIn
  taken : f.taken = s.copiedOut

omit [DecidableEq ι] in
theorem Sim.init {rb : Ringbuf} (h : rb.fillCnt = 0) :
    (RbSys.init rb : RbSys ι).Sim (QueueFlow.empty : QueueFlow UInt8 rb.size) :=
  ⟨rfl, by simp [RbSys.init, Ringbuf.contents, h, QueueFlow.empty], rfl, rfl⟩

/-- **Every step of the ring is a step of the queue.** -/
theorem Sim.step {l : RbLabel ι} (h : s.Sim f) (hh : s.Held) (hs : s.step l = some s') :
    ∃ f' : QueueFlow UInt8 cap, QueueFlow.Step f f' ∧ s'.Sim f' := by
  obtain ⟨hsize, hheld, hwritten, htaken⟩ := h
  cases l with
  | read t len | write t bytes | control t call =>
    simp only [RbSys.step] at hs
    split_ifs at hs
    obtain rfl := Option.some.inj hs
    -- a call that begins moves nothing
    exact ⟨f, .stutter f, hsize, hheld, hwritten, htaken⟩
  | reset =>
    simp only [RbSys.step] at hs
    split_ifs at hs
    obtain rfl := Option.some.inj hs
    exact ⟨QueueFlow.empty, .clear f, hsize, (contents_rbReset _).symm, rfl, rfl⟩
  | step t timeout =>
    simp only [RbSys.step] at hs
    cases hth : s.thread t with
    | idle =>
      rw [hth] at hs
      cases hs
    | reading c =>
      rw [hth] at hs
      have hk := fun k hpc => (hh.sized (k := k) hth hpc).2
      rcases stepRead_cases hh.wf hk hs with ⟨-, rfl⟩ | ⟨c', hc, -, hin, hout, -⟩
      · exact ⟨f, .stutter f, hsize, hheld, hwritten, htaken⟩
      · -- the bytes that a step of `rb_read` copies are taken off the front
        obtain ⟨k, -, -, -, hbuf, hcont, -, -, hsz, -⟩ := ReadCall.step_data hh.wf hk hc
        refine ⟨f.pop k, .pop f k, hsz.trans hsize, ?_, hwritten.trans hin.symm, ?_⟩
        · rw [QueueFlow.pop_held, hcont, hheld]
        · rw [QueueFlow.pop_taken, hout, hbuf, List.drop_left, htaken, hheld]
    | writing c =>
      rw [hth] at hs
      rcases stepWrite_cases hh.wf hs with ⟨-, rfl⟩ | ⟨c', hc, -, hout, hin, -⟩
      · exact ⟨f, .stutter f, hsize, hheld, hwritten, htaken⟩
      · -- those that a step of `rb_write` copies fit, as the ring is a queue of its size
        obtain ⟨k, hk, hfit, -, hbuf, hcont, -, -, hsz, -⟩ := WriteCall.step_data hh.wf hc
        have hlen : (c.buf.take k).length = k := List.length_take_of_le hk
        have hroom : f.held.length + (c.buf.take k).length ≤ cap := by
          rw [hheld, hh.wf.length_contents, hlen, ← hsize]
          exact hfit
        refine ⟨f.push _ hroom, .push f _ hroom, hsz.trans hsize, ?_, ?_, htaken.trans hout.symm⟩
        · rw [QueueFlow.push_held, hcont, hheld]
        · rw [QueueFlow.push_written, hin, hbuf, hwritten, List.length_drop]
          congr 2
          omega
    | control call acts =>
      rw [hth] at hs
      obtain rfl := Option.some.inj hs
      refine ⟨f, .stutter f, ?_⟩
      cases acts with
      | nil => exact ⟨hsize, hheld, hwritten, htaken⟩
      | cons a acts =>
        obtain ⟨-, -, -, -, hsz⟩ := RbAct.apply_frame s.rb a
        exact ⟨hsz.trans hsize, hheld.trans (contents_act _ a).symm, hwritten, htaken⟩

/-- Every reachable state of a ring is some state of the queue. -/
theorem Reachable.sim {rb : Ringbuf} (hwf : rb.Wf) (hempty : rb.fillCnt = 0)
    (h : Reachable rb s) : s.Held ∧ ∃ f : QueueFlow UInt8 rb.size, s.Sim f :=
  Lts.Reach.invariant (I := fun s => s.Held ∧ ∃ f : QueueFlow UInt8 rb.size, s.Sim f) h
    ⟨Held.init hwf, _, Sim.init hempty⟩
    fun _ _ _ ⟨hh, f, hf⟩ _ hs => by
      obtain ⟨f', -, hf'⟩ := hf.step hh hs
      exact ⟨hh.step hs, f', hf'⟩

end RbSys

/-- **The ring buffer is a queue over whole runs**: whatever threads call `rb_read`, `rb_write`, the
control functions and `rb_reset` in whatever order, the counters stay in range, `p_w` stays
`fill_cnt` bytes after `p_r` going round, and the bytes copied out, followed by the `fill_cnt` bytes
met from `p_r` on, are the bytes copied in. -/
theorem rb_fifo {ι : Type} [DecidableEq ι] {blockSize nBlocks : ℤ} {allocated : Bool}
    {rb : Ringbuf} {s : RbSys ι} (hcreate : rbCreate blockSize nBlocks allocated = some rb)
    (hs : RbSys.Reachable rb s) :
    s.rb.size = rb.size ∧ s.rb.fillCnt ≤ s.rb.size ∧ s.rb.pR ≤ s.rb.size ∧
      s.rb.pW ≤ s.rb.size ∧ s.rb.pR + s.rb.fillCnt ≡ s.rb.pW [MOD s.rb.size] ∧
      s.copiedOut ++ Circular.window s.rb.mem s.rb.pR s.rb.fillCnt = s.copiedIn := by
  obtain ⟨hwf, hempty, -⟩ := rbCreate_spec hcreate
  obtain ⟨⟨⟨-, hpR, hpW, hfill, hturn⟩, -⟩, f, hsize, hheld, hwritten, htaken⟩ :=
    hs.sim hwf hempty
  refine ⟨hsize, hfill, hpR, hpW, ?_, ?_⟩
  · rcases hturn with h | h | h <;> rw [h]
    · exact Nat.add_mod_right _ _
    · exact Nat.add_mul_mod_self_right _ _ _
  · rw [← htaken, ← hwritten, ← f.conserved, hheld]
    rfl

/-- A ring of 4 bytes: 3 bytes go in, 2 come out, and 2 more go in around the end. -/
theorem rb_fifo_wrapped :
    ∃ rb, rbCreate 4 1 true = some rb ∧
      ∃ s : RbSys (Fin 2), RbSys.Reachable rb s ∧ s.copiedIn = [1, 2, 3, 4, 5] ∧
        s.copiedOut = [1, 2] ∧
        s.copiedOut ++ Circular.window s.rb.mem s.rb.pR s.rb.fillCnt = s.copiedIn := by
  obtain ⟨rb, hrb⟩ : ∃ rb, rbCreate 4 1 true = some rb := ⟨_, rfl⟩
  obtain ⟨s, hs⟩ : ∃ s, Lts.run RbSys.step (fun _ _ => True) (RbSys.init rb : RbSys (Fin 2))
      [.write 0 [1, 2, 3], .step 0 false, .step 0 false, .step 0 false,
        .read 1 2, .step 1 false, .step 1 false, .write 0 [4, 5], .step 0 false] = some s := by
    obtain rfl := Option.some.inj hrb
    exact ⟨_, rfl⟩
  have hr : RbSys.Reachable rb s := Lts.Reach.of_run _ Lts.Reach.refl hs
  refine ⟨rb, hrb, s, hr, ?_, ?_, (rb_fifo hrb hr).2.2.2.2.2⟩
  all_goals
    obtain rfl := Option.some.inj hrb
    obtain rfl := Option.some.inj hs
    rfl

end AudioPipeline
