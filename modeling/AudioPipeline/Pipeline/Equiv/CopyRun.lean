import AudioPipeline.Pipeline.Equiv.CopyChain

/-!
# Whole runs of a chain of copy elements

Each step of `_fatfs_process`, and each step of a call that it makes on a ring, leaves every element
at its stage (`Inv.step`).  When the last element is finished, each element has ended: the input of
an element is exhausted only after the one before it has ended.

* `end_of_stream`: a sink that is finished has received everything, unless `is_done_write` is stored
  in the wrong moment of a read.
-/

namespace AudioPipeline

/-- The call has returned. -/
theorem RbThread.readResult_eq_some {th : RbThread} {buf : List UInt8} {v : ℤ}
    (hr : th.readResult = some (buf, v)) : ∃ c, th = .reading c ∧ c.pc = .ret v ∧ c.buf = buf := by
  cases th with
  | reading c =>
    unfold RbThread.readResult at hr
    dsimp only at hr
    split at hr
    · rename_i v' hpc
      obtain ⟨rfl, rfl⟩ := Prod.mk.inj (Option.some.inj hr)
      exact ⟨c, rfl, hpc, rfl⟩
    · exact nomatch hr
  | idle | writing | control => exact nomatch hr

theorem RbThread.writeResult_eq_some {th : RbThread} {v : ℤ} (hr : th.writeResult = some v) :
    ∃ c, th = .writing c ∧ c.pc = .ret v := by
  cases th with
  | writing c =>
    unfold RbThread.writeResult at hr
    dsimp only at hr
    split at hr
    · rename_i v' hpc
      obtain rfl := Option.some.inj hr
      exact ⟨c, rfl, hpc⟩
    · exact nomatch hr
  | idle | reading | control => exact nomatch hr

namespace CopyChain

variable {n : ℕ} {config : Fin n → AudioElementCfg} {rings : ℕ → Ringbuf} {source : List UInt8}
  {s s' : CopyChain n} {i j : Fin n} {h k : ℕ} {pc : ProcessPc} {ring : RbTrace (Fin n)}

/-! ### The element that makes the step -/

/-- Bytes go from the ring that element `i` reads into its hand. -/
theorem Flows.read {block block' : List UInt8} (hf : s.Flows source i block)
    (hin : inRing i = some h) (hcopied : ring.sys.copiedIn = (s.chain.ring h).sys.copiedIn)
    (hbytes : block' ++ ring.sys.rb.contents = block ++ (s.chain.ring h).sys.rb.contents) :
    (s.onRing i pc h ring).Flows source i block' := by
  have hold : s.waiting i = (s.chain.ring h).sys.rb.contents := by
    unfold waiting
    rw [hin]
    rfl
  have hnew : (s.onRing i pc h ring).waiting i = ring.sys.rb.contents := by
    unfold waiting
    rw [hin]
    show ((s.onRing i pc h ring).chain.ring h).sys.rb.contents = _
    rw [onRing_self]
  unfold Flows at hf ⊢
  rw [hnew, List.append_assoc, hbytes, ← hold, ← List.append_assoc]
  unfold given passed at hf ⊢
  rw [elim_onRing _ _ (fun ring => ring.sys.copiedIn) fun _ => hcopied,
    elim_onRing _ _ (fun ring => ring.sys.copiedIn) fun _ => hcopied]
  exact hf

/-- Bytes go from the hand of element `i` into the ring that it writes. -/
theorem Flows.write {block b : List UInt8} (hf : s.Flows source i (b ++ block))
    (hout : outRing i = some h)
    (hcopied : ring.sys.copiedIn = (s.chain.ring h).sys.copiedIn ++ b) :
    (s.onRing i pc h ring).Flows source i block := by
  have hnot : inRing i ≠ some h := by
    intro hin
    rw [inRing_eq_some] at hin
    rw [outRing_eq_some] at hout
    omega
  have hnew : (s.onRing i pc h ring).passed i = s.passed i ++ b := by
    unfold passed
    rw [hout]
    show ((s.onRing i pc h ring).chain.ring h).sys.copiedIn = _
    rw [onRing_self]
    exact hcopied
  unfold Flows at hf ⊢
  rw [hnew, List.append_assoc _ b]
  unfold given waiting at hf ⊢
  rw [elim_onRing _ _ (fun ring => ring.sys.copiedIn) fun hin => absurd hin hnot,
    elim_onRing _ _ (fun ring => ring.sys.rb.contents) fun hin => absurd hin hnot]
  exact hf

theorem Flows.read_goto {th : RbThread} {block : List UInt8} (hf : s.Flows source i block)
    (hin : inRing i = some h) (hgoto : ring.sys = (s.chain.ring h).sys.goto i th) :
    (s.onRing i pc h ring).Flows source i block := by
  refine hf.read hin ?_ ?_
  all_goals
    rw [hgoto]
    rfl

theorem Flows.write_goto {th : RbThread} {block : List UInt8} (hf : s.Flows source i block)
    (hout : outRing i = some h) (hgoto : ring.sys = (s.chain.ring h).sys.goto i th) :
    (s.onRing i pc h ring).Flows source i block := by
  refine Flows.write (b := []) hf hout ?_
  rw [hgoto, List.append_nil]
  rfl

/-- `_fatfs_process` is called only by an element that has not come to its end. -/
theorem Stage.processing (hs : s.Stage source i) (hp : (s.chain.cell i).task.Processing = true) :
    LiveTask (s.chain.view i).task (s.chain.view i).m ∧ s.NotDone i ∧ s.Working source i := by
  have hover : ∀ {E : Prop}, ¬TaskOk (overSpec E) (s.chain.view i).task (s.chain.view i).m := by
    intro E hok
    have hp' : (s.chain.view i).task.Processing = true := hp
    cases ht : (s.chain.view i).task with
    | inProc p =>
      rw [ht] at hok hp'
      exact hok.1.1 (of_decide_eq_true hp')
    | absent | begin | recv | inCmd | proc | leave | ending =>
      rw [ht] at hp'
      exact nomatch hp'
  cases hs with
  | live task rests notDone working => exact ⟨task, notDone, working⟩
  | failed task pc notDone => exact absurd task hover
  | ended task pc flows exhausted => exact absurd task hover

/-- An element is in a call only while `_fatfs_process` runs. -/
theorem Stage.processing_of_pc (hs : s.Stage source i) (hpc : s.pc i ≠ .input) :
    (s.chain.cell i).task.Processing = true := by
  cases hs with
  | live task rests notDone working =>
    by_contra hp
    exact hpc (rests (Bool.eq_false_iff.mpr hp))
  | failed task pc notDone => exact absurd pc hpc
  | ended task pc flows exhausted => exact absurd pc hpc

/-- The element goes on with `_fatfs_process`. -/
theorem Stage.goes_on (hcell : s'.chain.cell i = s.chain.cell i)
    (hp : (s.chain.cell i).task.Processing = true)
    (htask : LiveTask (s.chain.view i).task (s.chain.view i).m) (hd : s'.NotDone i)
    (hw : s'.Working source i) : s'.Stage source i := by
  obtain ⟨hview, hm⟩ := view_of_cell hcell
  refine .live ?_ (fun hrest => ?_) hd hw
  · rw [hview, hm]
    exact htask.others _
  · rw [hview] at hrest
    exact absurd (hp.symm.trans hrest) nofun

/-- What `audio_element_input` returns after `rb_read`. -/
theorem working_afterInput {c : ReadCall} {v : ℤ} (hpc : s.pc i = afterInput c.buf v)
    (hin : inRing i = some h) (htotal : c.total = c.buf.length)
    (hret : ReadReturns (s.chain.ring h).sys.rb c.total v) (hf : s.Flows source i c.buf) :
    s.Working source i := by
  unfold Working
  unfold afterInput at hpc
  rcases hret with rfl | ⟨rfl, hpos⟩ | ⟨hzero, hv⟩
  · rw [if_neg (by decide)] at hpc
    rw [hpc]
    exact Or.inl rfl
  · rw [if_pos (by omega)] at hpc
    have hall : c.buf.take (c.total : ℤ).toNat = c.buf := by
      rw [Int.toNat_natCast, htotal, List.take_length]
    rw [hpc, hall]
    refine ⟨?_, hf⟩
    rw [← List.length_pos_iff]
    omega
  · have hnone : c.buf = [] := List.eq_nil_of_length_eq_zero (htotal.symm.trans hzero)
    rw [hnone] at hf
    rcases hv with rfl | ⟨rfl, hend⟩
    · rw [if_neg (by decide)] at hpc
      rw [hpc]
      refine Or.inr (Or.inr ⟨hf, fun hover => ?_⟩)
      exact absurd hover (by decide)
    · rw [if_neg (by decide)] at hpc
      rw [hpc]
      refine Or.inr (Or.inr ⟨hf, fun _ => ?_⟩)
      unfold Exhausted
      rw [hin]
      exact hend

/-! ### The invariant of a run -/

/-- Element `i` is in a call on ring `h`. -/
def Calls (s : CopyChain n) (i : Fin n) (h : ℕ) : Prop :=
  s.pc i = .reading ∧ inRing i = some h ∨ s.pc i = .writing ∧ outRing i = some h

/-- What holds between the steps of a run. -/
structure Inv (config : Fin n → AudioElementCfg) (rings : ℕ → Ringbuf) (source : List UInt8)
    (s : CopyChain n) : Prop where
  ports : ∀ i, SamePorts ((Chain.link config rings).cell i).m (s.chain.cell i).m
  held : ∀ h, h + 1 < n → (s.chain.ring h).sys.Held ∧ (s.chain.ring h).sys.rb.size < 2 ^ 32
  calls : ∀ i h, (s.chain.ring h).sys.thread i ≠ .idle → s.Calls i h
  stage : ∀ i, s.Stage source i

namespace Inv

theorem input (hi : Inv config rings source s) (i : Fin n) :
    (s.chain.cell i).m.el.input.handle = inRing i := by
  rw [(hi.ports i).input, Chain.input_link]
  rfl

theorem output (hi : Inv config rings source s) (i : Fin n) :
    (s.chain.cell i).m.el.output.handle = outRing i := by
  rw [(hi.ports i).output, Chain.output_link]
  rfl

theorem outputs (hi : Inv config rings source s) (hh : h ∈ (s.chain.cell i).m.el.outputs) :
    outRing i = some h := by
  rw [(hi.ports i).outputs, Chain.outputs_link] at hh
  unfold outRing
  split_ifs at hh ⊢
  · rw [List.mem_singleton.mp hh]
  · exact nomatch hh

/-- The ring between two elements is one of the rings of the chain. -/
theorem inside_in (hin : inRing i = some h) : h + 1 < n := by
  rw [inRing_eq_some] at hin
  have hlt := i.isLt
  omega

theorem idle (hi : Inv config rings source s) (hnot : ¬s.Calls i h) :
    (s.chain.ring h).sys.thread i = .idle := by
  by_contra hth
  exact hnot (hi.calls i h hth)

/-- Element `i` has done something to ring `h`. -/
theorem onRing (hi : Inv config rings source s) (hp : (s.chain.cell i).task.Processing = true)
    (hheld : ring.sys.Held ∧ ring.sys.rb.size = (s.chain.ring h).sys.rb.size)
    (hinside : h + 1 < n)
    (hthread : ∀ t ≠ i, ring.sys.thread t = (s.chain.ring h).sys.thread t)
    (hidle : ∀ k ≠ h, (s.chain.ring k).sys.thread i = .idle)
    (hcalls : ring.sys.thread i ≠ .idle → (s.onRing i pc h ring).Calls i h)
    (hothers : ∀ j ≠ i, Undisturbed source s (s.onRing i pc h ring) j)
    (hnotDone : (s.onRing i pc h ring).NotDone i)
    (hworking : (s.onRing i pc h ring).Working source i) :
    Inv config rings source (s.onRing i pc h ring) := by
  refine ⟨hi.ports, fun k hk => ?_, fun j k hth => ?_, fun j => ?_⟩
  · by_cases hkh : k = h
    · subst hkh
      rw [onRing_self]
      exact ⟨hheld.1, hheld.2.trans_lt (hi.held k hk).2⟩
    · rw [onRing_ne hkh]
      exact hi.held k hk
  · by_cases hji : j = i
    · subst hji
      by_cases hkh : k = h
      · subst hkh
        rw [onRing_self] at hth
        exact hcalls hth
      · rw [onRing_ne hkh] at hth
        exact absurd (hidle k hkh) hth
    · have hpc : (s.onRing i pc h ring).pc j = s.pc j := (hothers j hji).pc
      have hold : (s.chain.ring k).sys.thread j ≠ .idle := by
        by_cases hkh : k = h
        · subst hkh
          rw [onRing_self, hthread j hji] at hth
          exact hth
        · rw [onRing_ne hkh] at hth
          exact hth
      unfold Calls
      rw [hpc]
      exact hi.calls j k hold
  · by_cases hji : j = i
    · subst hji
      have hst := (hi.stage j).processing hp
      exact Stage.goes_on (s := s) rfl hp hst.1 hnotDone hworking
    · exact (hi.stage j).others (hothers j hji)

/-- Element `i` has done something to the ring that it reads. -/
theorem reads (hi : Inv config rings source s) (hp : (s.chain.cell i).task.Processing = true)
    (hin : inRing i = some h) (hheld : ring.sys.Held)
    (hsize : ring.sys.rb.size = (s.chain.ring h).sys.rb.size)
    (hthread : ∀ t ≠ i, ring.sys.thread t = (s.chain.ring h).sys.thread t)
    (hcopied : ring.sys.copiedIn = (s.chain.ring h).sys.copiedIn)
    (hdone : ring.sys.rb.isDoneWrite = (s.chain.ring h).sys.rb.isDoneWrite)
    (hpc : s.pc i = .input ∨ s.pc i = .reading)
    (hcalls : ring.sys.thread i ≠ .idle → pc = .reading)
    (hworking : (s.onRing i pc h ring).Working source i) :
    Inv config rings source (s.onRing i pc h ring) := by
  have hothers : ∀ j ≠ i, Undisturbed source s (s.onRing i pc h ring) j :=
    fun j => undisturbed_read hin hthread hcopied hdone
  refine hi.onRing hp ⟨hheld, hsize⟩ (inside_in hin) hthread (fun k hk => ?_) (fun hth => ?_)
    hothers (fun k hout => ?_) hworking
  · refine hi.idle ?_
    rintro (⟨-, hin'⟩ | ⟨hwriting, -⟩)
    · exact hk (Option.some.inj (hin'.symm.trans hin))
    · rcases hpc with hpc | hpc <;> exact nomatch hpc.symm.trans hwriting
  · refine Or.inl ⟨?_, hin⟩
    rw [← hcalls hth]
    exact Function.update_self ..
  · have hnotDone := ((hi.stage i).processing hp).2.1 k hout
    have hkh : k ≠ h := by
      rw [inRing_eq_some] at hin
      rw [outRing_eq_some] at hout
      omega
    rw [onRing_ne hkh]
    exact hnotDone

/-- Element `i` has done something to the ring that it writes. -/
theorem writes {b : List UInt8} (hi : Inv config rings source s)
    (hp : (s.chain.cell i).task.Processing = true) (hout : outRing i = some h)
    (hheld : ring.sys.Held) (hsize : ring.sys.rb.size = (s.chain.ring h).sys.rb.size)
    (hthread : ∀ t ≠ i, ring.sys.thread t = (s.chain.ring h).sys.thread t)
    (hcopied : ring.sys.copiedIn = (s.chain.ring h).sys.copiedIn ++ b)
    (hcontents : ring.sys.rb.contents = (s.chain.ring h).sys.rb.contents ++ b)
    (hdone : ring.sys.rb.isDoneWrite = (s.chain.ring h).sys.rb.isDoneWrite)
    (hpc : s.pc i ≠ .reading) (hcalls : ring.sys.thread i ≠ .idle → pc = .writing)
    (hworking : (s.onRing i pc h ring).Working source i) :
    Inv config rings source (s.onRing i pc h ring) := by
  have hnotDone := ((hi.stage i).processing hp).2.1
  have hothers : ∀ j ≠ i, Undisturbed source s (s.onRing i pc h ring) j :=
    fun j => undisturbed_write hout (hnotDone h hout) hthread hcopied hcontents hdone
  refine hi.onRing hp ⟨hheld, hsize⟩ (outRing_eq_some.mp hout).2 hthread (fun k hk => ?_)
    (fun hth => ?_) hothers (fun k hout' => ?_) hworking
  · refine hi.idle ?_
    rintro (⟨hreading, -⟩ | ⟨-, hout'⟩)
    · exact hpc hreading
    · exact hk (Option.some.inj (hout'.symm.trans hout))
  · refine Or.inr ⟨?_, hout⟩
    rw [← hcalls hth]
    exact Function.update_self ..
  · obtain rfl : h = k := Option.some.inj (hout.symm.trans hout')
    rw [onRing_self, hdone]
    exact hnotDone h hout

/-- A call on the ring that element `i` reads begins or returns. -/
theorem reads_goto {th : RbThread} (hi : Inv config rings source s)
    (hp : (s.chain.cell i).task.Processing = true) (hin : inRing i = some h)
    (hheld : ring.sys.Held) (hgoto : ring.sys = (s.chain.ring h).sys.goto i th)
    (hpc : s.pc i = .input ∨ s.pc i = .reading) (hcalls : th ≠ .idle → pc = .reading)
    (hworking : (s.onRing i pc h ring).Working source i) :
    Inv config rings source (s.onRing i pc h ring) := by
  have hself : ring.sys.thread i = th := by
    rw [hgoto]
    exact Function.update_self ..
  refine hi.reads hp hin hheld ?_ (fun t ht => ?_) ?_ ?_ hpc (fun hth => ?_) hworking
  · rw [hgoto]
    rfl
  · rw [hgoto]
    exact Function.update_of_ne ht ..
  · rw [hgoto]
    rfl
  · rw [hgoto]
    rfl
  · rw [hself] at hth
    exact hcalls hth

/-- A call on the ring that element `i` writes begins or returns. -/
theorem writes_goto {th : RbThread} (hi : Inv config rings source s)
    (hp : (s.chain.cell i).task.Processing = true) (hout : outRing i = some h)
    (hheld : ring.sys.Held) (hgoto : ring.sys = (s.chain.ring h).sys.goto i th)
    (hpc : s.pc i ≠ .reading) (hcalls : th ≠ .idle → pc = .writing)
    (hworking : (s.onRing i pc h ring).Working source i) :
    Inv config rings source (s.onRing i pc h ring) := by
  have hself : ring.sys.thread i = th := by
    rw [hgoto]
    exact Function.update_self ..
  refine hi.writes (b := []) hp hout hheld ?_ (fun t ht => ?_) ?_ ?_ ?_ hpc (fun hth => ?_)
    hworking
  · rw [hgoto]
    rfl
  · rw [hgoto]
    exact Function.update_of_ne ht ..
  · rw [hgoto, List.append_nil]
    rfl
  · rw [hgoto, List.append_nil]
    rfl
  · rw [hgoto]
    rfl
  · rw [hself] at hth
    exact hcalls hth

/-! ### Steps on a ring -/

theorem trace_step {tr : RbTrace (Fin n)} {l : RbLabel (Fin n)} (hs : tr.step l = some ring) :
    tr.sys.step l = some ring.sys := by
  obtain ⟨sys, hsys, rfl⟩ := Option.map_eq_some_iff.mp hs
  exact hsys

/-- `rb_read` is called. -/
theorem startRead {len : ℕ} (hi : Inv config rings source s)
    (hp : (s.chain.cell i).task.Processing = true) (hin : inRing i = some h)
    (hpc : s.pc i = .input) (hs : (s.chain.ring h).sys.step (.read i len) = some ring.sys) :
    Inv config rings source (s.onRing i .reading h ring) := by
  have hworking := ((hi.stage i).processing hp).2.2
  unfold Working at hworking
  rw [hpc] at hworking
  have hheld := (hi.held h (inside_in hin)).1.step hs
  obtain ⟨hgoto, hlen⟩ := RbSys.step_read hs
  refine hi.reads_goto hp hin hheld hgoto (Or.inl hpc) (fun _ => rfl) ?_
  have hnew : (s.onRing i .reading h ring).pc i = .reading := Function.update_self ..
  unfold Working
  rw [hnew]
  refine ⟨h, rbRead len, hin, ?_, ReadCall.Keeps.start hlen, hworking.read_goto hin hgoto⟩
  rw [onRing_self, hgoto]
  exact Function.update_self ..

/-- A step of `rb_read`. -/
theorem stepsRead {c : ReadCall} {timeout : Bool} (hi : Inv config rings source s)
    (hth : (s.chain.ring h).sys.thread i = .reading c) (hret : ∀ v, c.pc ≠ .ret v)
    (hs : (s.chain.ring h).sys.step (.step i timeout) = some ring.sys)
    (hpc : s.pc i = .reading) : Inv config rings source (s.onRing i .reading h ring) := by
  have hp : (s.chain.cell i).task.Processing = true := by
    refine (hi.stage i).processing_of_pc ?_
    rw [hpc]
    exact nofun
  have hworking := ((hi.stage i).processing hp).2.2
  unfold Working at hworking
  rw [hpc] at hworking
  obtain ⟨h', c₁, hin, hth', hkeeps, hflows⟩ := hworking
  obtain rfl : h = h' := by
    have hcalls := hi.calls i h (by rw [hth]; exact nofun)
    rcases hcalls with ⟨-, hin'⟩ | ⟨hwriting, -⟩
    · exact Option.some.inj (hin'.symm.trans hin)
    · exact nomatch hpc.symm.trans hwriting
  obtain rfl : c = c₁ := RbThread.reading.inj (hth.symm.trans hth')
  obtain ⟨hheld, hsize⟩ := hi.held h (inside_in hin)
  obtain ⟨c', hm⟩ := RbSys.step_reading hheld hth hret hs
  refine hi.reads hp hin (hheld.step hs) hm.size ?_ hm.copiedIn hm.done (Or.inr hpc)
    (fun _ => rfl) ?_
  · intro t ht
    rw [hm.thread]
    exact Function.update_of_ne ht ..
  · have hnew : (s.onRing i .reading h ring).pc i = .reading := Function.update_self ..
    unfold Working
    rw [hnew]
    refine ⟨h, c', hin, ?_, ?_, hflows.read hin hm.copiedIn hm.bytes⟩
    · rw [onRing_self, hm.thread]
      exact Function.update_self ..
    · rw [onRing_self]
      have hfill := hheld.wf.fillCnt_le
      exact hm.keeps hkeeps (by omega)

/-- The return from `rb_read`. -/
theorem returnsRead {c : ReadCall} {v : ℤ} (hi : Inv config rings source s)
    (hp : (s.chain.cell i).task.Processing = true) (hpc : s.pc i = .reading)
    (hin : inRing i = some h)
    (hth : (s.chain.ring h).sys.thread i = .reading c) (hret : c.pc = .ret v)
    (hs : (s.chain.ring h).sys.step (.step i false) = some ring.sys) :
    Inv config rings source (s.onRing i (afterInput c.buf v) h ring) := by
  have hworking := ((hi.stage i).processing hp).2.2
  unfold Working at hworking
  rw [hpc] at hworking
  obtain ⟨h', c₁, hin', hth', hkeeps, hflows⟩ := hworking
  obtain rfl : h = h' := Option.some.inj (hin.symm.trans hin')
  obtain rfl : c = c₁ := RbThread.reading.inj (hth.symm.trans hth')
  have hheld := (hi.held h (inside_in hin)).1.step hs
  have hgoto := RbSys.step_readReturn hth hret hs
  refine hi.reads_goto hp hin hheld hgoto (Or.inr hpc) (fun hth => absurd rfl hth) ?_
  refine working_afterInput (Function.update_self ..) hin hkeeps.total ?_
    (hflows.read_goto hin hgoto)
  have hreturns := hkeeps.pc
  rw [hret] at hreturns
  rw [onRing_self, hgoto]
  exact hreturns

/-- `rb_write` is called. -/
theorem startWrite {block : List UInt8} (hi : Inv config rings source s)
    (hp : (s.chain.cell i).task.Processing = true) (hout : outRing i = some h)
    (hpc : s.pc i = .output block)
    (hs : (s.chain.ring h).sys.step (.write i block) = some ring.sys) :
    Inv config rings source (s.onRing i .writing h ring) := by
  have hworking := ((hi.stage i).processing hp).2.2
  unfold Working at hworking
  rw [hpc] at hworking
  obtain ⟨hne, hflows⟩ := hworking
  have hheld := (hi.held h (outRing_eq_some.mp hout).2).1.step hs
  have hgoto := RbSys.step_write hs
  refine hi.writes_goto hp hout hheld hgoto ?_ (fun _ => rfl) ?_
  · rw [hpc]
    exact nofun
  · have hnew : (s.onRing i .writing h ring).pc i = .writing := Function.update_self ..
    unfold Working
    rw [hnew]
    refine ⟨h, rbWrite block, hout, ?_, hne, hflows.write_goto hout hgoto⟩
    rw [onRing_self, hgoto]
    exact Function.update_self ..

/-- A step of `rb_write`. -/
theorem stepsWrite {c : WriteCall} {timeout : Bool} (hi : Inv config rings source s)
    (hth : (s.chain.ring h).sys.thread i = .writing c) (hret : ∀ v, c.pc ≠ .ret v)
    (hup : ¬c.GivesUp (s.chain.ring h).sys.rb timeout)
    (hs : (s.chain.ring h).sys.step (.step i timeout) = some ring.sys)
    (hpc : s.pc i = .writing) : Inv config rings source (s.onRing i .writing h ring) := by
  have hp : (s.chain.cell i).task.Processing = true := by
    refine (hi.stage i).processing_of_pc ?_
    rw [hpc]
    exact nofun
  obtain ⟨-, hnotDone, hworking⟩ := (hi.stage i).processing hp
  unfold Working at hworking
  rw [hpc] at hworking
  obtain ⟨h', c₁, hout, hth', hputs, hflows⟩ := hworking
  obtain rfl : h = h' := by
    have hcalls := hi.calls i h (by rw [hth]; exact nofun)
    rcases hcalls with ⟨hreading, -⟩ | ⟨-, hout'⟩
    · exact nomatch hpc.symm.trans hreading
    · exact Option.some.inj (hout'.symm.trans hout)
  obtain rfl : c = c₁ := RbThread.writing.inj (hth.symm.trans hth')
  have hheld := (hi.held h (outRing_eq_some.mp hout).2).1
  obtain ⟨c', bytes, hc, hm⟩ := RbSys.step_writing hheld hth hret hs
  rw [hm.rest] at hflows
  refine hi.writes hp hout (hheld.step hs) hm.size ?_ hm.copiedIn hm.contents hm.done ?_
    (fun _ => rfl) ?_
  · intro t ht
    rw [hm.thread]
    exact Function.update_of_ne ht ..
  · rw [hpc]
    exact nofun
  · have hnew : (s.onRing i .writing h ring).pc i = .writing := Function.update_self ..
    unfold Working
    rw [hnew]
    refine ⟨h, c', hout, ?_, hputs.step (hnotDone h hout) hup hc, hflows.write hout hm.copiedIn⟩
    rw [onRing_self, hm.thread]
    exact Function.update_self ..

/-- The return from `rb_write`. -/
theorem returnsWrite {c : WriteCall} {v : ℤ} (hi : Inv config rings source s)
    (hp : (s.chain.cell i).task.Processing = true) (hpc : s.pc i = .writing)
    (hout : outRing i = some h) (hth : (s.chain.ring h).sys.thread i = .writing c)
    (hret : c.pc = .ret v) (hs : (s.chain.ring h).sys.step (.step i false) = some ring.sys) :
    Inv config rings source (s.onRing i (.ret v) h ring) := by
  have hworking := ((hi.stage i).processing hp).2.2
  unfold Working at hworking
  rw [hpc] at hworking
  obtain ⟨h', c₁, hout', hth', hputs, hflows⟩ := hworking
  obtain rfl : h = h' := Option.some.inj (hout.symm.trans hout')
  obtain rfl : c = c₁ := RbThread.writing.inj (hth.symm.trans hth')
  unfold WriteCall.Puts at hputs
  rw [hret] at hputs
  obtain ⟨hpos, hall⟩ := hputs
  rw [hall] at hflows
  have hheld := (hi.held h (outRing_eq_some.mp hout).2).1.step hs
  have hgoto := RbSys.step_writeReturn hth hret hs
  refine hi.writes_goto hp hout hheld hgoto ?_ (fun hth => absurd rfl hth) ?_
  · rw [hpc]
    exact nofun
  · have hnew : (s.onRing i (.ret v) h ring).pc i = .ret v := Function.update_self ..
    unfold Working
    rw [hnew]
    refine Or.inr (Or.inr ⟨hflows.write_goto hout hgoto, fun hover => ?_⟩)
    -- a block that went out is no end of the stream
    rcases hover with rfl | rfl
    · exact absurd hpos (by decide)
    · exact absurd hpos (by decide)

end Inv

/-! ### Steps at the ends of the chain -/

/-- `_fatfs_process` of element `i` goes on at `pc`, and the source or the sink has moved on. -/
def onEnds (s : CopyChain n) (i : Fin n) (pc : ProcessPc) (src rcv : List UInt8) : CopyChain n :=
  { s.goto i pc s.chain with source := src, received := rcv }

section Ends

variable {src rcv : List UInt8}

/-- The source feeds only the first element, and the sink takes only from the last one. -/
theorem undisturbed_ends (hsrc : src = s.source ∨ inRing i = none)
    (hrcv : rcv = s.received ∨ outRing i = none) (hij : j ≠ i) :
    Undisturbed source s (s.onEnds i pc src rcv) j := by
  have hin : inRing j = none → src = s.source := by
    intro hj
    rcases hsrc with hsrc | hi
    · exact hsrc
    · exact absurd (inRing_none_inj hj hi) hij
  have hout : outRing j = none → rcv = s.received := by
    intro hj
    rcases hrcv with hrcv | hi
    · exact hrcv
    · exact absurd (outRing_none_inj hj hi) hij
  refine ⟨rfl, Function.update_of_ne hij .., fun block hf => ?_, fun hx => ?_, fun k _ => ?_,
    fun k _ => ⟨rfl, rfl⟩⟩
  · have hwaiting : (s.onEnds i pc src rcv).waiting j = s.waiting j := by
      unfold waiting
      cases hj : inRing j with
      | none => exact hin hj
      | some h => rfl
    have hpassed : (s.onEnds i pc src rcv).passed j = s.passed j := by
      unfold passed
      cases hj : outRing j with
      | none => exact hout hj
      | some h => rfl
    unfold Flows at hf ⊢
    rw [hwaiting, hpassed]
    exact hf
  · unfold Exhausted at hx ⊢
    cases hj : inRing j with
    | none =>
      rw [hj] at hx
      show src = []
      rw [hin hj]
      exact hx
    | some h =>
      rw [hj] at hx
      exact hx
  · exact ⟨rfl, fun _ _ hkeeps => hkeeps⟩

namespace Inv

/-- A step of `_fatfs_process` outside of the rings. -/
theorem onEnds (hi : Inv config rings source s) (hp : (s.chain.cell i).task.Processing = true)
    (hpc : s.pc i ≠ .reading ∧ s.pc i ≠ .writing) (hsrc : src = s.source ∨ inRing i = none)
    (hrcv : rcv = s.received ∨ outRing i = none)
    (hworking : (s.onEnds i pc src rcv).Working source i) :
    Inv config rings source (s.onEnds i pc src rcv) := by
  refine ⟨hi.ports, hi.held, fun j k hth => ?_, fun j => ?_⟩
  · by_cases hji : j = i
    · subst hji
      rcases hi.calls j k hth with ⟨hreading, -⟩ | ⟨hwriting, -⟩
      · exact absurd hreading hpc.1
      · exact absurd hwriting hpc.2
    · have hsame : (s.onEnds i pc src rcv).pc j = s.pc j := Function.update_of_ne hji ..
      unfold Calls
      rw [hsame]
      exact hi.calls j k hth
  · by_cases hji : j = i
    · subst hji
      have hst := (hi.stage j).processing hp
      exact Stage.goes_on (s := s) rfl hp hst.1 hst.2.1 hworking
    · exact (hi.stage j).others (undisturbed_ends hsrc hrcv hji)

/-- The source delivers a chunk. -/
theorem delivers {chunk : List UInt8} (hi : Inv config rings source s)
    (hp : (s.chain.cell i).task.Processing = true) (hpc : s.pc i = .input)
    (hin : inRing i = none) (htaken : chunk <+: s.source) (hlast : chunk = [] → s.source = []) :
    Inv config rings source (s.onEnds i (afterInput chunk chunk.length)
      (s.source.drop chunk.length) s.received) := by
  have hworking := ((hi.stage i).processing hp).2.2
  unfold Working at hworking
  rw [hpc] at hworking
  refine hi.onEnds hp ?_ (Or.inr hin) (Or.inl rfl) ?_
  · rw [hpc]
    exact ⟨nofun, nofun⟩
  · obtain ⟨rest, hrest⟩ := htaken
    have hdrop : s.source.drop chunk.length = rest := by
      rw [← hrest, List.drop_left]
    have hold : s.waiting i = chunk ++ rest := by
      unfold waiting
      rw [hin, hrest]
      rfl
    -- what the stage holds and what waits in front of it together stay the same
    have hflows : ∀ pc : ProcessPc, (s.onEnds i pc (s.source.drop chunk.length)
        s.received).Flows source i chunk := by
      intro pc
      have hnew : (s.onEnds i pc (s.source.drop chunk.length) s.received).waiting i = rest := by
        unfold waiting
        rw [hin]
        exact hdrop
      unfold Flows at hworking ⊢
      rw [hnew, List.append_assoc, ← hold]
      rw [List.append_nil] at hworking
      exact hworking
    have hnew : (s.onEnds i (afterInput chunk chunk.length) (s.source.drop chunk.length)
        s.received).pc i = afterInput chunk chunk.length := Function.update_self ..
    unfold Working
    rw [hnew]
    unfold afterInput
    by_cases hpos : 0 < chunk.length
    · rw [if_pos (by omega), Int.toNat_natCast, List.take_length]
      exact ⟨List.length_pos_iff.mp hpos, hflows _⟩
    · -- no bytes from `read` is the end of the source
      have hnone : chunk = [] := List.eq_nil_of_length_eq_zero (by omega)
      rw [if_neg (by omega)]
      refine Or.inr (Or.inr ⟨?_, fun _ => ?_⟩)
      · have hf := hflows (.ret chunk.length)
        rw [hnone] at hf ⊢
        exact hf
      · unfold Exhausted
        rw [hin]
        show s.source.drop chunk.length = []
        rw [hlast hnone, List.drop_nil]

/-- The sink receives a block. -/
theorem receives {block : List UInt8} (hi : Inv config rings source s)
    (hp : (s.chain.cell i).task.Processing = true) (hpc : s.pc i = .output block)
    (hout : outRing i = none) :
    Inv config rings source (s.onEnds i (.ret block.length) s.source (s.received ++ block)) := by
  have hworking := ((hi.stage i).processing hp).2.2
  unfold Working at hworking
  rw [hpc] at hworking
  obtain ⟨hne, hflows⟩ := hworking
  refine hi.onEnds hp ?_ (Or.inl rfl) (Or.inr hout) ?_
  · rw [hpc]
    exact ⟨nofun, nofun⟩
  · have hnew : (s.onEnds i (.ret block.length) s.source (s.received ++ block)).pc i =
        .ret block.length := Function.update_self ..
    have hlen : 0 < block.length := List.length_pos_iff.mpr hne
    unfold Working
    rw [hnew]
    refine Or.inr (Or.inr ⟨?_, fun hover => ?_⟩)
    · have hold : s.passed i = s.received := by
        unfold passed
        rw [hout]
        rfl
      have hpassed : (s.onEnds i (.ret block.length) s.source (s.received ++ block)).passed i =
          s.received ++ block := by
        unfold passed
        rw [hout]
        rfl
      unfold Flows at hflows ⊢
      rw [hpassed, List.append_nil, ← hold]
      exact hflows
    · have hcodes : AEL_IO_DONE ≤ 0 ∧ AEL_IO_OK ≤ 0 := by decide
      rcases hover with hover | hover <;> omega

/-- `audio_element_input` finds nothing to read from. -/
theorem noInput (hi : Inv config rings source s) (hp : (s.chain.cell i).task.Processing = true)
    (hpc : s.pc i = .input) :
    Inv config rings source (s.onEnds i (.ret ESP_FAIL) s.source s.received) := by
  refine hi.onEnds hp ?_ (Or.inl rfl) (Or.inl rfl) ?_
  · rw [hpc]
    exact ⟨nofun, nofun⟩
  · have hnew : (s.onEnds i (.ret ESP_FAIL) s.source s.received).pc i = .ret ESP_FAIL :=
      Function.update_self ..
    unfold Working
    rw [hnew]
    exact Or.inr (Or.inl rfl)

end Inv

end Ends

/-! ### Every step -/

namespace Inv

/-- What `audio_element_output` finds. -/
theorem output_cases (hi : Inv config rings source s)
    (hwrite : ∀ i : Fin n, i.val + 1 = n → (config i).write = true) (i : Fin n) :
    (s.chain.cell i).m.el.output = .rb (some i.val) ∨ (s.chain.cell i).m.el.output = .cb true := by
  have hport : (s.chain.cell i).m.el.output = if i.val + 1 < n then .rb (some i.val)
      else if (config i).write = true then .cb true else .rb none := (hi.ports i).output
  rw [hport]
  by_cases hlt : i.val + 1 < n
  · rw [if_pos hlt]
    exact Or.inl rfl
  · have hlast : i.val + 1 = n := by
      have hi := i.isLt
      omega
    rw [if_neg hlt, if_pos (hwrite i hlast)]
    exact Or.inr rfl

/-- **A step of `_fatfs_process`.** -/
theorem process {chunk : List UInt8} (hi : Inv config rings source s)
    (hwrite : ∀ i : Fin n, i.val + 1 = n → (config i).write = true)
    (hp : (s.chain.cell i).task.Processing = true) (hs : s.processStep i chunk = some s') :
    Inv config rings source s' := by
  have hin := hi.input i
  have hout := hi.output i
  unfold processStep at hs
  dsimp only at hs
  -- by the place in the function, and there by the kind of port
  cases hpc : s.pc i with
  | input =>
    rw [hpc] at hs
    dsimp only at hs
    cases hport : (s.chain.cell i).m.el.input with
    | rb handle =>
      rw [hport] at hs hin
      cases handle with
      | some h =>
        obtain ⟨chain', hchain, rfl⟩ := Option.map_eq_some_iff.mp hs
        obtain ⟨-, ring, hring, rfl⟩ := Chain.ring_some hchain
        exact hi.startRead hp hin.symm hpc (trace_step hring)
      | none =>
        obtain rfl := Option.some.inj hs
        exact hi.noInput hp hpc
    | cb set =>
      rw [hport] at hs hin
      cases set with
      | true =>
        dsimp only at hs
        split_ifs at hs with hchunk
        obtain rfl := Option.some.inj hs
        exact hi.delivers hp hpc hin.symm hchunk.1 hchunk.2.2
      | false =>
        obtain rfl := Option.some.inj hs
        exact hi.noInput hp hpc
  | reading =>
    rw [hpc] at hs
    obtain ⟨h, hhandle, hs⟩ := Option.bind_eq_some_iff.mp hs
    obtain ⟨⟨buf, v⟩, hresult, hs⟩ := Option.bind_eq_some_iff.mp hs
    obtain ⟨chain', hchain, rfl⟩ := Option.map_eq_some_iff.mp hs
    obtain ⟨-, ring, hring, rfl⟩ := Chain.ring_some hchain
    obtain ⟨c, hth, hret, rfl⟩ := RbThread.readResult_eq_some hresult
    exact hi.returnsRead hp hpc (hin.symm.trans hhandle) hth hret (trace_step hring)
  | output block =>
    rw [hpc] at hs
    dsimp only at hs
    rcases hi.output_cases hwrite i with hport | hport
    · rw [hport] at hs hout
      obtain ⟨chain', hchain, rfl⟩ := Option.map_eq_some_iff.mp hs
      obtain ⟨-, ring, hring, rfl⟩ := Chain.ring_some hchain
      exact hi.startWrite hp hout.symm hpc (trace_step hring)
    · rw [hport] at hs hout
      obtain rfl := Option.some.inj hs
      exact hi.receives hp hpc hout.symm
  | writing =>
    rw [hpc] at hs
    obtain ⟨h, hhandle, hs⟩ := Option.bind_eq_some_iff.mp hs
    obtain ⟨v, hresult, hs⟩ := Option.bind_eq_some_iff.mp hs
    obtain ⟨chain', hchain, rfl⟩ := Option.map_eq_some_iff.mp hs
    obtain ⟨-, ring, hring, rfl⟩ := Chain.ring_some hchain
    obtain ⟨c, hth, hret⟩ := RbThread.writeResult_eq_some hresult
    exact hi.returnsWrite hp hpc (hout.symm.trans hhandle) hth hret (trace_step hring)
  | ret wSize =>
    rw [hpc] at hs
    exact nomatch hs

/-- **A step of a call** on a ring. -/
theorem call {timeout : Bool} (hi : Inv config rings source s)
    (hup : s.Uninterrupted (.ring h i timeout)) (hs : s.step (.ring h i timeout) = some s') :
    Inv config rings source s' := by
  simp only [CopyChain.step] at hs
  split_ifs at hs with hinside
  obtain ⟨chain', hchain, rfl⟩ := Option.map_eq_some_iff.mp hs
  obtain ⟨-, ring, hring, rfl⟩ := Chain.ring_some hchain
  have hsys := trace_step hring
  have hsame : ({ s with chain := { s.chain with ring := Function.update s.chain.ring h ring } } :
      CopyChain n) = s.onRing i (s.pc i) h ring := by
    unfold CopyChain.onRing goto
    rw [Function.update_eq_self]
  rw [hsame]
  have hnot : (s.chain.ring h).sys.thread i ≠ .idle := by
    intro hidle
    simp only [RbSys.step, hidle] at hsys
    cases hsys
  have hworking : s.pc i ≠ .input → s.Working source i := fun hpc =>
    ((hi.stage i).processing ((hi.stage i).processing_of_pc hpc)).2.2
  rcases hi.calls i h hnot with ⟨hpc, hin⟩ | ⟨hpc, hout⟩
  · have hw := hworking (by simp [hpc])
    unfold Working at hw
    rw [hpc] at hw ⊢
    obtain ⟨h', c, hin', hth, -, -⟩ := hw
    obtain rfl : h = h' := Option.some.inj (hin.symm.trans hin')
    refine hi.stepsRead hth (fun v hret => ?_) hsys hpc
    have hresult := hinside.1
    rw [hth, RbThread.readResult, hret] at hresult
    cases hresult
  · have hw := hworking (by simp [hpc])
    unfold Working at hw
    rw [hpc] at hw ⊢
    obtain ⟨h', c, hout', hth, -, -⟩ := hw
    obtain rfl : h = h' := Option.some.inj (hout.symm.trans hout')
    refine hi.stepsWrite hth (fun v hret => ?_) (fun hgives => ?_) hsys hpc
    · have hresult := hinside.2
      rw [hth, RbThread.writeResult, hret] at hresult
      cases hresult
    · refine hup ?_
      rw [hth]
      exact hgives

/-- While the task is not in the way, `_fatfs_process` is in no call. -/
theorem idle_of_free (hi : Inv config rings source s)
    (hfree : ¬((s.chain.cell i).task.Processing = true ∧ s.chain.free i = false)) (h : ℕ) :
    (s.chain.ring h).sys.thread i = .idle := by
  by_contra hth
  have hcalls := hi.calls i h hth
  have hp : (s.chain.cell i).task.Processing = true := by
    refine (hi.stage i).processing_of_pc ?_
    rcases hcalls with ⟨hpc, -⟩ | ⟨hpc, -⟩
    all_goals
      rw [hpc]
      exact nofun
  have hall : s.chain.free i = true := by
    by_contra hnot
    exact hfree ⟨hp, Bool.eq_false_iff.mpr hnot⟩
  unfold Chain.free at hall
  rw [hi.input i, hi.output i, Bool.and_eq_true] at hall
  rcases hcalls with ⟨-, hin⟩ | ⟨-, hout⟩
  · rw [hin] at hall
    exact hth (of_decide_eq_true hall.1)
  · rw [hout] at hall
    exact hth (of_decide_eq_true hall.2)

/-- **A step of a task.** -/
theorem task {v : ℤ} (hi : Inv config rings source s) (hdone : s.NoHastyDone (.task i v))
    (hs : s.step (.task i v) = some s') : Inv config rings source s' := by
  obtain ⟨a, ha, hs⟩ := Option.bind_eq_some_iff.mp hs
  obtain ⟨chain', hchain, rfl⟩ := Option.map_eq_some_iff.mp hs
  have hel : s.chain.stepEl i (.task a) = some chain' := hchain
  have hfree : ¬((s.chain.cell i).task.Processing = true ∧ s.chain.free i = false) := by
    intro hbusy
    rw [Chain.stepEl, if_pos hbusy] at hel
    cases hel
  obtain ⟨e, he, rfl⟩ := Chain.stepEl_some hel
  have hstep : (s.chain.view i).task.step (s.chain.view i).m a = some (e.m, e.task) := by
    obtain ⟨⟨m', t'⟩, hstep, rfl⟩ := Option.map_eq_some_iff.mp he
    exact hstep
  obtain ⟨hm, hports, hstage⟩ := (hi.stage i).task (fun h => hi.outputs) hdone ha hstep
  refine ⟨fun j => ?_, fun h hh => ?_, fun j h hth => ?_, fun j => ?_⟩
  · by_cases hji : j = i
    · subst hji
      have hview : SamePorts (s.chain.cell j).m (s.chain.view j).m := ⟨rfl, rfl, rfl, rfl⟩
      show SamePorts _ (Function.update s.chain.cell j e j).m
      rw [Function.update_self]
      exact ((hi.ports j).trans hview).trans hports
    · show SamePorts _ (Function.update s.chain.cell i e j).m
      rw [Function.update_of_ne hji]
      exact hi.ports j
  · obtain ⟨hheld, hsize⟩ := hi.held h hh
    refine ⟨hheld.sameBytes (hm.bytes h), ?_⟩
    exact (hm.bytes h).size.trans_lt hsize
  · by_cases hji : j = i
    · subst hji
      exact absurd (hi.idle_of_free hfree h) hth
    · have hcalls := hi.calls j h hth
      have hpc : (s.goto i .input (s.chain.put i e)).pc j = s.pc j := Function.update_of_ne hji ..
      unfold Calls
      rw [hpc]
      exact hcalls
  · by_cases hji : j = i
    · subst hji
      exact hstage
    · exact (hi.stage j).others (hm.undisturbed hji)

/-- **Every step.** -/
theorem step {l : CopyChainLabel n} (hi : Inv config rings source s)
    (hwrite : ∀ i : Fin n, i.val + 1 = n → (config i).write = true) (hup : s.Uninterrupted l)
    (hdone : s.NoHastyDone l) (hs : s.step l = some s') : Inv config rings source s' := by
  cases l with
  | task i v => exact hi.task hdone hs
  | process i chunk =>
    simp only [CopyChain.step] at hs
    split_ifs at hs with hp
    exact hi.process hwrite hp hs
  | ring h i timeout => exact hi.call hup hs

/-- The elements are about to be resumed. -/
theorem init (hrings : ∀ h, h + 1 < n → ∃ blockSize nBlocks allocated,
    rbCreate blockSize nBlocks allocated = some (rings h)) :
    Inv config rings source (start config rings source) := by
  have hempty : ∀ h, h + 1 < n → (rings h).Wf ∧ (rings h).contents = [] ∧
      (rings h).isDoneWrite = false ∧ (rings h).size < 2 ^ 32 := by
    intro h hh
    obtain ⟨blockSize, nBlocks, allocated, hcreate⟩ := hrings h hh
    obtain ⟨hwf, hfill, -, hdone, -⟩ := rbCreate_spec hcreate
    refine ⟨hwf, ?_, hdone, rbCreate_size hcreate⟩
    refine List.eq_nil_of_length_eq_zero ?_
    rw [hwf.length_contents, hfill]
  refine ⟨fun i => ⟨rfl, rfl, rfl, rfl⟩, fun h hh => ?_, fun i h hth => ?_, fun i => ?_⟩
  · exact ⟨RbSys.Held.init (hempty h hh).1, (hempty h hh).2.2.2⟩
  · exact absurd rfl hth
  · refine .live ⟨?_, nofun⟩ (fun _ => rfl) (fun h hout => ?_) ?_
    · exact ⟨nofun, Or.inr rfl, rfl⟩
    · exact (hempty h (outRing_eq_some.mp hout).2).2.2.1
    · show (start config rings source).given source i =
        (start config rings source).passed i ++ [] ++ (start config rings source).waiting i
      have hpassed : (start config rings source).passed i = [] := by
        unfold passed
        cases outRing i <;> rfl
      have hwaiting : (start config rings source).waiting i =
          (start config rings source).given source i := by
        unfold waiting given
        cases hin : inRing i with
        | none => rfl
        | some h => exact (hempty h (inside_in hin)).2.1
      rw [hpassed, hwaiting]
      rfl

/-! ### The end -/

/-- An element that has stored `is_done_write` has ended. -/
theorem ended_of_done (hi : Inv config rings source s) (hout : outRing i = some h)
    (hdone : (s.chain.ring h).sys.rb.isDoneWrite = true) :
    s.Flows source i [] ∧ s.Exhausted i := by
  have hrunning : ¬s.NotDone i := by
    intro hnot
    exact Bool.noConfusion ((hnot h hout).symm.trans hdone)
  cases hi.stage i with
  | live task rests notDone working => exact absurd notDone hrunning
  | failed task pc notDone => exact absurd notDone hrunning
  | ended task pc flows exhausted => exact ⟨flows, exhausted⟩

/-- An element that is finished has ended. -/
theorem ended_of_finished (hi : Inv config rings source s)
    (hstate : (s.chain.cell i).m.el.state = .finished) : s.Flows source i [] ∧ s.Exhausted i := by
  cases hi.stage i with
  | live task rests notDone working => exact absurd hstate task.not_finished
  | failed task pc notDone => exact (task.finishedFor.2 hstate).elim
  | ended task pc flows exhausted => exact ⟨flows, exhausted⟩

/-- The end of the last element is the end of all of them. -/
theorem all_ended (hi : Inv config rings source s)
    (hlast : ∀ i : Fin n, i.val + 1 = n → s.Flows source i [] ∧ s.Exhausted i) :
    ∀ d (i : Fin n), i.val + 1 + d = n → s.Flows source i [] ∧ s.Exhausted i := by
  intro d
  induction d with
  | zero => exact hlast
  | succ d ih =>
    intro i hd
    obtain ⟨-, hexhausted⟩ := ih ⟨i.val + 1, by omega⟩ (by dsimp only; omega)
    have hin : inRing (⟨i.val + 1, by omega⟩ : Fin n) = some i.val := inRing_eq_some.mpr rfl
    unfold Exhausted at hexhausted
    rw [hin] at hexhausted
    have hend : (s.chain.ring i.val).sys.rb.AtEnd := hexhausted
    exact hi.ended_of_done (outRing_eq_some.mpr ⟨rfl, by omega⟩) hend.1

/-- Each element has passed on the whole stream. -/
theorem passed_source (hi : Inv config rings source s)
    (hall : ∀ i : Fin n, s.Flows source i [] ∧ s.Exhausted i) :
    ∀ k (hk : k < n), s.passed ⟨k, hk⟩ = source := by
  have hpassed : ∀ i : Fin n, s.waiting i = [] → s.passed i = s.given source i := by
    intro i hwaiting
    have hflows := (hall i).1
    unfold Flows at hflows
    rw [hwaiting, List.append_nil, List.append_nil] at hflows
    exact hflows.symm
  intro k
  induction k with
  | zero =>
    intro hk
    have hx := (hall ⟨0, hk⟩).2
    exact hpassed ⟨0, hk⟩ hx
  | succ k ih =>
    intro hk
    have hin : inRing (⟨k + 1, hk⟩ : Fin n) = some k := inRing_eq_some.mpr rfl
    have hx := (hall ⟨k + 1, hk⟩).2
    unfold Exhausted at hx
    rw [hin] at hx
    have hend : (s.chain.ring k).sys.rb.AtEnd := hx
    have hwaiting : s.waiting ⟨k + 1, hk⟩ = [] := by
      unfold waiting
      rw [hin]
      show (s.chain.ring k).sys.rb.contents = []
      refine List.eq_nil_of_length_eq_zero ?_
      rw [(hi.held k hk).1.wf.length_contents]
      exact hend.2
    rw [hpassed _ hwaiting]
    -- what this element was given, the one before it has passed on
    have hbefore := ih (by omega)
    have hout : outRing (⟨k, by omega⟩ : Fin n) = some k := outRing_eq_some.mpr ⟨rfl, hk⟩
    unfold passed at hbefore
    rw [hout] at hbefore
    unfold given
    rw [hin]
    exact hbefore

end Inv

/-- **The end of the stream.**  In a run in which no `rb_write` is interrupted and no
`is_done_write` is stored in the wrong moment of a read, a sink that is finished has received
everything. -/
theorem end_of_stream (config : Fin n → AudioElementCfg) (rings : ℕ → Ringbuf)
    (source : List UInt8) (s : CopyChain n)
    (hrings : ∀ h, h + 1 < n → ∃ blockSize nBlocks allocated,
      rbCreate blockSize nBlocks allocated = some (rings h))
    (hwrite : ∀ i : Fin n, i.val + 1 = n → (config i).write = true)
    (hreach : Lts.Reach CopyChain.step (fun s l => s.Uninterrupted l ∧ s.NoHastyDone l)
      (start config rings source) s) : s.Complete source := by
  have hi : Inv config rings source s := by
    refine hreach.invariant (Inv.init hrings) ?_
    rintro s l s' hi ⟨hup, hdone⟩ hs
    exact hi.step hwrite hup hdone hs
  intro i hi' hstate
  have hended := hi.ended_of_finished hstate
  have hall : ∀ j : Fin n, s.Flows source j [] ∧ s.Exhausted j := by
    intro j
    refine hi.all_ended (fun i₂ hlast => ?_) (n - (j.val + 1)) j (by omega)
    have heq : i₂ = i := Fin.ext (by omega)
    rw [heq]
    exact hended
  refine ⟨?_, fun h hh => ?_⟩
  · have hpassed := hi.passed_source hall i.val i.isLt
    have hout : outRing i = none := by
      unfold outRing
      rw [if_neg (by omega)]
    unfold passed at hpassed
    rw [hout] at hpassed
    exact hpassed
  · have hx := (hall ⟨h + 1, hh⟩).2
    have hin : inRing (⟨h + 1, hh⟩ : Fin n) = some h := inRing_eq_some.mpr rfl
    unfold Exhausted at hx
    rw [hin] at hx
    exact hx

/-- Two elements that copy blocks of at most 8 bytes. -/
def twoCopies : CopyChain 2 :=
  start (fun _ => { plainCfg with bufferLen := 8 }) (fun _ => Ringbuf.empty 8) [1]

/-- The elements are opened, and the first has copied the only byte into the ring. -/
def oneByte : List (CopyChainLabel 2) :=
  List.replicate 5 (.task 0 1) ++ List.replicate 3 (.task 0 0) ++ List.replicate 5 (.task 1 1) ++
    List.replicate 3 (.task 1 0) ++ [.process 0 [1], .process 0 [], .ring 0 0 false,
    .ring 0 0 false, .process 0 []] ++ List.replicate 3 (.task 0 0)

/-- The second element copies the byte after the first one has come to its end. -/
theorem end_of_stream_one :
    ∃ s, Lts.Reach CopyChain.step (fun s l => s.Uninterrupted l ∧ s.NoHastyDone l) twoCopies s ∧
      (s.chain.cell 1).m.el.state = .finished ∧ s.Complete [1] := by
  obtain ⟨s, hs⟩ : ∃ s, Lts.run CopyChain.step (fun s l => s.Uninterrupted l ∧ s.NoHastyDone l)
      twoCopies (oneByte ++ [.process 0 [], .task 0 0, .task 0 0, .process 1 []] ++
        List.replicate 6 (.ring 0 1 false) ++ [.process 1 [], .process 1 []] ++
        List.replicate 3 (.task 1 0) ++ [.process 1 []] ++ List.replicate 4 (.ring 0 1 false) ++
        [.process 1 [], .task 1 0, .task 1 0]) = some s :=
    ⟨_, rfl⟩
  have hr := Lts.Reach.of_run _ Lts.Reach.refl hs
  refine ⟨s, hr, ?_, end_of_stream _ _ _ s (fun _ _ => ⟨8, 1, true, rfl⟩) (fun _ _ => rfl) hr⟩
  obtain rfl := Option.some.inj hs
  rfl

/-- The first element comes to its end between the two looks of the second one at
`is_done_write`. -/
theorem end_of_stream_hasty :
    ¬∀ (config : Fin 2 → AudioElementCfg) (rings : ℕ → Ringbuf) (source : List UInt8)
      (s : CopyChain 2),
      (∀ h, h + 1 < 2 → ∃ blockSize nBlocks allocated,
        rbCreate blockSize nBlocks allocated = some (rings h)) →
      (∀ i : Fin 2, i.val + 1 = 2 → (config i).write = true) →
      Lts.Reach CopyChain.step (fun s l => s.Uninterrupted l) (start config rings source) s →
      s.Complete source := by
  intro hall
  obtain ⟨s, hs⟩ : ∃ s, Lts.run CopyChain.step (fun s l => s.Uninterrupted l) twoCopies (oneByte ++
      [.process 1 [], .ring 0 1 false, .process 0 [], .task 0 0, .task 0 0, .ring 0 1 false,
        .ring 0 1 false, .ring 0 1 false, .process 1 [], .task 1 0, .task 1 0]) = some s :=
    ⟨_, rfl⟩
  have hr := Lts.Reach.of_run _ Lts.Reach.refl hs
  have hcomplete := hall _ _ _ s (fun _ _ => ⟨8, 1, true, rfl⟩) (fun _ _ => rfl) hr
  obtain rfl := Option.some.inj hs
  exact nomatch (hcomplete 1 rfl rfl).1

end CopyChain

end AudioPipeline
