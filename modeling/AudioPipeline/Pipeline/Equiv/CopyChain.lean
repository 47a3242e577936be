import AudioPipeline.Element.Equiv.Activity
import AudioPipeline.Pipeline.CopyChain
import AudioPipeline.Pipeline.Equiv.Chain
import AudioPipeline.Ringbuf.Equiv.Lossless

/-!
# The end of a stream in a chain of copy elements

The end of the stream travels apart from the bytes: an element stores `is_done_write` in its output
ring when its own input has come to the end, and the next element must not see it before the ring is
drained.

For each element, what it was given is what it has passed on, what it has in hand and what waits at
its input (`Flows`).  `Stage` says of each element that it works, has failed, or has ended, and then
its input is exhausted.

* `end_of_stream`: a sink that is finished has received everything, unless `is_done_write` is stored
  in the wrong moment of a read.
-/

namespace AudioPipeline

namespace CopyChain

variable {n : ℕ} {config : Fin n → AudioElementCfg} {rings : ℕ → Ringbuf} {source : List UInt8}
  {s s' : CopyChain n} {i j : Fin n} {h : ℕ}

/-! ### The runs in question, and what they promise -/

/-- No `rb_write` is aborted or runs into a timeout. -/
def Uninterrupted (s : CopyChain n) : CopyChainLabel n → Prop
  | .ring h i timeout => ¬((s.chain.ring h).sys.thread i).GivesUp (s.chain.ring h).sys.rb timeout
  | .task .. | .process .. => True

instance (s : CopyChain n) : DecidablePred s.Uninterrupted
  | .ring _ _ _ => inferInstanceAs (Decidable ¬_)
  | .task .. | .process .. => isTrue trivial

/-- An element that has come to its end does not store `is_done_write` while a reader that has found
1 to 3 bytes, and has none yet, is about to look at it again. -/
def NoHastyDone (s : CopyChain n) : CopyChainLabel n → Prop
  | .task i _ => (s.chain.cell i).task.Processing = true →
    s.pc i = .ret AEL_IO_DONE ∨ s.pc i = .ret AEL_IO_OK →
    ∀ h ∈ (s.chain.cell i).m.el.outputs, ∀ t, ((s.chain.ring h).sys.thread t).EmptyHanded →
      (s.chain.ring h).sys.rb.fillCnt = 0
  | .process .. | .ring .. => True

instance (s : CopyChain n) : DecidablePred s.NoHastyDone
  | .task _ _ => inferInstanceAs (Decidable (_ → _ → ∀ h ∈ _, _))
  | .process .. | .ring .. => isTrue trivial

/-- When the last element is finished, it has received what the source delivered, and each ring is
done and empty. -/
def Complete (source : List UInt8) (s : CopyChain n) : Prop :=
  ∀ i : Fin n, i.val + 1 = n → (s.chain.cell i).m.el.state = .finished →
    s.received = source ∧ ∀ h, h + 1 < n → (s.chain.ring h).sys.rb.AtEnd

/-! ### What an element is given and passes on -/

/-- The ring that element `i` reads. -/
def inRing (i : Fin n) : Option ℕ := if 0 < i.val then some (i.val - 1) else none

/-- The ring that element `i` writes. -/
def outRing (i : Fin n) : Option ℕ := if i.val + 1 < n then some i.val else none

theorem inRing_eq_some : inRing i = some h ↔ i.val = h + 1 := by
  unfold inRing
  split_ifs with hpos
  · rw [Option.some.injEq]
    omega
  · constructor
    · exact nofun
    · omega

theorem outRing_eq_some : outRing i = some h ↔ i.val = h ∧ h + 1 < n := by
  unfold outRing
  split_ifs with hlt
  · rw [Option.some.injEq]
    constructor
    · rintro rfl
      exact ⟨rfl, hlt⟩
    · exact And.left
  · constructor
    · exact nofun
    · omega

/-- The ring between two elements has room for no third. -/
theorem inRing_inj (hi : inRing i = some h) (hj : inRing j = some h) : i = j := by
  rw [inRing_eq_some] at hi hj
  exact Fin.ext (hi.trans hj.symm)

theorem inRing_none_inj (hi : inRing i = none) (hj : inRing j = none) : i = j := by
  unfold inRing at hi hj
  split_ifs at hi hj
  exact Fin.ext (by omega)

theorem outRing_inj (hi : outRing i = some h) (hj : outRing j = some h) : i = j := by
  rw [outRing_eq_some] at hi hj
  exact Fin.ext (hi.1.trans hj.1.symm)

theorem outRing_none_inj (hi : outRing i = none) (hj : outRing j = none) : i = j := by
  unfold outRing at hi hj
  split_ifs at hi hj
  exact Fin.ext (by omega)

/-- All that element `i` is to pass on, as far as it is known. -/
def given (source : List UInt8) (s : CopyChain n) (i : Fin n) : List UInt8 :=
  (inRing i).elim source fun h => (s.chain.ring h).sys.copiedIn

/-- What waits at the input of element `i`. -/
def waiting (s : CopyChain n) (i : Fin n) : List UInt8 :=
  (inRing i).elim s.source fun h => (s.chain.ring h).sys.rb.contents

/-- What element `i` has passed on. -/
def passed (s : CopyChain n) (i : Fin n) : List UInt8 :=
  (outRing i).elim s.received fun h => (s.chain.ring h).sys.copiedIn

/-- Element `i` has `block` in hand, and has lost nothing. -/
def Flows (source : List UInt8) (s : CopyChain n) (i : Fin n) (block : List UInt8) : Prop :=
  s.given source i = s.passed i ++ block ++ s.waiting i

/-- There will be nothing more at the input of element `i`. -/
def Exhausted (s : CopyChain n) (i : Fin n) : Prop :=
  (inRing i).elim (s.source = []) fun h => (s.chain.ring h).sys.rb.AtEnd

/-- What `_fatfs_process` has done where it stands. -/
def Working (source : List UInt8) (s : CopyChain n) (i : Fin n) : Prop :=
  match s.pc i with
  | .input => s.Flows source i []
  | .reading => ∃ h c, inRing i = some h ∧ (s.chain.ring h).sys.thread i = .reading c ∧
    c.Keeps (s.chain.ring h).sys.rb ∧ s.Flows source i c.buf
  | .output block => block ≠ [] ∧ s.Flows source i block
  | .writing => ∃ h c, outRing i = some h ∧ (s.chain.ring h).sys.thread i = .writing c ∧
    c.Puts ∧ s.Flows source i c.buf
  | .ret wSize => wSize = AEL_IO_ABORT ∨ wSize = AEL_IO_FAIL ∨
    s.Flows source i [] ∧ (wSize = AEL_IO_DONE ∨ wSize = AEL_IO_OK → s.Exhausted i)

/-- The writer of the output ring is not done. -/
def NotDone (s : CopyChain n) (i : Fin n) : Prop :=
  ∀ h, outRing i = some h → (s.chain.ring h).sys.rb.isDoneWrite = false

/-- How far element `i` is. -/
inductive Stage (source : List UInt8) (s : CopyChain n) (i : Fin n) : Prop
  | live (task : LiveTask (s.chain.view i).task (s.chain.view i).m)
    (rests : (s.chain.view i).task.Processing = false → s.pc i = .input) (notDone : s.NotDone i)
    (working : s.Working source i)
  | failed (task : TaskOk (overSpec False) (s.chain.view i).task (s.chain.view i).m)
    (pc : s.pc i = .input) (notDone : s.NotDone i)
  | ended (task : TaskOk (overSpec True) (s.chain.view i).task (s.chain.view i).m)
    (pc : s.pc i = .input) (flows : s.Flows source i []) (exhausted : s.Exhausted i)

/-! ### The others -/

/-- What the step of another element leaves of element `j` and of its two ends. -/
structure Undisturbed (source : List UInt8) (s s' : CopyChain n) (j : Fin n) : Prop where
  cell : s'.chain.cell j = s.chain.cell j
  pc : s'.pc j = s.pc j
  flows : ∀ block, s.Flows source j block → s'.Flows source j block
  exhausted : s.Exhausted j → s'.Exhausted j
  reader : ∀ h, inRing j = some h →
    (s'.chain.ring h).sys.thread j = (s.chain.ring h).sys.thread j ∧
    ∀ c, (s.chain.ring h).sys.thread j = .reading c → c.Keeps (s.chain.ring h).sys.rb →
      c.Keeps (s'.chain.ring h).sys.rb
  writer : ∀ h, outRing j = some h →
    (s'.chain.ring h).sys.thread j = (s.chain.ring h).sys.thread j ∧
    (s'.chain.ring h).sys.rb.isDoneWrite = (s.chain.ring h).sys.rb.isDoneWrite

theorem view_of_cell (hcell : s'.chain.cell j = s.chain.cell j) :
    (s'.chain.view j).task = (s.chain.view j).task ∧ (s'.chain.view j).m =
      { (s.chain.view j).m with rings := fun h => (s'.chain.ring h).sys.rb } := by
  unfold Chain.view
  rw [hcell]
  exact ⟨rfl, rfl⟩

theorem Working.others (hw : s.Working source j) (hu : Undisturbed source s s' j) :
    s'.Working source j := by
  unfold Working at hw ⊢
  rw [hu.pc]
  cases hpc : s.pc j with
  | input =>
    rw [hpc] at hw
    exact hu.flows _ hw
  | reading =>
    rw [hpc] at hw
    obtain ⟨h, c, hin, hth, hkeeps, hflows⟩ := hw
    obtain ⟨hsame, hkept⟩ := hu.reader h hin
    exact ⟨h, c, hin, hsame.trans hth, hkept c hth hkeeps, hu.flows _ hflows⟩
  | output block =>
    rw [hpc] at hw
    exact ⟨hw.1, hu.flows _ hw.2⟩
  | writing =>
    rw [hpc] at hw
    obtain ⟨h, c, hout, hth, hputs, hflows⟩ := hw
    exact ⟨h, c, hout, (hu.writer h hout).1.trans hth, hputs, hu.flows _ hflows⟩
  | ret wSize =>
    rw [hpc] at hw
    rcases hw with habort | hfail | ⟨hflows, hend⟩
    · exact Or.inl habort
    · exact Or.inr (Or.inl hfail)
    · exact Or.inr (Or.inr ⟨hu.flows _ hflows, fun hw => hu.exhausted (hend hw)⟩)

theorem NotDone.others (hd : s.NotDone j) (hu : Undisturbed source s s' j) : s'.NotDone j := by
  intro h hout
  rw [(hu.writer h hout).2]
  exact hd h hout

/-- **The others** leave an element at its stage. -/
theorem Stage.others (hs : s.Stage source j) (hu : Undisturbed source s s' j) :
    s'.Stage source j := by
  obtain ⟨htask, hm⟩ := view_of_cell hu.cell
  have hover : ∀ {E : Prop}, TaskOk (overSpec E) (s.chain.view j).task (s.chain.view j).m →
      TaskOk (overSpec E) (s'.chain.view j).task (s'.chain.view j).m := by
    intro E hok
    rw [htask, hm]
    exact hok.rely overSpec.valid rfl
  cases hs with
  | live task rests notDone working =>
    refine .live ?_ ?_ (notDone.others hu) (working.others hu)
    · rw [htask, hm]
      exact task.others _
    · rw [htask, hu.pc]
      exact rests
  | failed task pc notDone => exact .failed (hover task) (hu.pc.trans pc) (notDone.others hu)
  | ended task pc flows exhausted =>
    exact .ended (hover task) (hu.pc.trans pc) (hu.flows _ flows) (hu.exhausted exhausted)

/-! ### A step of a task -/

/-- What a step of the task of an element leaves of the rings: their bytes, and `is_done_write`, or
this is stored where no reader is about to be misled. -/
structure Marks (s : CopyChain n) (i : Fin n) (rings' : ℕ → Ringbuf) : Prop where
  bytes : ∀ h, SameBytes (s.chain.ring h).sys.rb (rings' h)
  done : ∀ h, (rings' h).isDoneWrite = (s.chain.ring h).sys.rb.isDoneWrite ∨
    outRing i = some h ∧ (rings' h).isDoneWrite = true ∧
      ∀ t c, (s.chain.ring h).sys.thread t = .reading c → c.EmptyHanded →
        (s.chain.ring h).sys.rb.fillCnt = 0

section Task

variable {e : ElSys}

theorem Marks.atEnd (hm : Marks s i e.m.rings) (hend : (s.chain.ring h).sys.rb.AtEnd) :
    (e.m.rings h).AtEnd := by
  refine ⟨?_, (hm.bytes h).fillCnt.trans hend.2⟩
  rcases hm.done h with hsame | ⟨-, hdone, -⟩
  · exact hsame.trans hend.1
  · exact hdone

theorem Marks.flows (hm : Marks s i e.m.rings) {block : List UInt8}
    (hf : s.Flows source j block) :
    (s.goto i .input (s.chain.put i e)).Flows source j block := by
  have hwaiting : (s.goto i .input (s.chain.put i e)).waiting j = s.waiting j := by
    show (inRing j).elim s.source (fun h => (e.m.rings h).contents) = (inRing j).elim s.source _
    cases inRing j with
    | none => rfl
    | some h => exact (hm.bytes h).contents
  unfold Flows
  rw [hwaiting]
  exact hf

theorem Marks.exhausted (hm : Marks s i e.m.rings) (hx : s.Exhausted j) :
    (s.goto i .input (s.chain.put i e)).Exhausted j := by
  show (inRing j).elim (s.source = []) (fun h => (e.m.rings h).AtEnd)
  unfold Exhausted at hx
  cases hin : inRing j with
  | none =>
    rw [hin] at hx
    exact hx
  | some h =>
    rw [hin] at hx
    exact hm.atEnd hx

theorem Marks.undisturbed (hm : Marks s i e.m.rings) (hij : j ≠ i) :
    Undisturbed source s (s.goto i .input (s.chain.put i e)) j where
  cell := Function.update_of_ne hij ..
  pc := Function.update_of_ne hij ..
  flows _ := hm.flows
  exhausted := hm.exhausted
  reader h _ := by
    refine ⟨rfl, fun c hth hkeeps => ?_⟩
    show c.Keeps (e.m.rings h)
    refine hkeeps.others hm.atEnd fun hempty hdone => ?_
    rw [(hm.bytes h).fillCnt]
    rcases hm.done h with hsame | ⟨-, -, hmisled⟩
    · exact hkeeps.found hempty (hsame.symm.trans hdone)
    · exact hmisled j c hth hempty
  writer h hout := by
    refine ⟨rfl, ?_⟩
    show (e.m.rings h).isDoneWrite = _
    rcases hm.done h with hsame | ⟨houti, -⟩
    · exact hsame
    · exact absurd (outRing_inj hout houti) hij

/-- A step that does not store `is_done_write`. -/
theorem marks_of_noneDone (hd : NoneDone (s.chain.view i).m.rings e.m.rings) :
    Marks s i e.m.rings :=
  ⟨hd.bytes, fun h => Or.inl (hd.done h)⟩

/-- The step that stores it, in the output rings. -/
theorem marks_of_done {a : ℤ}
    (houtputs : ∀ h ∈ (s.chain.cell i).m.el.outputs, outRing i = some h)
    (hmisled : ∀ h ∈ (s.chain.cell i).m.el.outputs, ∀ t,
      ((s.chain.ring h).sys.thread t).EmptyHanded → (s.chain.ring h).sys.rb.fillCnt = 0)
    (hrings : e.m.rings = (((s.chain.view i).m.answered a).onRings Ringbuf.doneWrite
      (s.chain.cell i).m.el.outputs).rings) : Marks s i e.m.rings := by
  constructor
  · intro h
    rw [hrings]
    exact onRings_keeps (I := SameBytes (s.chain.ring h).sys.rb)
      (fun rb hb => hb.trans (SameBytes.doneWrite rb)) _ (SameBytes.refl _)
  · intro h
    rw [hrings]
    by_cases hout : h ∈ (s.chain.cell i).m.el.outputs
    · refine Or.inr ⟨houtputs h hout, ?_, fun t c hth hempty => ?_⟩
      · exact onRings_makes (I := fun rb => rb.isDoneWrite = true) (fun _ => rfl) hout
      · refine hmisled h hout t ?_
        rw [hth]
        exact hempty
    · rw [onRings_rings _ _ _ hout]
      exact Or.inl rfl

theorem atProcess_of_processing {t : Task} {m : Mem} (ht : LiveTask t m)
    (hp : t.Processing = true) : t = .inProc atProcess := by
  cases t with
  | inProc p => rw [ht.inProc p rfl]
  | absent | begin | recv | inCmd | proc | leave | ending => exact nomatch hp

/-- What the task is answered. -/
theorem answer_cases {v a : ℤ} (ha : s.answer i v = some a) :
    (s.chain.view i).task.Processing = true ∧ s.pc i = .ret a ∨
      (s.chain.view i).task.Processing = false := by
  unfold answer at ha
  split_ifs at ha with hp
  · refine Or.inl ⟨hp, ?_⟩
    cases hpc : s.pc i with
    | ret wSize =>
      rw [hpc] at ha
      rw [Option.some.inj ha]
    | input | reading | output | writing =>
      rw [hpc] at ha
      exact nomatch ha
  · exact Or.inr (Bool.eq_false_iff.mpr hp)

/-- The element goes on. -/
theorem stage_live (htask : LiveTask e.task e.m) (hseg : liveSpec.seg (s.chain.view i).m e.m)
    (hnotDone : s.NotDone i) (hflows : s.Flows source i []) :
    (s.goto i .input (s.chain.put i e)).Stage source i := by
  have hview : (s.goto i .input (s.chain.put i e)).chain.view i = e := Chain.view_put_self ..
  have hpc : (s.goto i .input (s.chain.put i e)).pc i = .input := Function.update_self ..
  refine .live ?_ (fun _ => hpc) ?_ ?_
  · rw [hview]
    exact htask
  · intro h hout
    exact (hseg.2.done h).trans (hnotDone h hout)
  · unfold Working
    rw [hpc]
    exact (marks_of_noneDone hseg.2).flows hflows

/-- The element fails. -/
theorem stage_failed (htask : TaskOk (overSpec False) e.task e.m)
    (hseg : (overSpec False).seg (s.chain.view i).m e.m) (hnotDone : s.NotDone i) :
    (s.goto i .input (s.chain.put i e)).Stage source i := by
  have hview : (s.goto i .input (s.chain.put i e)).chain.view i = e := Chain.view_put_self ..
  refine .failed ?_ (Function.update_self ..) ?_
  · rw [hview]
    exact htask
  · intro h hout
    have hrings : e.m.rings h = (s.chain.ring h).sys.rb := congrFun hseg.2 h
    show (e.m.rings h).isDoneWrite = false
    rw [hrings]
    exact hnotDone h hout

/-- The element has come to its end. -/
theorem stage_ended (htask : TaskOk (overSpec True) e.task e.m) (hm : Marks s i e.m.rings)
    (hflows : s.Flows source i []) (hexhausted : s.Exhausted i) :
    (s.goto i .input (s.chain.put i e)).Stage source i := by
  have hview : (s.goto i .input (s.chain.put i e)).chain.view i = e := Chain.view_put_self ..
  refine .ended ?_ (Function.update_self ..) (hm.flows hflows) (hm.exhausted hexhausted)
  rw [hview]
  exact htask

/-- **A step of the task** of element `i`. -/
theorem Stage.task {v a : ℤ} (hst : s.Stage source i)
    (houtputs : ∀ h ∈ (s.chain.cell i).m.el.outputs, outRing i = some h)
    (hdone : s.NoHastyDone (.task i v)) (ha : s.answer i v = some a)
    (he : (s.chain.view i).task.step (s.chain.view i).m a = some (e.m, e.task)) :
    Marks s i e.m.rings ∧ SamePorts (s.chain.view i).m e.m ∧
      (s.goto i .input (s.chain.put i e)).Stage source i := by
  -- a stage that is live may end its activity, and one that has failed or ended stays so
  cases hst with
  | live task rests notDone working =>
    rcases answer_cases ha with ⟨hp, hpc⟩ | hp
    · -- `_fatfs_process` returns
      have ht : (s.chain.view i).task = .inProc atProcess := atProcess_of_processing task hp
      unfold Working at working
      rw [hpc] at working
      by_cases hends : EndsActivity a
      · rw [ht] at he
        have hlive : LiveTask (.inProc atProcess) (s.chain.view i).m := by
          rw [← ht]
          exact task
        by_cases hend : a = AEL_IO_DONE ∨ a = AEL_IO_OK
        · obtain ⟨hok, hports, hrings⟩ := hlive.finishes hend he
          have hm : Marks s i e.m.rings := by
            refine marks_of_done houtputs (fun h hout => ?_) hrings
            rcases hend with rfl | rfl
            · exact hdone hp (Or.inl hpc) h hout
            · exact hdone hp (Or.inr hpc) h hout
          have hflows : s.Flows source i [] ∧ s.Exhausted i := by
            rcases working with rfl | rfl | ⟨hflows, hx⟩
            · exact absurd hend (by decide)
            · exact absurd hend (by decide)
            · exact ⟨hflows, hx hend⟩
          refine ⟨hm, ?_, stage_ended hok hm hflows.1 hflows.2⟩
          rw [samePorts_iff, onRings_el, ← samePorts_iff] at hports
          exact ⟨hports.input, hports.output, hports.multiIn, hports.multiOut⟩
        · have hfails : ProcessFails a := by
            rcases hends with hd | ho | hf
            · exact absurd (Or.inl hd) hend
            · exact absurd (Or.inr ho) hend
            · exact hf
          obtain ⟨hok, hseg⟩ := hlive.fails hfails he
          refine ⟨marks_of_noneDone ?_, hseg.1, stage_failed hok hseg notDone⟩
          rw [hseg.2]
          exact NoneDone.refl _
      · obtain ⟨hlive, hseg⟩ := task.step (fun _ => hends) he
        refine ⟨marks_of_noneDone hseg.2, hseg.1, stage_live hlive hseg notDone ?_⟩
        rcases working with rfl | rfl | ⟨hflows, -⟩
        · exact absurd (Or.inr (Or.inr (Or.inl rfl))) hends
        · exact absurd (Or.inr (Or.inr (Or.inr (Or.inl rfl)))) hends
        · exact hflows
    · -- the task is somewhere else
      have hnot : (s.chain.view i).task = .inProc atProcess → ¬EndsActivity a := by
        intro ht
        rw [ht] at hp
        exact nomatch hp
      obtain ⟨hlive, hseg⟩ := task.step hnot he
      refine ⟨marks_of_noneDone hseg.2, hseg.1, stage_live hlive hseg notDone ?_⟩
      unfold Working at working
      rw [rests hp] at working
      exact working
  | failed task pc notDone =>
    obtain ⟨hok, hseg⟩ := task.step overSpec.valid rfl (fun _ _ _ _ _ => trivial) he
    refine ⟨marks_of_noneDone ?_, hseg.1, stage_failed hok hseg notDone⟩
    rw [hseg.2]
    exact NoneDone.refl _
  | ended task pc flows exhausted =>
    obtain ⟨hok, hseg⟩ := task.step overSpec.valid rfl (fun _ _ _ _ _ => trivial) he
    have hm : Marks s i e.m.rings := by
      refine marks_of_noneDone ?_
      rw [hseg.2]
      exact NoneDone.refl _
    exact ⟨hm, hseg.1, stage_ended hok hm flows exhausted⟩

end Task

/-! ### A step on a ring -/

/-- Ring `h` has become `ring`, and `_fatfs_process` of element `i` goes on at `pc`. -/
def onRing (s : CopyChain n) (i : Fin n) (pc : ProcessPc) (h : ℕ) (ring : RbTrace (Fin n)) :
    CopyChain n :=
  s.goto i pc { s.chain with ring := Function.update s.chain.ring h ring }

section Rings

variable {pc : ProcessPc} {ring : RbTrace (Fin n)} {k : ℕ}

@[simp] theorem onRing_self (s : CopyChain n) (i : Fin n) (pc : ProcessPc) (h : ℕ)
    (ring : RbTrace (Fin n)) : (s.onRing i pc h ring).chain.ring h = ring :=
  Function.update_self ..

theorem onRing_ne (hk : k ≠ h) : (s.onRing i pc h ring).chain.ring k = s.chain.ring k :=
  Function.update_of_ne hk ..

/-- What is looked up at one end of an element. -/
theorem elim_onRing {α : Type} (o : Option ℕ) (d : α) (f : RbTrace (Fin n) → α)
    (hf : o = some h → f ring = f (s.chain.ring h)) :
    (o.elim d fun k => f ((s.onRing i pc h ring).chain.ring k)) =
      o.elim d fun k => f (s.chain.ring k) := by
  cases o with
  | none => rfl
  | some k =>
    by_cases hk : k = h
    · subst hk
      show f ((s.onRing i pc k ring).chain.ring k) = f (s.chain.ring k)
      rw [onRing_self]
      exact hf rfl
    · show f ((s.onRing i pc h ring).chain.ring k) = f (s.chain.ring k)
      rw [onRing_ne hk]

/-- The others, when element `i` does something to the ring that it reads. -/
theorem undisturbed_read (hin : inRing i = some h)
    (hthread : ∀ t ≠ i, ring.sys.thread t = (s.chain.ring h).sys.thread t)
    (hcopied : ring.sys.copiedIn = (s.chain.ring h).sys.copiedIn)
    (hdone : ring.sys.rb.isDoneWrite = (s.chain.ring h).sys.rb.isDoneWrite) (hij : j ≠ i) :
    Undisturbed source s (s.onRing i pc h ring) j := by
  have hnot : inRing j ≠ some h := fun hj => hij (inRing_inj hj hin)
  refine ⟨rfl, Function.update_of_ne hij .., fun block hf => ?_, fun hx => ?_, fun k hk => ?_,
    fun k hk => ?_⟩
  · unfold Flows given passed waiting at hf ⊢
    rw [elim_onRing _ _ (fun ring => ring.sys.copiedIn) fun hj => absurd hj hnot,
      elim_onRing _ _ (fun ring => ring.sys.rb.contents) fun hj => absurd hj hnot,
      elim_onRing _ _ (fun ring => ring.sys.copiedIn) fun _ => hcopied]
    exact hf
  · unfold Exhausted at hx ⊢
    rw [elim_onRing _ _ (fun ring => ring.sys.rb.AtEnd) fun hj => absurd hj hnot]
    exact hx
  · have hkh : k ≠ h := fun heq => hnot (heq ▸ hk)
    rw [onRing_ne hkh]
    exact ⟨rfl, fun c _ hkeeps => hkeeps⟩
  · by_cases hkh : k = h
    · subst hkh
      rw [onRing_self]
      exact ⟨hthread j hij, hdone⟩
    · rw [onRing_ne hkh]
      exact ⟨rfl, rfl⟩

/-- The others, when element `i` does something to the ring that it writes. -/
theorem undisturbed_write {bytes : List UInt8} (hout : outRing i = some h)
    (hnotDone : (s.chain.ring h).sys.rb.isDoneWrite = false)
    (hthread : ∀ t ≠ i, ring.sys.thread t = (s.chain.ring h).sys.thread t)
    (hcopied : ring.sys.copiedIn = (s.chain.ring h).sys.copiedIn ++ bytes)
    (hcontents : ring.sys.rb.contents = (s.chain.ring h).sys.rb.contents ++ bytes)
    (hdone : ring.sys.rb.isDoneWrite = (s.chain.ring h).sys.rb.isDoneWrite) (hij : j ≠ i) :
    Undisturbed source s (s.onRing i pc h ring) j := by
  -- a ring has one writer, and is not at its end while that writer goes on
  have hnot : outRing j ≠ some h := fun hj => hij (outRing_inj hj hout)
  have hrunning : ¬(s.chain.ring h).sys.rb.AtEnd := by
    intro hend
    exact Bool.noConfusion (hnotDone.symm.trans hend.1)
  refine ⟨rfl, Function.update_of_ne hij .., fun block hf => ?_, fun hx => ?_, fun k hk => ?_,
    fun k hk => ?_⟩
  · unfold Flows passed at hf ⊢
    rw [elim_onRing _ _ (fun ring => ring.sys.copiedIn) fun hj => absurd hj hnot]
    by_cases hin : inRing j = some h
    · -- what is written to the ring is given to the next element, and waits for it
      have hgiven : (s.onRing i pc h ring).given source j = s.given source j ++ bytes := by
        unfold given
        rw [hin]
        show ((s.onRing i pc h ring).chain.ring h).sys.copiedIn = _
        rw [onRing_self]
        exact hcopied
      have hwaiting : (s.onRing i pc h ring).waiting j = s.waiting j ++ bytes := by
        unfold waiting
        rw [hin]
        show ((s.onRing i pc h ring).chain.ring h).sys.rb.contents = _
        rw [onRing_self]
        exact hcontents
      rw [hgiven, hwaiting, hf]
      show _ = s.passed j ++ block ++ (s.waiting j ++ bytes)
      rw [List.append_assoc _ _ bytes]
      rfl
    · unfold given waiting at hf ⊢
      rw [elim_onRing _ _ (fun ring => ring.sys.copiedIn) fun hj => absurd hj hin,
        elim_onRing _ _ (fun ring => ring.sys.rb.contents) fun hj => absurd hj hin]
      exact hf
  · unfold Exhausted at hx ⊢
    by_cases hin : inRing j = some h
    · rw [hin] at hx
      exact absurd hx hrunning
    · rw [elim_onRing _ _ (fun ring => ring.sys.rb.AtEnd) fun hj => absurd hj hin]
      exact hx
  · by_cases hkh : k = h
    · subst hkh
      rw [onRing_self]
      refine ⟨hthread j hij, fun c _ hkeeps => hkeeps.others (fun hend => ?_) fun _ hd => ?_⟩
      · exact absurd hend hrunning
      · rw [hdone, hnotDone] at hd
        exact nomatch hd
    · rw [onRing_ne hkh]
      exact ⟨rfl, fun c _ hkeeps => hkeeps⟩
  · have hkh : k ≠ h := fun heq => hnot (heq ▸ hk)
    rw [onRing_ne hkh]
    exact ⟨rfl, rfl⟩

end Rings

end CopyChain

end AudioPipeline
