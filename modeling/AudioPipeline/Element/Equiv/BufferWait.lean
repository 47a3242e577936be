import AudioPipeline.Element.BufferWait
import AudioPipeline.Ringbuf.Equiv.Lossless

/-!
## When a wait for a buffer level is answered

`audio_element_output` looks at the level once its `rb_write` has returned, and asks for more bytes
than the wait does.  `BufferWait.Noticed` says of a step that this misses nothing: the level is
reached, and passed, by the last bytes of an `rb_write` while the wait is on, and the ring holds
more than the level until the task has looked.

* `wait_answered`: in a run of such steps the wait is answered if the level is reached, and only if
  it is reached or an output call fails.
-/

namespace AudioPipeline

/-- The bytes that `rb_read` takes from the ring next. -/
def ReadCall.takes (c : ReadCall) : ℕ :=
  match c.pc with
  | .sized k => k
  | .lock | .release | .block | .err _ | .clear _ | .ret _ => 0

/-- `rb_write` is behind its loop. -/
def WriteCall.Leaves (c : WriteCall) : Prop :=
  match c.pc with
  | .err _ | .ret _ => True
  | .lock | .release | .block => False

/-- One step of `rb_write`, as the wait sees it: a thread behind the loop leaves the bytes alone,
and only the locked region puts some in. -/
theorem WriteCall.step_fill {rb rb' : Ringbuf} {c c' : WriteCall} {timeout : Bool} (hwf : rb.Wf)
    (hc : c.step rb timeout = some (rb', c')) :
    (c.Leaves → c'.Leaves ∧ rb'.fillCnt = rb.fillCnt) ∧
      (rb'.fillCnt ≠ rb.fillCnt → c.pc = .lock ∧ timeout = false ∧
        rb'.fillCnt = rb.fillCnt + rbWriteSize rb c.buf.length ∧
        (rbWriteSize rb c.buf.length = c.buf.length → c'.Leaves)) := by
  obtain ⟨k, -, -, hzero, -, -, -, hfill, -⟩ := WriteCall.step_data hwf hc
  unfold WriteCall.step at hc
  constructor
  · intro hleaves
    unfold WriteCall.Leaves at hleaves
    cases hpc : c.pc with
    | lock | release | block =>
      rw [hpc] at hleaves
      exact hleaves.elim
    | ret v =>
      rw [hpc] at hc
      exact nomatch hc
    | err v =>
      have hk : k = 0 := hzero (Or.inl (by rw [hpc]; nofun))
      rw [hpc] at hc
      dsimp only at hc
      refine ⟨?_, by omega⟩
      split_ifs at hc <;> obtain ⟨-, rfl⟩ := Prod.mk.inj (Option.some.inj hc) <;> exact trivial
  · intro hne
    have hmoves : ¬(c.pc ≠ .lock ∨ timeout = true) := by
      intro hstays
      have := hzero hstays
      omega
    obtain ⟨hpc, htimeout⟩ := not_or.mp hmoves
    have hlock : c.pc = .lock := not_not.mp hpc
    have hfalse : timeout = false := Bool.eq_false_iff.mpr htimeout
    rw [hlock, hfalse] at hc
    dsimp only at hc
    have hlocked : c.locked rb = (rb', c') := Option.some.inj hc
    obtain ⟨-, -, -, hsize, -⟩ := WriteCall.locked_data hwf c
    rw [hlocked] at hsize
    refine ⟨hlock, hfalse, hsize, fun hall => ?_⟩
    have hpos : rbWriteSize rb c.buf.length ≠ 0 := by
      intro h0
      rw [h0] at hsize
      exact hne hsize
    unfold WriteCall.locked at hlocked
    dsimp only at hlocked
    rw [if_neg hpos, hall, Nat.sub_self, if_pos rfl] at hlocked
    obtain rfl := (Prod.mk.inj hlocked).2
    exact trivial

/-- The task is still to look at the level. -/
def OutputPc.Looks : OutputPc → Bool
  | .writing | .wrote _ => true
  | .idle | .compare _ _ | .set => false

namespace BufferWait

variable {ι : Type} [DecidableEq ι]

/-- The level was reached, and the wait is not answered yet. -/
def Pending (s : BufferWait ι) : Prop :=
  s.wait = .waiting ∧ s.reached = true ∧ s.reachLevel = false

/-- The locked region of `rb_write` brings the ring to the level. -/
def Crosses (s : BufferWait ι) (c : WriteCall) : Prop :=
  s.Waits ∧ s.reached = false ∧
    s.outBufSizeExpect ≤ s.ring.rb.fillCnt + rbWriteSize s.ring.rb c.buf.length

/-- It is the last one of its call, leaves more bytes than the level, and comes after the bit was
cleared. -/
def Fills (s : BufferWait ι) (c : WriteCall) : Prop :=
  s.wait = .waiting ∧ rbWriteSize s.ring.rb c.buf.length = c.buf.length ∧
    s.outBufSizeExpect < s.ring.rb.fillCnt + c.buf.length

instance (s : BufferWait ι) : Decidable s.Pending := inferInstanceAs (Decidable (_ ∧ _ ∧ _))

instance (s : BufferWait ι) (c : WriteCall) : Decidable (s.Crosses c) :=
  inferInstanceAs (Decidable (_ ∧ _ ∧ _))

instance (s : BufferWait ι) (c : WriteCall) : Decidable (s.Fills c) :=
  inferInstanceAs (Decidable (_ ∧ _ ∧ _))

/-- With this many bytes in the ring the task finds more than the level, if it is still to look. -/
def Keeps (s : BufferWait ι) (fillCnt : ℕ) : Prop :=
  s.output.Looks = true → s.outBufSizeExpect < fillCnt

instance (s : BufferWait ι) (fillCnt : ℕ) : Decidable (s.Keeps fillCnt) :=
  inferInstanceAs (Decidable (_ → _))

/-- A thread at the ring: a reader leaves more than the level while the wait is due, and a writer
fills the ring to the level with its last bytes. -/
def ThreadNoticed (s : BufferWait ι) (timeout : Bool) : RbThread → Prop
  | .reading c => s.Pending → s.Keeps (s.ring.rb.fillCnt - c.takes)
  | .writing c => c.pc = .lock → timeout = false → s.Crosses c → s.Fills c
  | .idle | .control _ _ => True

instance (s : BufferWait ι) (timeout : Bool) : ∀ th, Decidable (s.ThreadNoticed timeout th)
  | .reading c => inferInstanceAs (Decidable (s.Pending → s.Keeps (s.ring.rb.fillCnt - c.takes)))
  | .writing c =>
    inferInstanceAs (Decidable (c.pc = .lock → timeout = false → s.Crosses c → s.Fills c))
  | .idle | .control _ _ => isTrue trivial

/-- **A step that misses no level.** -/
def Noticed (s : BufferWait ι) : BufferWaitLabel ι → Prop
  | .call sizeExpect =>
    (s.ring.rb.fillCnt : ℤ) < sizeExpect ∧ (s.output = .idle ∨ s.output = .writing)
  | .wait timeout => s.Pending → timeout = false
  | .ring .reset => s.Pending → s.Keeps 0
  | .ring (.step t timeout) => s.ThreadNoticed timeout (s.ring.thread t)
  | .ring (.read _ _) | .ring (.write _ _) | .ring (.control _ _) | .output _ | .task => True

instance (s : BufferWait ι) : ∀ l, Decidable (s.Noticed l)
  | .call sizeExpect => inferInstanceAs (Decidable ((s.ring.rb.fillCnt : ℤ) < sizeExpect ∧ _))
  | .wait timeout => inferInstanceAs (Decidable (s.Pending → timeout = false))
  | .ring .reset => inferInstanceAs (Decidable (s.Pending → s.Keeps 0))
  | .ring (.step t timeout) =>
    inferInstanceAs (Decidable (s.ThreadNoticed timeout (s.ring.thread t)))
  | .ring (.read _ _) | .ring (.write _ _) | .ring (.control _ _) | .output _ | .task =>
    isTrue trivial

/-- The steps of the waiting thread and the element task. -/
def Own (task : ι) (l : BufferWaitLabel ι) : Prop :=
  l = .wait false ∨ l = .task ∨ l = .ring (.step task false)

/-- **The wait works.** If the level was reached, the wait has returned `ESP_OK`, or the element
task and the waiting thread bring it to that; and it returns `ESP_OK` only if the level was reached
or an output call failed. -/
structure Answered (task : ι) (s : BufferWait ι) : Prop where
  answers : s.reached = true → ∃ s', Lts.Reach (step task) (fun _ => Own task) s s' ∧
    s'.wait = .returned ESP_OK
  returns : s.reached = true → ∀ ret, s.wait = .returned ret → ret = ESP_OK
  only : s.wait = .returned ESP_OK → s.reached = true ∨ s.failed = true

variable {task : ι} {s s' : BufferWait ι}

/-! ### The invariant -/

/-- The task comes to set the bit without help. -/
def TaskDue (task : ι) (s : BufferWait ι) : Prop :=
  match s.output with
  | .idle => False
  | .writing => ∃ c, s.ring.thread task = .writing c ∧ c.Leaves ∧
      s.outBufSizeExpect < s.ring.rb.fillCnt
  | .wrote _ => s.outBufSizeExpect < s.ring.rb.fillCnt
  | .compare _ filled => s.outBufSizeExpect < filled
  | .set => True

/-- The bit is set, or comes to be. -/
def Due (task : ι) (s : BufferWait ι) : Prop := s.reachLevel = true ∨ s.TaskDue task

/-- What the answer to a wait may be due to. -/
def Cause (s : BufferWait ι) : Prop := s.reached = true ∨ s.failed = true

/-- What holds of a wait apart from the state that it is in now. -/
structure Base (task : ι) (s : BufferWait ι) : Prop where
  held : s.ring.Held
  writer : ∀ t c, s.ring.thread t = .writing c → t = task ∧ s.output = .writing
  writing : s.output = .writing → ∃ c, s.ring.thread task = .writing c
  due : s.reached = true → s.wait = .returned ESP_OK ∨ s.wait = .waiting ∧ s.Due task
  wrote : s.Waits → ∀ len, s.output = .wrote len → len < 0 → s.failed = true
  compared : s.Waits → ∀ len filled, s.output = .compare len filled →
    (s.outBufSizeExpect < filled → s.reached = true) ∧ (len < 0 → s.failed = true)
  sets : s.Waits → s.output = .set → s.Cause
  bit : s.wait = .waiting → s.reachLevel = true → s.Cause
  ret : s.wait = .returned ESP_OK → s.Cause

/-- **The invariant**: a level that the ring has now is noted. -/
structure Inv (task : ι) (s : BufferWait ι) : Prop extends Base task s where
  level : s.Waits → s.AtLevel → s.reached = true

omit [DecidableEq ι] in
/-- The level is noted: nothing changes, or the answer is due from now on. -/
theorem Base.observe (h : s.Base task)
    (hnew : s.reached = false → s.Waits → s.AtLevel → s.wait = .waiting ∧ s.Due task) :
    s.observe.Inv task := by
  have hmono : s.reached = true → s.observe.reached = true := by
    intro hr
    show (s.reached || _) = true
    rw [hr]
    rfl
  have hcause : s.Cause → s.observe.Cause := Or.imp_left hmono
  refine
    { held := h.held
      writer := h.writer
      writing := h.writing
      due := fun hr => ?_
      wrote := h.wrote
      compared := fun hw len filled ho => ?_
      sets := fun hw ho => hcause (h.sets hw ho)
      bit := fun hw hb => hcause (h.bit hw hb)
      ret := fun hret => hcause (h.ret hret)
      level := fun hw hl => ?_ }
  · cases hold : s.reached with
    | true => exact h.due hold
    | false =>
      have hnow : (s.reached || decide (s.Waits ∧ s.AtLevel)) = true := hr
      rw [hold, Bool.false_or, decide_eq_true_eq] at hnow
      exact Or.inr (hnew hold hnow.1 hnow.2)
  · obtain ⟨hlevel, hfail⟩ := h.compared hw len filled ho
    exact ⟨fun hlt => hmono (hlevel hlt), hfail⟩
  · show (s.reached || decide (s.Waits ∧ s.AtLevel)) = true
    rw [decide_eq_true (show s.Waits ∧ s.AtLevel from ⟨hw, hl⟩), Bool.or_true]

omit [DecidableEq ι] in
/-- A wait that is due finds enough in the ring. -/
theorem Inv.keeps (h : s.Inv task) (hp : s.Pending) : s.Keeps s.ring.rb.fillCnt := by
  obtain ⟨hwait, hreached, hbit⟩ := hp
  have hdue : s.TaskDue task := by
    rcases h.due hreached with hret | ⟨-, hset | hdue⟩
    · rw [hwait] at hret
      exact nomatch hret
    · rw [hbit] at hset
      exact nomatch hset
    · exact hdue
  intro hlooks
  unfold TaskDue at hdue
  cases ho : s.output with
  | idle | compare _ _ | set =>
    rw [ho] at hlooks
    exact nomatch hlooks
  | writing =>
    rw [ho] at hdue
    obtain ⟨-, -, -, hlevel⟩ := hdue
    exact hlevel
  | wrote _ =>
    rw [ho] at hdue
    exact hdue

/-- The ring holds no more bytes than before, and enough if the wait is due. -/
def Quiet (s : BufferWait ι) (ring : RbSys ι) : Prop :=
  ring.rb.fillCnt ≤ s.ring.rb.fillCnt ∧ (s.Pending → s.Keeps ring.rb.fillCnt) ∧
    ∀ t c, ring.thread t = .writing c ↔ s.ring.thread t = .writing c

omit [DecidableEq ι] in
/-- **A step at the ring that writes nothing.** -/
theorem Inv.quiet {ring : RbSys ι} (h : s.Inv task) (hheld : ring.Held) (hq : s.Quiet ring) :
    ({ s with ring := ring }.observe : BufferWait ι).Inv task := by
  obtain ⟨hle, hkeeps, hthread⟩ := hq
  refine Base.observe
    { held := hheld
      writer := fun t c hc => h.writer t c ((hthread t c).mp hc)
      writing := fun ho => ?_
      due := fun hr => ?_
      wrote := h.wrote
      compared := h.compared
      sets := h.sets
      bit := h.bit
      ret := h.ret } ?_
  · obtain ⟨c, hc⟩ := h.writing ho
    exact ⟨c, (hthread task c).mpr hc⟩
  · rcases h.due hr with hret | ⟨hw, hdue⟩
    · exact Or.inl hret
    · refine Or.inr ⟨hw, ?_⟩
      by_cases hbit : s.reachLevel = true
      · exact Or.inl hbit
      · have hlevel := hkeeps ⟨hw, hr, Bool.eq_false_iff.mpr hbit⟩
        have htask := hdue.resolve_left hbit
        refine Or.inr ?_
        unfold TaskDue at htask ⊢
        dsimp only
        cases ho : s.output with
        | idle | compare _ _ | set =>
          rw [ho] at htask
          exact htask
        | writing =>
          rw [ho] at htask
          obtain ⟨c, hc, hleaves, -⟩ := htask
          exact ⟨c, (hthread task c).mpr hc, hleaves, hlevel (by rw [ho]; rfl)⟩
        | wrote _ => exact hlevel (by rw [ho]; rfl)
  · intro hr hw hl
    have hbefore : s.AtLevel := by
      have hl' : s.outBufSizeExpect ≤ ring.rb.fillCnt := hl
      show s.outBufSizeExpect ≤ s.ring.rb.fillCnt
      omega
    exact absurd (h.level hw hbefore) (Bool.eq_false_iff.mp hr)

/-! ### The steps -/

/-- A wait is called. -/
theorem Inv.call {sizeExpect : ℤ} (h : s.Inv task) (hl : s.Noticed (.call sizeExpect))
    (hs : s.move task (.call sizeExpect) = some s') : s'.observe.Inv task := by
  simp only [move] at hs
  split_ifs at hs
  obtain rfl := Option.some.inj hs
  obtain ⟨hfill, houtput⟩ := hl
  have hpast : s.output ≠ .set ∧ (∀ len, s.output ≠ .wrote len) ∧
      ∀ len filled, s.output ≠ .compare len filled := by
    rcases houtput with ho | ho <;> simp [ho]
  refine Base.observe
    { held := h.held
      writer := h.writer
      writing := h.writing
      due := nofun
      wrote := fun _ len ho => absurd ho (hpast.2.1 len)
      compared := fun _ len filled ho => absurd ho (hpast.2.2 len filled)
      sets := fun _ ho => absurd ho hpast.1
      bit := nofun
      ret := nofun } ?_
  intro _ _ hlevel
  exact absurd hfill (not_lt.mpr hlevel)

omit [DecidableEq ι] in
/-- The bit is cleared, or the wait returns. -/
theorem Inv.moveWait {timeout : Bool} (h : s.Inv task) (hl : s.Noticed (.wait timeout))
    (hs : s.moveWait timeout = some s') : s'.observe.Inv task := by
  unfold BufferWait.moveWait at hs
  cases hwait : s.wait with
  | idle | returned _ =>
    rw [hwait] at hs
    exact nomatch hs
  | stored =>
    rw [hwait] at hs
    obtain rfl := Option.some.inj hs
    have hwaits : s.Waits := Or.inl hwait
    have hbelow : s.reached ≠ true := by
      intro hr
      rcases h.due hr with hret | ⟨hw, -⟩
      · rw [hwait] at hret
        exact nomatch hret
      · rw [hwait] at hw
        exact nomatch hw
    refine Base.observe
      { held := h.held
        writer := h.writer
        writing := h.writing
        due := fun hr => absurd hr hbelow
        wrote := fun _ => h.wrote hwaits
        compared := fun _ => h.compared hwaits
        sets := fun _ => h.sets hwaits
        bit := nofun
        ret := nofun } ?_
    intro _ _ hlevel
    exact absurd (h.level hwaits hlevel) hbelow
  | waiting =>
    rw [hwait] at hs
    dsimp only at hs
    have hout : ∀ ret, ¬({ s with wait := .returned ret } : BufferWait ι).Waits := by
      rintro ret (hw | hw) <;> exact nomatch hw
    -- the wait returns with the bit, or times out
    split_ifs at hs with hgo hbit
    · obtain rfl := Option.some.inj hs
      refine Base.observe
        { held := h.held
          writer := h.writer
          writing := h.writing
          due := fun _ => Or.inl rfl
          wrote := fun hw => absurd hw (hout _)
          compared := fun hw => absurd hw (hout _)
          sets := fun hw => absurd hw (hout _)
          bit := nofun
          ret := fun _ => h.bit hwait hbit } ?_
      exact fun _ hw => absurd hw (hout _)
    · obtain rfl := Option.some.inj hs
      refine Base.observe
        { held := h.held
          writer := h.writer
          writing := h.writing
          due := fun hr => ?_
          wrote := fun hw => absurd hw (hout _)
          compared := fun hw => absurd hw (hout _)
          sets := fun hw => absurd hw (hout _)
          bit := nofun
          ret := fun hret => ?_ } ?_
      · -- a wait that is due does not time out
        have htimeout := hl ⟨hwait, hr, Bool.eq_false_iff.mpr hbit⟩
        rw [htimeout] at hgo
        exact absurd (hgo.resolve_right Bool.false_ne_true) hbit
      · exact absurd (BufferWaitPc.returned.inj hret) (by decide)
      · exact fun _ hw => absurd hw (hout _)

/-- `audio_element_output` is called. -/
theorem Inv.output {bytes : List UInt8} (h : s.Inv task)
    (hs : s.move task (.output bytes) = some s') : s'.observe.Inv task := by
  simp only [move] at hs
  split_ifs at hs with hidle hempty
  · -- there is nothing to write
    obtain rfl := Option.some.inj hs
    exact Base.observe h.toBase fun hr hw hl => absurd (h.level hw hl) (Bool.eq_false_iff.mp hr)
  obtain ⟨ring, hring, rfl⟩ := Option.map_eq_some_iff.mp hs
  have hheld := h.held.step hring
  obtain rfl := RbSys.step_write hring
  -- the task is in `rb_write` now, and owes nothing before it is back
  refine Base.observe
    { held := hheld
      writer := fun t c hc => ?_
      writing := fun _ => ⟨rbWrite bytes, RbSys.goto_thread_self ..⟩
      due := fun hr => ?_
      wrote := nofun
      compared := nofun
      sets := nofun
      bit := h.bit
      ret := h.ret } ?_
  · refine ⟨?_, rfl⟩
    by_contra hne
    rw [RbSys.goto_thread_ne hne] at hc
    have hbusy := (h.writer t c hc).2
    rw [hidle] at hbusy
    exact nomatch hbusy
  · rcases h.due hr with hret | ⟨hw, hdue⟩
    · exact Or.inl hret
    · refine Or.inr ⟨hw, Or.inl (hdue.resolve_right ?_)⟩
      unfold TaskDue
      rw [hidle]
      exact id
  · intro hr hw hlevel
    exact absurd (h.level hw hlevel) (Bool.eq_false_iff.mp hr)

omit [DecidableEq ι] in
/-- The task moves on behind its `rb_write`. -/
theorem Inv.moveTask (h : s.Inv task) (hs : s.moveTask = some s') : s'.observe.Inv task := by
  unfold BufferWait.moveTask at hs
  have hlevel : ∀ output bit,
      ({ s with output := output, reachLevel := bit } : BufferWait ι).reached
      = false → s.Waits → s.AtLevel → s.wait = .waiting ∧
        ({ s with output := output, reachLevel := bit } : BufferWait ι).Due task := by
    intro output bit hr hw hl
    exact absurd (h.level hw hl) (Bool.eq_false_iff.mp hr)
  -- the task owes the bit from its return of `rb_write` on, up to the set
  cases houtput : s.output with
  | idle | writing =>
    rw [houtput] at hs
    exact nomatch hs
  | wrote len =>
    rw [houtput] at hs
    obtain rfl := Option.some.inj hs
    refine Base.observe
      { held := h.held
        writer := fun t c hc => absurd (h.writer t c hc).2 (by rw [houtput]; nofun)
        writing := nofun
        due := fun hr => ?_
        wrote := nofun
        compared := fun hw len' filled ho => ?_
        sets := nofun
        bit := h.bit
        ret := h.ret } (hlevel _ s.reachLevel)
    · rcases h.due hr with hret | ⟨hw, hbit | hdue⟩
      · exact Or.inl hret
      · exact Or.inr ⟨hw, Or.inl hbit⟩
      · unfold TaskDue at hdue
        rw [houtput] at hdue
        exact Or.inr ⟨hw, Or.inr hdue⟩
    · obtain ⟨rfl, rfl⟩ := OutputPc.compare.inj ho
      exact ⟨fun hlt => h.level hw hlt.le, h.wrote hw len houtput⟩
  | compare len filled =>
    rw [houtput] at hs
    dsimp only at hs
    split_ifs at hs with hgo
    · obtain rfl := Option.some.inj hs
      refine Base.observe
        { held := h.held
          writer := fun t c hc => absurd (h.writer t c hc).2 (by rw [houtput]; nofun)
          writing := nofun
          due := fun hr => ?_
          wrote := nofun
          compared := nofun
          sets := fun hw _ => ?_
          bit := h.bit
          ret := h.ret } (hlevel _ s.reachLevel)
      · rcases h.due hr with hret | ⟨hw, -⟩
        · exact Or.inl hret
        · exact Or.inr ⟨hw, Or.inr trivial⟩
      · obtain ⟨hlt, hneg⟩ := h.compared hw len filled houtput
        exact Or.imp hlt hneg hgo
    · obtain rfl := Option.some.inj hs
      refine Base.observe
        { held := h.held
          writer := fun t c hc => absurd (h.writer t c hc).2 (by rw [houtput]; nofun)
          writing := nofun
          due := fun hr => ?_
          wrote := nofun
          compared := nofun
          sets := nofun
          bit := h.bit
          ret := h.ret } (hlevel _ s.reachLevel)
      rcases h.due hr with hret | ⟨hw, hbit | hdue⟩
      · exact Or.inl hret
      · exact Or.inr ⟨hw, Or.inl hbit⟩
      · unfold TaskDue at hdue
        rw [houtput] at hdue
        exact absurd (Or.inl hdue) hgo
  | set =>
    rw [houtput] at hs
    obtain rfl := Option.some.inj hs
    refine Base.observe
      { held := h.held
        writer := fun t c hc => absurd (h.writer t c hc).2 (by rw [houtput]; nofun)
        writing := nofun
        due := fun hr => ?_
        wrote := nofun
        compared := nofun
        sets := nofun
        bit := fun hw _ => h.sets (Or.inr hw) houtput
        ret := h.ret } (hlevel _ true)
    rcases h.due hr with hret | ⟨hw, -⟩
    · exact Or.inl hret
    · exact Or.inr ⟨hw, Or.inl rfl⟩

/-- The element task returns from `rb_write`. -/
theorem Inv.returned {timeout : Bool} {c : WriteCall} {v : ℤ} (h : s.Inv task)
    (hth : s.ring.thread task = .writing c) (hpc : c.pc = .ret v)
    (hs : s.moveRing task (.step task timeout) = some s') : s'.observe.Inv task := by
  obtain ⟨ring, hring, hmove⟩ := Option.map_eq_some_iff.mp hs
  have hheld := h.held.step hring
  obtain rfl := RbSys.step_writeReturn hth hpc hring
  have hreturns : s.returns task (.step task timeout) = some v := by
    simp only [returns, hth, hpc, if_true]
  rw [hreturns] at hmove
  obtain rfl := hmove
  have houtput := (h.writer task c hth).2
  have hcause : s.Cause → s.reached = true ∨ (s.failed || decide (s.Waits ∧ v < 0)) = true :=
    Or.imp_right fun hf => by rw [hf, Bool.true_or]
  refine Base.observe
    { held := hheld
      writer := fun u d hd => ?_
      writing := nofun
      due := fun hr => ?_
      wrote := fun hw len ho hneg => ?_
      compared := nofun
      sets := nofun
      bit := fun hw hb => hcause (h.bit hw hb)
      ret := fun hret => hcause (h.ret hret) } ?_
  · by_cases hu : u = task
    · subst hu
      rw [RbSys.goto_thread_self] at hd
      exact nomatch hd
    · rw [RbSys.goto_thread_ne hu] at hd
      exact absurd (h.writer u d hd).1 hu
  · rcases h.due hr with hret | ⟨hw, hbit | hdue⟩
    · exact Or.inl hret
    · exact Or.inr ⟨hw, Or.inl hbit⟩
    · unfold TaskDue at hdue
      rw [houtput] at hdue
      obtain ⟨-, -, -, hfill⟩ := hdue
      exact Or.inr ⟨hw, Or.inr hfill⟩
  · obtain rfl := OutputPc.wrote.inj ho
    show (s.failed || decide (s.Waits ∧ v < 0)) = true
    rw [decide_eq_true (show s.Waits ∧ v < 0 from ⟨hw, hneg⟩), Bool.or_true]
  · intro hr hw hlevel
    exact absurd (h.level hw hlevel) (Bool.eq_false_iff.mp hr)

/-- **The element task moves on in `rb_write`.** -/
theorem Inv.writes {timeout : Bool} {c : WriteCall} (h : s.Inv task)
    (hl : s.ThreadNoticed timeout (.writing c)) (hth : s.ring.thread task = .writing c)
    (hpc : ∀ v, c.pc ≠ .ret v) (hs : s.moveRing task (.step task timeout) = some s') :
    s'.observe.Inv task := by
  obtain ⟨ring, hring, hmove⟩ := Option.map_eq_some_iff.mp hs
  have hheld := h.held.step hring
  obtain ⟨c', bytes, hc, hm⟩ := RbSys.step_writing h.held hth hpc hring
  obtain ⟨hleaves, hputs⟩ := WriteCall.step_fill h.held.wf hc
  have hreturns : s.returns task (.step task timeout) = none := by
    cases hat : c.pc with
    | ret v => exact absurd hat (hpc v)
    | lock | release | block | err _ => simp only [returns, hth, hat, if_true]
  rw [hreturns] at hmove
  obtain rfl := hmove
  have houtput := (h.writer task c hth).2
  have hth' : ring.thread task = .writing c' := by rw [hm.thread, Function.update_self]
  refine Base.observe
    { held := hheld
      writer := fun u d hd => ?_
      writing := fun _ => ⟨c', hth'⟩
      due := fun hr => ?_
      wrote := h.wrote
      compared := h.compared
      sets := h.sets
      bit := h.bit
      ret := h.ret } ?_
  · refine ⟨?_, houtput⟩
    by_contra hu
    have hd' : ring.thread u = .writing d := hd
    rw [hm.thread, Function.update_of_ne hu] at hd'
    exact hu (h.writer u d hd').1
  · rcases h.due hr with hret | ⟨hw, hbit | hdue⟩
    · exact Or.inl hret
    · exact Or.inr ⟨hw, Or.inl hbit⟩
    · -- the call is behind its loop, so that it puts nothing in any more
      unfold TaskDue at hdue
      rw [houtput] at hdue
      obtain ⟨d, hd, hd', hfill⟩ := hdue
      obtain rfl : c = d := RbThread.writing.inj (hth.symm.trans hd)
      obtain ⟨hnext, hsame⟩ := hleaves hd'
      refine Or.inr ⟨hw, Or.inr ?_⟩
      unfold TaskDue
      dsimp only
      rw [houtput]
      exact ⟨c', hth', hnext, by rw [hsame]; exact hfill⟩
  · intro hr hw hlevel
    -- the bit is not set, so that the level is reached by this step, which puts bytes in
    have hbelow : ¬s.AtLevel := fun hat => absurd (h.level hw hat) (Bool.eq_false_iff.mp hr)
    have hlevel' : s.outBufSizeExpect ≤ ring.rb.fillCnt := hlevel
    have hmore : ring.rb.fillCnt ≠ s.ring.rb.fillCnt := by
      intro heq
      rw [heq] at hlevel'
      exact hbelow hlevel'
    obtain ⟨hlock, htimeout, hsize, hlast⟩ := hputs hmore
    rw [hsize] at hlevel'
    push_cast at hlevel'
    -- the condition of the run says that these are the last bytes of the call
    obtain ⟨hwait, hall, hover⟩ := hl hlock htimeout ⟨hw, hr, hlevel'⟩
    refine ⟨hwait, Or.inr ?_⟩
    unfold TaskDue
    dsimp only
    rw [houtput]
    refine ⟨c', hth', hlast hall, ?_⟩
    rw [hsize, hall]
    push_cast
    exact hover

omit [DecidableEq ι] in
/-- Neither call of a thread is one of `rb_write`. -/
theorem Quiet.update {ring : RbSys ι} {t : ι} {th : RbThread} [DecidableEq ι]
    (hle : ring.rb.fillCnt ≤ s.ring.rb.fillCnt)
    (hkeeps : s.Pending → s.Keeps ring.rb.fillCnt)
    (hthread : ring.thread = Function.update s.ring.thread t th) (hnew : ∀ c, th ≠ .writing c)
    (hold : ∀ c, s.ring.thread t ≠ .writing c) : s.Quiet ring := by
  refine ⟨hle, hkeeps, fun u c => ?_⟩
  rw [hthread]
  by_cases hu : u = t
  · subst hu
    rw [Function.update_self]
    exact iff_of_false (hnew c) (hold c)
  · rw [Function.update_of_ne hu]

/-- Nothing is returned to the task but by its `rb_write`. -/
theorem returns_eq_none {t : ι} {timeout : Bool} (h : ∀ c, s.ring.thread t ≠ .writing c) :
    s.returns task (.step t timeout) = none := by
  simp only [returns]
  split_ifs
  · cases hth : s.ring.thread t with
    | writing c => exact absurd hth (h c)
    | idle | reading _ | control _ _ => rfl
  · rfl

/-- **A thread moves at the ring**, on its own in `rb_read` or in a control call. -/
theorem quiet_step {t : ι} {timeout : Bool} {ring : RbSys ι} (h : s.Inv task)
    (hl : s.ThreadNoticed timeout (s.ring.thread t)) (hold : ∀ c, s.ring.thread t ≠ .writing c)
    (hs : s.ring.step (.step t timeout) = some ring) : s.Quiet ring := by
  simp only [RbSys.step] at hs
  cases hth : s.ring.thread t with
  | idle =>
    rw [hth] at hs
    cases hs
  | writing c => exact absurd hth (hold c)
  | control call acts =>
    rw [hth] at hs
    obtain rfl := Option.some.inj hs
    cases acts with
    | nil => exact Quiet.update le_rfl h.keeps rfl (by simp) hold
    | cons a acts =>
      obtain ⟨-, -, -, hfill, -⟩ := RbAct.apply_frame s.ring.rb a
      have hkeeps : s.Pending → s.Keeps (RbAct.apply s.ring.rb a).fillCnt := by
        rw [hfill]
        exact h.keeps
      exact Quiet.update hfill.le hkeeps rfl (by simp) hold
  | reading c =>
    rw [hth] at hs hl
    have hk := fun k hpc => (h.held.sized (k := k) hth hpc).2
    rcases RbSys.stepRead_cases h.held.wf hk hs with ⟨-, rfl⟩ | ⟨c', hc, hthread, -⟩
    · exact Quiet.update le_rfl h.keeps rfl (by simp) hold
    · obtain ⟨k, -, hzero, hsized, -, -, -, hfill, -⟩ := ReadCall.step_data h.held.wf hk hc
      have htakes : k = c.takes := by
        unfold ReadCall.takes
        cases hpc : c.pc with
        | sized n => exact hsized n hpc
        | lock | release | block | err _ | clear _ | ret _ => exact hzero (by simp [hpc])
      refine Quiet.update (by omega) (fun hp => ?_) hthread (by simp) hold
      have hlevel : s.Keeps (s.ring.rb.fillCnt - c.takes) := hl hp
      rw [← htakes, show s.ring.rb.fillCnt - k = ring.rb.fillCnt by omega] at hlevel
      exact hlevel

/-- **A step keeps the invariant.** -/
theorem Inv.step {l : BufferWaitLabel ι} (h : s.Inv task) (hl : s.Noticed l)
    (hs : s.step task l = some s') : s'.Inv task := by
  obtain ⟨s₁, hmove, rfl⟩ := Option.map_eq_some_iff.mp hs
  cases l with
  | call sizeExpect => exact h.call hl hmove
  | wait timeout => exact h.moveWait hl hmove
  | output bytes => exact h.output hmove
  | task => exact h.moveTask hmove
  | ring l =>
    cases l with
    -- the ring is written through `audio_element_output` alone
    | write t bytes => cases hmove
    | read t len =>
      obtain ⟨ring, hring, rfl⟩ := Option.map_eq_some_iff.mp hmove
      refine h.quiet (h.held.step hring) ?_
      simp only [RbSys.step] at hring
      split_ifs at hring with hidle
      obtain rfl := Option.some.inj hring
      exact Quiet.update le_rfl h.keeps rfl (by simp) (by simp [hidle.1])
    | control t call =>
      obtain ⟨ring, hring, rfl⟩ := Option.map_eq_some_iff.mp hmove
      refine h.quiet (h.held.step hring) ?_
      simp only [RbSys.step] at hring
      split_ifs at hring with hidle
      obtain rfl := Option.some.inj hring
      exact Quiet.update le_rfl h.keeps rfl (by simp) (by simp [hidle])
    | reset =>
      obtain ⟨ring, hring, rfl⟩ := Option.map_eq_some_iff.mp hmove
      refine h.quiet (h.held.step hring) ?_
      simp only [RbSys.step] at hring
      split_ifs at hring
      obtain rfl := Option.some.inj hring
      -- the condition lets the ring be emptied only while the task has no reached level to look at
      exact ⟨Nat.zero_le _, hl, fun _ _ => Iff.rfl⟩
    | step t timeout =>
      by_cases hwrites : ∃ c, s.ring.thread t = .writing c
      · obtain ⟨c, hth⟩ := hwrites
        obtain rfl := (h.writer t c hth).1
        have hl' : s.ThreadNoticed timeout (.writing c) := by
          rw [← hth]
          exact hl
        by_cases hret : ∃ v, c.pc = .ret v
        · obtain ⟨v, hpc⟩ := hret
          exact h.returned hth hpc hmove
        · exact h.writes hl' hth (not_exists.mp hret) hmove
      · -- a reader or a call on the flags puts nothing in
        have hold := not_exists.mp hwrites
        obtain ⟨ring, hring, hnext⟩ := Option.map_eq_some_iff.mp hmove
        rw [returns_eq_none hold] at hnext
        obtain rfl := hnext
        exact h.quiet (h.held.step hring) (quiet_step h hl hold hring)

/-! ### The answer -/

/-- The task and the waiting thread come to the answer. -/
def Answers (task : ι) (s : BufferWait ι) : Prop :=
  ∃ s', Lts.Reach (step task) (fun _ => Own task) s s' ∧ s'.wait = .returned ESP_OK

/-- One of their steps. -/
theorem Answers.head {l : BufferWaitLabel ι} (s' : BufferWait ι) (hl : Own task l)
    (hs : s.move task l = some s') (h : s'.observe.Answers task) : s.Answers task := by
  obtain ⟨s₁, hreach, hret⟩ := h
  refine ⟨s₁, hreach.head hl ?_, hret⟩
  rw [step, hs]
  rfl

theorem answers_bit (hw : s.wait = .waiting) (hbit : s.reachLevel = true) : s.Answers task := by
  refine Answers.head (l := .wait false) { s with wait := .returned ESP_OK } (Or.inl rfl) ?_
    ⟨_, Lts.Reach.refl, rfl⟩
  simp only [move, BufferWait.moveWait, hw, hbit, true_or, if_true]

theorem answers_set (hw : s.wait = .waiting) (ho : s.output = .set) : s.Answers task := by
  refine Answers.head (l := .task) { s with output := .idle, reachLevel := true }
    (Or.inr (Or.inl rfl)) ?_ (answers_bit hw rfl)
  simp only [move, BufferWait.moveTask, ho]

theorem answers_compare {len : ℤ} {filled : ℕ} (hw : s.wait = .waiting)
    (ho : s.output = .compare len filled) (hlt : s.outBufSizeExpect < filled) :
    s.Answers task := by
  refine Answers.head (l := .task) { s with output := .set } (Or.inr (Or.inl rfl)) ?_
    (answers_set hw rfl)
  simp only [move, BufferWait.moveTask, ho]
  rw [if_pos (Or.inl hlt)]

theorem answers_wrote {len : ℤ} (hw : s.wait = .waiting) (ho : s.output = .wrote len)
    (hlt : s.outBufSizeExpect < s.ring.rb.fillCnt) : s.Answers task := by
  refine Answers.head (l := .task)
    { s with output := .compare len (rbBytesFilled s.ring.rb) } (Or.inr (Or.inl rfl)) ?_
    (answers_compare hw rfl hlt)
  simp only [move, BufferWait.moveTask, ho]

theorem answers_ret {c : WriteCall} {v : ℤ} (hw : s.wait = .waiting)
    (hth : s.ring.thread task = .writing c) (hpc : c.pc = .ret v)
    (hlt : s.outBufSizeExpect < s.ring.rb.fillCnt) : s.Answers task := by
  refine Answers.head (l := .ring (.step task false))
    { s with
      ring := s.ring.goto task .idle, output := .wrote v,
      failed := s.failed || decide (s.Waits ∧ v < 0) } (Or.inr (Or.inr rfl)) ?_
    (answers_wrote hw rfl hlt)
  simp only [move, moveRing, returns, RbSys.step, RbSys.stepWrite, hth, hpc, if_true,
    Option.map_some]

theorem answers_err {c : WriteCall} {v : ℤ} (hw : s.wait = .waiting)
    (hth : s.ring.thread task = .writing c) (hpc : c.pc = .err v)
    (hlt : s.outBufSizeExpect < s.ring.rb.fillCnt) : s.Answers task := by
  by_cases htotal : 0 < c.total
  · refine Answers.head (l := .ring (.step task false))
      { s with ring :=
        { s.ring.goto task (.writing { c with unposted := false, pc := .ret (c.result v) }) with
          rb := RbAct.postRead.apply s.ring.rb } } (Or.inr (Or.inr rfl)) ?_
      (answers_ret hw (RbSys.goto_thread_self ..) rfl hlt)
    simp only [move, moveRing, returns, RbSys.step, RbSys.stepWrite, hth, hpc, if_true,
      WriteCall.step, htotal, Option.map_some]
  · refine Answers.head (l := .ring (.step task false))
      { s with ring := s.ring.goto task (.writing { c with pc := .ret (c.result v) }) }
      (Or.inr (Or.inr rfl)) ?_ (answers_ret hw (RbSys.goto_thread_self ..) rfl hlt)
    simp only [move, moveRing, returns, RbSys.step, RbSys.stepWrite, hth, hpc, if_true,
      WriteCall.step, htotal, Option.map_some, if_false]
    rfl

/-- **A wait that is due is answered.** -/
theorem Due.answers (hdue : s.Due task) (hw : s.wait = .waiting) : s.Answers task := by
  rcases hdue with hbit | htask
  · exact answers_bit hw hbit
  · unfold TaskDue at htask
    cases ho : s.output with
    | idle =>
      rw [ho] at htask
      exact htask.elim
    | writing =>
      rw [ho] at htask
      obtain ⟨c, hth, hleaves, hlt⟩ := htask
      unfold WriteCall.Leaves at hleaves
      cases hpc : c.pc with
      | lock | release | block =>
        rw [hpc] at hleaves
        exact hleaves.elim
      | err v => exact answers_err hw hth hpc hlt
      | ret v => exact answers_ret hw hth hpc hlt
    | wrote len =>
      rw [ho] at htask
      exact answers_wrote hw ho htask
    | compare len filled =>
      rw [ho] at htask
      exact answers_compare hw ho htask
    | set => exact answers_set hw ho

/-- No bit is set, and the task is in no output call: the wait stays as it is. -/
theorem not_answers (hw : s.wait = .waiting) (hbit : s.reachLevel = false) (ho : s.output = .idle)
    (hth : s.ring.thread task = .idle) : ¬s.Answers task := by
  rintro ⟨s', hreach, hret⟩
  have hstays : s'.wait = .waiting ∧ s'.reachLevel = false ∧ s'.output = .idle ∧
      s'.ring.thread task = .idle := by
    refine hreach.invariant (I := fun s => s.wait = .waiting ∧ s.reachLevel = false ∧
      s.output = .idle ∧ s.ring.thread task = .idle) ⟨hw, hbit, ho, hth⟩ ?_
    rintro s l s' ⟨hw, hbit, ho, hth⟩ (rfl | rfl | rfl) hs
    · simp [step, move, BufferWait.moveWait, hw, hbit] at hs
    · simp [step, move, BufferWait.moveTask, ho] at hs
    · simp [step, move, moveRing, RbSys.step, hth] at hs
  rw [hstays.1] at hret
  cases hret

/-- What the invariant says of a wait. -/
theorem Inv.answered (h : s.Inv task) : s.Answered task := by
  constructor
  · intro hr
    rcases h.due hr with hret | ⟨hw, hdue⟩
    · exact ⟨s, Lts.Reach.refl, hret⟩
    · exact hdue.answers hw
  · intro hr ret hret
    rcases h.due hr with hok | ⟨hw, -⟩
    · exact BufferWaitPc.returned.inj (hret.symm.trans hok)
    · rw [hret] at hw
      exact nomatch hw
  · exact h.ret

omit [DecidableEq ι] in
theorem Inv.init {rb : Ringbuf} (hwf : rb.Wf) (sizeExpect : ℤ) (bit : Bool) :
    (BufferWait.init rb sizeExpect bit : BufferWait ι).Inv task where
  held := RbSys.Held.init hwf
  writer := nofun
  writing := nofun
  due := nofun
  wrote := nofun
  compared := nofun
  sets := nofun
  bit := nofun
  ret := nofun
  level := by
    rintro (hw | hw) <;> exact nomatch hw

end BufferWait

/-- **Waiting for a buffer level** works in every run whose steps all notice the level. -/
theorem wait_answered {ι : Type} [DecidableEq ι] {task : ι} {blockSize nBlocks : ℤ}
    {allocated : Bool} {rb : Ringbuf} {sizeExpect : ℤ} {bit : Bool} {s : BufferWait ι}
    (hcreate : rbCreate blockSize nBlocks allocated = some rb)
    (h : Lts.Reach (BufferWait.step task) BufferWait.Noticed (.init rb sizeExpect bit) s) :
    s.Answered task := by
  have hinit : (BufferWait.init rb sizeExpect bit).Inv task :=
    .init (rbCreate_spec hcreate).1 sizeExpect bit
  have hinv := h.invariant (I := fun s => s.Inv task) hinit fun _ _ _ hi hl hs => hi.step hl hs
  exact hinv.answered

/-- A wait for two bytes, and an output of four; a reader takes one of them before the task
looks. -/
theorem wait_answered_two :
    ∃ s : BufferWait Bool,
      Lts.Reach (BufferWait.step true) BufferWait.Noticed (.init (.empty 4) 0 false) s ∧
        s.wait = .returned ESP_OK ∧ s.Answered true := by
  obtain ⟨s, hrun, hret⟩ : ∃ s, Lts.run (BufferWait.step true) BufferWait.Noticed
      (.init (.empty 4) 0 false) [.call 2, .wait false, .output [1, 2, 3, 4],
        .ring (.step true false), .ring (.read false 1), .ring (.step false false),
        .ring (.step false false), .ring (.step true false), .ring (.step true false),
        .task, .task, .task, .wait false] = some s ∧ s.wait = .returned ESP_OK := ⟨_, rfl, rfl⟩
  have hreach := Lts.Reach.of_run _ .refl hrun
  have hcreate : rbCreate 4 1 true = some (.empty 4) := rfl
  exact ⟨s, hreach, hret, wait_answered hcreate hreach⟩

/-- The levels that a wait may ask for. -/
def BufferWait.Asks {ι : Type} (s : BufferWait ι) : BufferWaitLabel ι → Prop
  | .call sizeExpect => 1 ≤ sizeExpect ∧ sizeExpect ≤ s.ring.rb.size
  | .wait _ | .output _ | .ring _ | .task => True

instance {ι : Type} (s : BufferWait ι) : ∀ l, Decidable (s.Asks l)
  | .call sizeExpect => inferInstanceAs (Decidable (1 ≤ sizeExpect ∧ _))
  | .wait _ | .output _ | .ring _ | .task => isTrue trivial

/-- A wait for a full ring: the output call that fills it sets no bit. -/
theorem wait_not_answered :
    ¬∀ (blockSize nBlocks : ℤ) (allocated : Bool) (rb : Ringbuf) (sizeExpect : ℤ) (bit : Bool)
      (s : BufferWait Bool), rbCreate blockSize nBlocks allocated = some rb →
      Lts.Reach (BufferWait.step true) BufferWait.Asks (.init rb sizeExpect bit) s →
      s.Answered true := by
  intro h
  obtain ⟨s, hrun, hreached, hwait, hbit, hout, hth⟩ : ∃ s, Lts.run (BufferWait.step true)
      BufferWait.Asks (.init (.empty 4) 0 false) [.call 4, .wait false, .output [1, 2, 3, 4],
        .ring (.step true false), .ring (.step true false), .ring (.step true false),
        .task, .task] = some s ∧ s.reached = true ∧ s.wait = .waiting ∧ s.reachLevel = false ∧
      s.output = .idle ∧ s.ring.thread true = .idle := ⟨_, rfl, rfl, rfl, rfl, rfl, rfl⟩
  have hanswered := h 4 1 true (.empty 4) 0 false s rfl (Lts.Reach.of_run _ .refl hrun)
  exact BufferWait.not_answers hwait hbit hout hth (hanswered.answers hreached)

end AudioPipeline
