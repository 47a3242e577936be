import AudioPipeline.Pipeline.Equiv.Cell

/-!
# Asking an element to stop, and waiting for it

`audio_element_stop` sends `STOP` to the task of an element that runs, unless `stopping` says that
this has been done; `audio_element_wait_for_stop_ms` waits for `STOPPED_BIT`.  `Askable` and
`Awaitable` say when an element is ready for the one and for the other, and survive what its task
does meanwhile.  Then the first leaves it `Asked`, and the second `AtRest` unless it times out.
-/

namespace AudioPipeline

open Prog

namespace Task

/-- The task is in the handler of the command. -/
def Handles (cmd : AelCmd) : Task → Prop
  | .inCmd cmd' _ => cmd' = cmd
  | _ => False

instance (cmd : AelCmd) : DecidablePred (Handles cmd)
  | .inCmd cmd' _ => inferInstanceAs (Decidable (cmd' = cmd))
  | .absent | .begin _ | .recv | .proc _ | .inProc _ | .leave | .ending _ =>
    inferInstanceAs (Decidable False)

/-- After a segment of the handler. -/
theorem handles_ofCmd (cmd : AelCmd) (m : Mem) (p : Point Mem Callback ℤ) :
    (ofCmd cmd m p).2.Handles cmd ∨ (∃ ret, (ofCmd cmd m p).2 = .proc (some (cmd, ret))) ∨
      (ofCmd cmd m p).2 = .leave := by
  cases p with
  | done ret =>
    unfold ofCmd
    dsimp only
    split_ifs
    · exact Or.inr (Or.inr rfl)
    · exact Or.inr (Or.inl ⟨ret, rfl⟩)
  | cut k => exact Or.inl rfl
  | call c k => exact Or.inl rfl

/-- **A command that is taken off the queue, or is in its handler**, is still there after the step,
or its handler has returned. -/
theorem step_handles {t t' : Task} {m m' : Mem} {v : ℤ} {cmd : AelCmd}
    (hs : t.step m v = some (m', t'))
    (h : t.Handles cmd ∨ m.el.queue = cmd :: m'.el.queue ∧ t = .recv ∧ m.el.taskRun = true) :
    t'.Handles cmd ∨ (∃ ret, t' = .proc (some (cmd, ret))) ∨ t' = .leave := by
  rcases h with hin | ⟨hq, rfl, hon⟩
  · cases t with
    | inCmd cmd' p =>
      obtain rfl : cmd' = cmd := hin
      obtain ⟨r, -, hr⟩ := Option.map_eq_some_iff.mp hs
      have hafter := handles_ofCmd cmd' r.1 r.2
      rw [hr] at hafter
      exact hafter
    | absent | begin | recv | proc | inProc | leave | ending => exact hin.elim
  · simp only [step, hon, if_true, hq] at hs
    have hafter := handles_ofCmd cmd
      ((audioElementTaskCmd cmd).resume false (receive m cmd m'.el.queue)).1
      ((audioElementTaskCmd cmd).resume false (receive m cmd m'.el.queue)).2
    rw [Option.some.inj hs] at hafter
    exact hafter

end Task

/-- The handler of `STOP` has returned. -/
theorem TaskOk.stopped {t : Task} {m : Mem} (h : TaskOk lifeSpec t m)
    (ht : (∃ ret, t = .proc (some (.stop, ret))) ∨ t = .leave) : m.el.isRunning = false := by
  rcases ht with ⟨ret, rfl⟩ | rfl
  · exact h.2 ret rfl
  · exact h

namespace Cell

variable {c c' : Cell} {relied : Prop}

/-- A request to stop waits for the task, or is being handled. -/
def StopWaits (c : Cell) : Prop := .stop ∈ c.m.el.queue ∨ c.task.Handles .stop

instance (c : Cell) : Decidable c.StopWaits := inferInstanceAs (Decidable (_ ∨ _))

/-- `audio_element_stop` has something to ask for and can do so. -/
def Askable (c : Cell) : Prop :=
  c.Unresumed ∧ (c.m.el.isRunning = true →
    c.StopWaits ∨ c.m.el.stopping = false ∧ c.m.el.queue.length < internalQueueSize)

instance (c : Cell) : Decidable c.Askable := inferInstanceAs (Decidable (_ ∧ (_ → _)))

/-- An element that runs has been asked to stop. -/
def Asked (c : Cell) : Prop := c.Unresumed ∧ (c.m.el.isRunning = true → c.StopWaits)

/-- `STOPPED_BIT` of an element that runs is its task's to set. -/
def Awaitable (c : Cell) : Prop :=
  c.Unresumed ∧ (c.m.el.isRunning = true → c.m.el.stateEvent .stopped = false)

instance (c : Cell) : Decidable c.Awaitable := inferInstanceAs (Decidable (_ ∧ (_ → _)))

/-! ### What the others keep -/

/-- **A request to stop** waits until the element has stopped. -/
theorem StopWaits.move (h : Good c) (hw : StopWaits c) (hm : Move relied c c')
    (hrun : c'.m.el.isRunning = true) : StopWaits c' := by
  cases hm with
  | rings rings => exact hw
  | task _ hs =>
    obtain ⟨hg', hmoves, _⟩ := h.step hs
    have htask := h.task_of_step hs
    obtain ⟨⟨m', t'⟩, ht, rfl⟩ := Option.map_eq_some_iff.mp hs
    have htask' : HasTask m' := by
      unfold HasTask
      rw [hmoves.taskStack]
      exact htask
    -- the request that was handled last
    have hlast : c.task.Handles .stop ∨
        c.m.el.queue = .stop :: m'.el.queue ∧ c.task = .recv ∧ c.m.el.taskRun = true →
          StopWaits ⟨m', t'⟩ := by
      intro hstop
      rcases Task.step_handles ht hstop with hin | hdone
      · exact Or.inr hin
      · have hoff := (hg'.life htask').stopped hdone
        exact absurd hrun (by rw [hoff]; decide)
    rcases hw with hmem | hin
    · rcases hmoves.queue with hq | ⟨hon, hrecv, cmd, hq, _⟩
      · left
        rw [hq]
        exact hmem
      · rw [hq] at hmem
        rcases List.mem_cons.mp hmem with rfl | hmem
        · exact hlast (Or.inr ⟨hq, hrecv, hon⟩)
        · exact Or.inl hmem
    · exact hlast (Or.inl hin)

theorem Askable.move (h : Good c) (ha : Askable c) (hm : Move relied c c') : Askable c' := by
  refine ⟨Unresumed.move h ha.1 hm, fun hrun => ?_⟩
  rcases ha.2 (Unresumed.runs h ha.1 hm hrun) with hwaits | ⟨hno, hroom⟩
  · exact Or.inl (hwaits.move h hm hrun)
  · have ⟨_, _, hseg⟩ := h.move hm
    refine Or.inr ⟨?_, ?_⟩
    · by_contra hset
      have hset := hseg.stopping (by simpa using hset)
      exact absurd hset (by rw [hno]; decide)
    · rcases Move.queue h hm with hq | ⟨_, cmd, hq, _⟩
      · rw [hq]
        exact hroom
      · rw [hq, List.length_cons] at hroom
        omega

theorem Asked.move (h : Good c) (ha : Asked c) (hm : Move relied c c') : Asked c' := by
  refine ⟨Unresumed.move h ha.1 hm, fun hrun => ?_⟩
  exact (ha.2 (Unresumed.runs h ha.1 hm hrun)).move h hm hrun

theorem Awaitable.move (h : Good c) (ha : Awaitable c) (hm : Move relied c c') :
    Awaitable c' := by
  refine ⟨Unresumed.move h ha.1 hm, fun hrun => ?_⟩
  have ⟨_, _, hseg⟩ := h.move hm
  have hclear := ha.2 (Unresumed.runs h ha.1 hm hrun)
  by_contra hset
  have hset := hseg.stopped hrun (by simpa using hset)
  exact absurd hset (by rw [hclear]; decide)

end Cell

/-! ### The calls -/

section Calls

variable {m : Mem}

/-- What a segment of `audio_element_stop` leaves of the request that it is about to make. -/
structure StopSeg (m m' : Mem) : Prop where
  runs : m'.el.isRunning = true → m.el.isRunning = true
  queue : m'.el.queue = m.el.queue
  stopping : m'.el.stopping = m.el.stopping

/-- The last one: an element that runs has been sent `STOP`, or needs no request, or has no room. -/
def StopSent (m m' : Mem) : Prop :=
  m'.el.isRunning = true → m'.el.taskRun = true → m.el.isRunning = true ∧
    (.stop ∈ m'.el.queue ∨ m'.el.queue = m.el.queue ∧
      (m.el.stopping = true ∨ internalQueueSize ≤ m.el.queue.length))

/-- What the others do to an element that no `RESUME` waits for. -/
def StaysOff (m m' : Mem) : Prop := m.el.isRunning = false → m'.el.isRunning = false

/-- What a halted element was asked for does not matter. -/
theorem StopSent.of_off {m' : Mem} (hoff : m'.el.isRunning = false) : StopSent m m' :=
  fun hon => absurd hon (by rw [hoff]; decide)

/-- A task that runs is asked to stop, unless it has been asked before or there is no room. -/
theorem wp_afterAbort_sends {m₀ : Mem} (hel : m.el = m₀.el) :
    wp (fun _ => StaysOff) (fun _ => StopSeg) (fun _ _ => StopSent) afterAbort false m₀ m := by
  have hrun : m.el.isRunning = true → m₀.el.isRunning = true := fun hon => hel ▸ hon
  have hqueue : m.el.queue = m₀.el.queue := congrArg Element.queue hel
  have hstopping : m.el.stopping = m₀.el.stopping := congrArg Element.stopping hel
  refine wp_afterAbort (fun _ => ⟨⟨nofun, hqueue, hstopping⟩, fun s' hoff => ?_⟩)
    (fun _ hset n hon _ => ?_) (fun _ _ n hon _ => ?_) (fun _ _ hfull n hon _ => ?_)
  · exact StopSent.of_off (hoff rfl)
  · exact ⟨hrun hon, Or.inr ⟨hqueue, Or.inl (hstopping.symm.trans hset)⟩⟩
  · exact ⟨hrun hon, Or.inl (List.mem_append_right _ List.mem_cons_self)⟩
  · refine ⟨hrun hon, Or.inr ⟨hqueue, Or.inr ?_⟩⟩
    rw [← hqueue]
    exact not_lt.mp hfull

theorem wp_stop_sends :
    wp (fun _ => StaysOff) (fun _ => StopSeg) (fun _ _ => StopSent) audioElementStop false m m := by
  have hqueue : m.aborted.el.queue = m.el.queue := congrArg Element.queue m.aborted_el
  have hstopping : m.aborted.el.stopping = m.el.stopping := congrArg Element.stopping m.aborted_el
  refine wp_elementStop (fun hdead _ hon => ?_) (fun _ hoff => ⟨⟨id, rfl, rfl⟩, fun s' hs => ?_⟩)
    (fun _ hrun _ => ⟨⟨fun _ => hrun, hqueue, hstopping⟩, fun s' _ => ?_⟩) (fun _ _ _ => ?_)
  · exact absurd hon (by rw [hdead]; decide)
  · exact StopSent.of_off (hs hoff)
  · exact wp_afterAbort_sends rfl
  · exact wp_afterAbort_sends m.aborted_el

/-- `audio_element_wait_for_stop_ms` only looks at the element. -/
def WaitAnswer (v : ℤ) (m m' : Mem) : Prop :=
  m' = m ∧ (v = ESP_OK ∨ v = ESP_ERR_TIMEOUT) ∧
    (v = ESP_OK → m.el.isRunning = false ∨ m.el.stateEvent .stopped = true)

theorem wp_wait_reads :
    wp (fun _ _ _ => True) (fun _ m m' => m' = m) (fun v _ => WaitAnswer v)
      audioElementWaitForStopMs false m m := by
  have hanswer : ∀ s : Mem,
      WaitAnswer (if s.el.stateEvent .stopped then ESP_OK else ESP_ERR_TIMEOUT) s s := by
    intro s
    split_ifs with hbit
    · exact ⟨rfl, Or.inl rfl, fun _ => Or.inr hbit⟩
    · exact ⟨rfl, Or.inr rfl, fun heq => absurd heq (by decide)⟩
  refine wp_elementWaitForStopMs (fun hoff => ?_) (fun _ => ⟨fun hbit => ?_, fun _ => ?_⟩)
  · exact ⟨rfl, Or.inl rfl, fun _ => Or.inl hoff⟩
  · exact ⟨rfl, Or.inl rfl, fun _ => Or.inr hbit⟩
  · exact ⟨rfl, fun s' _ => hanswer s'⟩

end Calls

namespace Cell

variable {c : Cell} {m : Mem} {api : ElApi} {A : Cell → Prop} {B : ℤ → Cell → Prop}

theorem Unresumed.staysOff {relied : Prop} {c' : Cell} (h : Good c) (hu : Unresumed c)
    (hm : Moves relied c c') : StaysOff c.m c'.m := by
  intro hoff
  have hrest : AtRest c' := (h.moves (fun _ _ hg ha hm => ha.move hg hm) ⟨hoff, hu⟩ hm).2
  exact hrest.1

/-- What is known of the element may be unknown. -/
theorem Meets.when {X : Prop} (h : Meets False A api B) (hapi : api.Controls) (hrun : api ≠ .run) :
    Meets False (fun c => X → A c) api fun v c => X → B v c := by
  intro c hg ha
  by_cases hx : X
  · refine wp_post _ ?_ (h c hg (ha hx))
    exact fun _ _ _ _ hc => ⟨hc.1, fun _ => hc.2⟩
  · have hmeets : Meets False (fun c => False → c.AtRest) api _ := meets_rest hapi hrun False.elim
    refine wp_post _ ?_ (hmeets c hg False.elim)
    exact fun _ _ _ _ hc => ⟨hc.1, fun hx' => absurd hx' hx⟩

/-- **`audio_element_stop`** asks an element that can be asked. -/
theorem meets_stop : Meets False Askable .stop fun _ c => Asked c := by
  have hsends : ¬ElApi.stop.Sends .resume := by
    rintro ⟨⟩
  have hrely : ∀ c c', Good c → Askable c → Moves False c c' →
      CtlRely c.m c'.m ∧ StaysOff c.m c'.m :=
    fun c c' hg ha hm => ⟨hg.rely hm, ha.1.staysOff hg hm⟩
  have hseg : ∀ c m, Good c → Askable c → CtlSeg .stop none c.m m ∧ StopSeg c.m m →
      Good (c.set m) ∧ Askable (c.set m) := by
    rintro c m hg ha ⟨hs, hseg⟩
    refine ⟨hg.seg hs, ha.1.seg hg hs hsends, fun hrun => ?_⟩
    have hwhy := ha.2 (hseg.runs hrun)
    rw [StopWaits] at hwhy
    show (.stop ∈ m.el.queue ∨ c.task.Handles .stop) ∨ m.el.stopping = false ∧
      m.el.queue.length < internalQueueSize
    rw [hseg.queue, hseg.stopping]
    exact hwhy
  have hlast : ∀ (v : ℤ) c m, Good c → Askable c →
      CtlSeg .stop (some v) c.m m ∧ StopSent c.m m → Good (c.set m) ∧ Asked (c.set m) := by
    rintro v c m hg ha ⟨hs, hsent⟩
    refine ⟨hg.seg hs, ha.1.seg hg hs hsends, fun hrun => ?_⟩
    obtain ⟨hrun₀, hsent | ⟨hq, hno⟩⟩ := hsent hrun ((hg.seg hs).runs hrun)
    · exact Or.inl hsent
    · -- nothing was sent, so there was a request already
      rcases ha.2 hrun₀ with hwaits | ⟨hclear, hroom⟩
      · show .stop ∈ m.el.queue ∨ c.task.Handles .stop
        rw [hq]
        exact hwaits
      · rcases hno with hset | hfull
        · exact absurd hset (by rw [hclear]; decide)
        · exact absurd hroom (not_lt.mpr hfull)
  have hwp : ∀ c, Good c → wp (fun _ m m' => CtlRely m m' ∧ StaysOff m m')
      (fun _ m m' => CtlSeg .stop none m m' ∧ StopSeg m m')
      (fun v _ m m' => CtlSeg .stop (some v) m m' ∧ StopSent m m') audioElementStop
      false c.m c.m := by
    intro c hg
    refine wp_and _ ?_ ?_
    · exact wp_mono _ (fun _ _ _ h => h.1) (fun _ _ _ h => h) (fun _ _ _ _ h => h)
        (wp_stop_ctl (hg.pre nofun))
    · exact wp_mono _ (fun _ _ _ h => h.2) (fun _ _ _ h => h) (fun _ _ _ _ h => h) wp_stop_sends
  exact .of_wp (fun _ _ => Askable.move) hrely hseg hlast fun c hg ha => ⟨ha, hwp c hg⟩

/-- **`audio_element_wait_for_stop_ms`** leaves an element at rest unless it times out. -/
theorem meets_wait :
    Meets False Awaitable .waitForStopMs fun v c => v = ESP_ERR_TIMEOUT ∨ AtRest c := by
  have hseg : ∀ c m, Good c → Awaitable c → CtlSeg .waitForStopMs none c.m m ∧ m = c.m →
      Good (c.set m) ∧ Awaitable (c.set m) := by
    rintro c _ hg ha ⟨hs, rfl⟩
    exact ⟨hg.seg hs, ha⟩
  have hlast : ∀ (v : ℤ) c m, Good c → Awaitable c →
      CtlSeg .waitForStopMs (some v) c.m m ∧ WaitAnswer v c.m m →
      Good (c.set m) ∧ (v = ESP_ERR_TIMEOUT ∨ AtRest (c.set m)) := by
    rintro v c _ hg ha ⟨hs, rfl, rfl | rfl, hanswer⟩
    · refine ⟨hg.seg hs, Or.inr ⟨?_, ha.1⟩⟩
      show c.m.el.isRunning = false
      rcases hanswer rfl with hoff | hset
      · exact hoff
      · by_contra hrun
        have hclear := ha.2 (by simpa using hrun)
        rw [hclear] at hset
        exact nomatch hset
    · exact ⟨hg.seg hs, Or.inl rfl⟩
  have hwp : ∀ c, Good c → wp (fun _ => CtlRely)
      (fun _ m m' => CtlSeg .waitForStopMs none m m' ∧ m' = m)
      (fun v _ m m' => CtlSeg .waitForStopMs (some v) m m' ∧ WaitAnswer v m m')
      audioElementWaitForStopMs false c.m c.m := by
    intro c hg
    refine wp_and _ wp_waitForStopMs_ctl ?_
    exact wp_mono _ (fun _ _ _ _ => trivial) (fun _ _ _ h => h) (fun _ _ _ _ h => h) wp_wait_reads
  exact .of_wp (fun _ _ => Awaitable.move) (fun _ _ hg _ hm => hg.rely hm) hseg hlast
    fun c hg ha => ⟨ha, hwp c hg⟩

end Cell

end AudioPipeline
