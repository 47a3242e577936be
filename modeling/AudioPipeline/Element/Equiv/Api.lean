import AudioPipeline.Element.Equiv.Calls

/-!
# What the control functions do to an element

`ApiSeg api` is what one segment of a control function does to an element that has a task
(`0 < task_stack`): it leaves alone what only the task writes, changes the state only in
`audio_element_pause` and `audio_element_reset_state`, sets `STOPPED_BIT` only when the element is
not running, and sends the commands of the call.  `wp_api` says so of all of them.
-/

namespace AudioPipeline

open Prog

/-- The command that a call sends. -/
def ElApi.Sends : ElApi → AelCmd → Prop
  | .pause, cmd => cmd = .pause
  | .resume _, cmd => cmd = .resume
  | .stop, cmd => cmd = .stop
  | .changeCmd cmd', cmd => cmd = cmd'
  | .terminate, cmd => cmd = .destroy
  | .run, _ | .waitForStopMs, _ | .resetState, _ => False

/-- How a call may change the state of an element with a task. -/
def ElApi.SetsState : ElApi → AelState → AelState → Prop
  | .pause, st, st' => Paused st st'
  | .resetState, st, st' => st' = st ∨ st' = .init
  | _, st, st' => st' = st

/-- What one segment of a control function does. -/
@[mk_iff]
structure ApiSeg (api : ElApi) (s₀ s : Mem) : Prop where
  own : Own s₀ s
  hist : s.hist = s₀.hist
  taskStack : s.el.taskStack = s₀.el.taskStack
  state : api.SetsState s₀.el.state s.el.state
  stopped : s.el.stateEvent .stopped = s₀.el.stateEvent .stopped ∨
    s.el.stateEvent .stopped = false ∨ s₀.el.isRunning = false
  ports : SamePorts s₀ s
  rings : api ≠ .stop → s.rings = s₀.rings
  marked : ∀ h, (s₀.rings h).Marked → (s.rings h).Marked
  queue : s.el.queue = s₀.el.queue ∨ (∃ cmd, api.Sends cmd ∧ s.el.queue = s₀.el.queue ++ [cmd]) ∨
    s₀.el.taskRun = false ∧ s.el.queue = []

/-- All that a call needs of the memory it goes on in: the element has a task. -/
def HasTask (m' : Mem) : Prop := 0 < m'.el.taskStack

section Segments

attribute [local simp] samePorts_iff own_iff apiSeg_iff ElApi.SetsState ElApi.Sends HasTask Paused
  Mem.withBit Mem.inState Mem.reporting Mem.sending Mem.discarded Mem.spawned Mem.asking Awaits

variable {m : Mem}

theorem wp_run :
    wp (fun _ _ => HasTask) (fun _ => ApiSeg .run) (fun _ _ => ApiSeg .run)
      audioElementRun false m m := by
  refine wp_elementRun (fun _ => ?_) (fun hoff => ?_) (fun _ s' _ _ => ?_) (fun _ s' hs hle => ?_)
  · simp
  · simp [hoff]
  · simp
  · exact absurd hs (not_lt.mpr hle)

theorem wp_pause :
    wp (fun _ _ => HasTask) (fun _ => ApiSeg .pause) (fun _ _ => ApiSeg .pause)
      audioElementPause false m m := by
  refine wp_elementPause ?_ (fun _ hst => ?_) (fun _ => ?_) (fun _ s' hs hle => ?_)
    (fun _ s' _ => ?_) (fun _ s' _ _ => ?_)
  · simp
  · simp [hst]
  · simp
  · exact absurd hs (not_lt.mpr hle)
  · simp
  · simp

theorem wp_waitForBuffer (threshold : ℚ) (sizeExpect : ℤ) :
    wp (fun _ _ => HasTask) (fun _ => ApiSeg (.resume threshold))
      (fun _ _ => ApiSeg (.resume threshold)) (audioElementWaitForBuffer sizeExpect) false m m := by
  simp [audioElementWaitForBuffer, wp_ite]

theorem wp_resume (threshold : ℚ) (h : 0 < m.el.taskStack) :
    wp (fun _ _ => HasTask) (fun _ => ApiSeg (.resume threshold))
      (fun _ _ => ApiSeg (.resume threshold)) (audioElementResume threshold) false m m := by
  -- the last segment: the wait for the buffer, if a threshold is given
  have hwait : ∀ m : Mem, wp (fun _ _ => HasTask) (fun _ => ApiSeg (.resume threshold))
      (fun _ _ => ApiSeg (.resume threshold)) (waitForThreshold threshold m) false m m := by
    intro m
    unfold waitForThreshold
    split
    · rw [wp_ite]
      exact ⟨fun _ => wp_waitForBuffer _ _, fun _ => by simp⟩
    · simp
  refine wp_elementResume ?_ (fun st _ => ?_) (fun _ hle => ?_) (fun _ => ?_) (fun _ s' _ => ?_)
    (fun _ _ s' _ => ⟨fun _ => ⟨nofun, fun _ => ⟨?_, fun s₁ _ => hwait s₁⟩⟩, fun _ => ⟨?_, ?_⟩⟩)
  · simp
  · simp
  · exact absurd h (not_lt.mpr hle)
  · simp
  · simp
  · simp
  · simp
  · intro s₁ _
    refine ⟨fun _ => ?_, fun _ => ⟨?_, fun s₂ _ => hwait s₂⟩⟩
    · simp
    · simp

/-- The rest of `audio_element_stop`. -/
theorem wp_stop_rest {m₀ m : Mem} (h : 0 < m.el.taskStack) (hseg : ApiSeg .stop m₀ m)
    (hqueue : m.el.queue = m₀.el.queue) :
    wp (fun _ _ => HasTask) (fun _ => ApiSeg .stop) (fun _ _ => ApiSeg .stop)
      afterAbort false m₀ m := by
  refine wp_afterAbort (fun hle => ?_) (fun _ _ n => ?_) (fun _ _ n => ?_) (fun _ _ _ n => ?_)
  · exact absurd h (not_lt.mpr hle)
  · simpa using hseg
  · have hmarked := hseg.marked
    simp at hseg
    simpa [hseg, hqueue] using hmarked
  · simpa using hseg

theorem wp_stop (h : 0 < m.el.taskStack) :
    wp (fun _ _ => HasTask) (fun _ => ApiSeg .stop) (fun _ _ => ApiSeg .stop)
      audioElementStop false m m := by
  refine wp_elementStop (fun _ => ?_) (fun _ hoff => ⟨?_, fun s' _ => ?_⟩)
    (fun _ _ _ => ⟨?_, fun s' hs => ?_⟩) (fun _ _ _ => wp_stop_rest ?_ ?_ ?_)
  · simp
  · simp [hoff]
  · simp
  · simpa using m.aborted_marked
  · exact wp_stop_rest hs (by simp) rfl
  · simpa using h
  · simpa using m.aborted_marked
  · simp

theorem wp_waitForStopMs :
    wp (fun _ _ => HasTask) (fun _ => ApiSeg .waitForStopMs) (fun _ _ => ApiSeg .waitForStopMs)
      audioElementWaitForStopMs false m m := by
  refine wp_elementWaitForStopMs (fun _ => ?_) (fun _ => ?_)
  · simp
  · simp

theorem wp_changeCmd (cmd : AelCmd) :
    wp (fun _ _ => HasTask) (fun _ => ApiSeg (.changeCmd cmd)) (fun _ _ => ApiSeg (.changeCmd cmd))
      (audioElementCmdSend cmd) false m m := by
  simp

theorem wp_terminate (h : 0 < m.el.taskStack) :
    wp (fun _ _ => HasTask) (fun _ => ApiSeg .terminate) (fun _ _ => ApiSeg .terminate)
      audioElementTerminate false m m := by
  refine wp_elementTerminate (fun _ => ?_) (fun _ hle => ?_) (fun _ _ => ?_) (fun _ _ s' _ => ?_)
    (fun _ _ s' _ => ?_)
  · simp
  · exact absurd h (not_lt.mpr hle)
  · simp
  · simp
  · simp

theorem wp_resetState :
    wp (fun _ _ => HasTask) (fun _ => ApiSeg .resetState) (fun _ _ => ApiSeg .resetState)
      audioElementResetState false m m := by
  simp [audioElementResetState]

/-- **Every segment of every control function** is an `ApiSeg`. -/
theorem wp_api (api : ElApi) (h : 0 < m.el.taskStack) :
    wp (fun _ _ => HasTask) (fun _ => ApiSeg api) (fun _ _ => ApiSeg api) api.prog false m m := by
  cases api with
  | run => exact wp_run
  | pause => exact wp_pause
  | resume threshold => exact wp_resume threshold h
  | stop => exact wp_stop h
  | waitForStopMs => exact wp_waitForStopMs
  | changeCmd cmd => exact wp_changeCmd cmd
  | resetState => exact wp_resetState
  | terminate => exact wp_terminate h

end Segments

end AudioPipeline
