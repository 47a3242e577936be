import AudioPipeline.Pipeline.Control

/-!
# Starting a stopped pipeline again

`audio_element_stop` aborts the ring buffers on both sides of an element, and nothing but the
`RESUME` handler makes them usable again.  `RestartSys` watches a pipeline for that.  It notes
whether `audio_pipeline_stop` and then `audio_pipeline_wait_for_stop` have returned `ESP_OK`, in the
history of each element whether the pipeline was started again with it after that, and in what state
its output ring buffers are when it calls `process` for the first time since.
-/

namespace AudioPipeline

/-- The callback whose answer the task waits for. -/
def Task.callback : Task → Option Callback
  | .begin p | .ending p => p.callback
  | .inCmd _ p | .inProc p => p.callback
  | .absent | .recv | .proc _ | .leave => none

/-- At the head of the loop. -/
def Task.atHead : Task → Bool
  | .recv => true
  | _ => false

namespace Cell

/-- The process callback is about to end, and the state has been reset meanwhile:
`audio_element_on_cmd_resume` is called from the process step. -/
def Reopens (c : Cell) (v : ℤ) : Prop :=
  c.task.callback = some .process ∧ ProcessEnds v ∧ c.m.el.state = .init

/-- `open` is about to fail. -/
def OpensInVain (c : Cell) (v : ℤ) : Prop := c.task.callback = some .open ∧ OpenFails v

instance (c : Cell) : DecidablePred c.Reopens := fun _ => inferInstanceAs (Decidable (_ ∧ _ ∧ _))

instance (c : Cell) : DecidablePred c.OpensInVain := fun _ => inferInstanceAs (Decidable (_ ∧ _))

end Cell

namespace Pipe

/-- The histories of the elements note something. -/
def note (p : Pipe) (f : ℕ → History → History) : Pipe :=
  { p with cells := fun e =>
      { p.cells e with m := { (p.cells e).m with hist := f e (p.cells e).m.hist } } }

/-- The history of one element notes something. -/
def noteAt (p : Pipe) (e : ℕ) (f : History → History) : Pipe :=
  p.note fun e' h => if e' = e then f h else h

end Pipe

/-- How far the application has come in stopping the pipeline. -/
inductive StopPhase
  | started
  /-- `audio_pipeline_stop` has returned `ESP_OK`. -/
  | stopped
  /-- And then `audio_pipeline_wait_for_stop` has. -/
  | waited
  deriving DecidableEq, Repr

/-- A call may have returned. -/
def StopPhase.next (phase : StopPhase) : Option (PipeApi × ℤ) → StopPhase
  | some (.stop, ret) => if ret = ESP_OK then .stopped else phase
  | some (.waitForStop, ret) => if ret = ESP_OK ∧ phase = .stopped then .waited else phase
  | _ => phase

/-- A pipeline, watched. -/
structure RestartSys where
  sys : PipeSys
  phase : StopPhase
  /-- The elements that were linked when the pipeline was started again, and have not called
  `process` since. -/
  fresh : List ℕ

namespace RestartSys

/-- New elements, without threads. -/
def start (config : ℕ → AudioElementCfg) (links : Links) : RestartSys where
  sys := PipeSys.start config links
  phase := .started
  fresh := []

/-- Element `e`. -/
def cell (s : RestartSys) (e : ℕ) : Cell := s.sys.pipe.cell e

/-- The call starts a stopped pipeline again. -/
def Restarts (s : RestartSys) (api : PipeApi) : Prop :=
  s.phase = .waited ∧ (api = .resume ∨ api = .run)

instance (s : RestartSys) : DecidablePred s.Restarts :=
  fun _ => inferInstanceAs (Decidable (_ ∧ _))

/-- The elements that the call starts again. -/
def startedBy (s : RestartSys) (api : PipeApi) : List ℕ :=
  if s.Restarts api then (s.sys.pipe.items.filter (·.linked)).map (·.el) else []

/-- What is noted before a step.  Of an `open` that fails the handler takes note as well. -/
def before (s : RestartSys) : PipeLabel → Pipe
  | .call api =>
    s.sys.pipe.note fun e h =>
      { h with restarted := h.restarted || decide (e ∈ s.startedBy api) }
  | .task e v =>
    s.sys.pipe.noteAt e fun h =>
      { h with
        starting := if (s.cell e).Reopens v then h.restarted else h.starting
        openFailed := h.openFailed || decide ((s.cell e).OpensInVain v) }
  | .links _ | .ctl | .io _ _ => s.sys.pipe

/-- What is noted after it. -/
def after (s : RestartSys) (sys : PipeSys) : PipeLabel → RestartSys
  | .call api =>
    { sys := sys
      phase := (if s.Restarts api then .started else s.phase : StopPhase).next sys.answered
      fresh := s.fresh ++ s.startedBy api }
  | .ctl => { s with sys := sys, phase := s.phase.next sys.answered }
  | .task e _ =>
    if (sys.pipe.cell e).task.callback = some .process then
      { s with
        sys := { sys with
          pipe := sys.pipe.noteAt e fun h => { h with restarted := false, starting := false } }
        fresh := s.fresh.filter (· ≠ e) }
    else { s with sys := sys }
  | .links _ | .io _ _ => { s with sys := sys }

def step (s : RestartSys) (l : PipeLabel) : Option RestartSys :=
  ({ s.sys with pipe := s.before l }.step l).map (s.after · l)

end RestartSys

end AudioPipeline
