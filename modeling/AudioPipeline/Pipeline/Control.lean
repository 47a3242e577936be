import AudioPipeline.Element.Sys
import AudioPipeline.Pipeline.Links
import Mathlib.Data.Int.Bitwise

/-!
# Running a pipeline (`audio_pipeline.c`)

`audio_pipeline_run`, `_resume`, `_pause`, `_stop`, `_wait_for_stop` and `_terminate` go through
`el_list` and call the control functions of the linked elements, one after the other.  They look at
the state of the pipeline itself to decide whether to do so at all.

`PipeSys` is a pipeline with one thread of the application, which makes these calls and those of
`Links.Op` in any order, and with the tasks of all elements, which run beside it.  The process
callbacks may change the ring buffers at any time.
-/

namespace AudioPipeline

/-- An element and its task. -/
structure Cell where
  m : Mem
  task : Task

namespace Cell

/-- A step of the task. -/
def step (c : Cell) (v : ℤ) : Option Cell := (c.task.step c.m v).map fun r => ⟨r.1, r.2⟩

/-- The element as it is with these ring buffers. -/
def withRings (c : Cell) (rings : ℕ → Ringbuf) : Cell := { c with m := { c.m with rings := rings } }

/-- A control function, next to the task. -/
def code {α : Type} (p : ElProg α) : Prog Cell Callback α :=
  p.zoom Cell.m fun m c => { c with m := m }

end Cell

/-- `read_type` with the union `in`, as the code of the element looks at it. -/
def Io.port : Io → Port
  | .rb handle => .rb handle
  | .cb _ => .cb true

/-- What the thread of the application and the tasks share.  The last two fields are the history
of the present call of a function of the pipeline: no code reads it. -/
structure Pipe where
  links : Links
  /-- The elements; the rings of a cell are not looked at. -/
  cells : ℕ → Cell
  /-- The control functions of elements that it has called, the last one first. -/
  called : List (ℕ × ElApi)
  /-- The one that has just returned, with its result. -/
  returned : Option (ℕ × ElApi × ℤ)

namespace Pipe

/-- `pipeline->state`. -/
def state (p : Pipe) : AelState := p.links.state

/-- `pipeline->el_list`. -/
def items (p : Pipe) : List ElementItem := p.links.elList.items

/-- The element is linked. -/
def Linked (p : Pipe) (e : ℕ) : Prop := ∃ item ∈ p.items, item.linked = true ∧ item.el = e

/-- Element `e`, on the rings as they are. -/
def cell (p : Pipe) (e : ℕ) : Cell := (p.cells e).withRings p.links.rings

/-- Element `e` has become `c`. -/
def put (e : ℕ) (c : Cell) (p : Pipe) : Pipe :=
  { p with
    links := { p.links with rings := c.m.rings }, cells := Function.update p.cells e c }

/-- A step of the task of element `e`. -/
def taskStep (p : Pipe) (e : ℕ) (v : ℤ) : Option Pipe := ((p.cell e).step v).map (p.put e ·)

/-- The elements around a ring buffer have left it like this. -/
def setRing (p : Pipe) (rb : ℕ) (ring : Ringbuf) : Pipe :=
  { p with links := { p.links with rings := Function.update p.links.rings rb ring } }

/-- The pipeline as the functions of `Links` see it. -/
def lists (p : Pipe) : Links :=
  { p.links with els := fun e => { p.links.els e with state := (p.cells e).m.el.state } }

/-- The functions of `Links` have left it like this. -/
def relink (p : Pipe) (l : Links) : Pipe :=
  { p with
    links := l
    cells := fun e =>
      { p.cells e with
        m := { (p.cells e).m with
          el := { (p.cells e).m.el with
            state := (l.els e).state
            input := (l.els e).input.port
            output := (l.els e).output.port } } } }

end Pipe

/-- The code of a function of the pipeline. -/
abbrev PipeProg := Prog Pipe Callback

/-- Code of element `e`. -/
def onEl {α : Type} (e : ℕ) (p : ElProg α) : PipeProg α :=
  (Cell.code p).zoom (fun p => p.cell e) (Pipe.put e)

/-- A call of a control function of element `e`. -/
def callEl (e : ℕ) (api : ElApi) : PipeProg ℤ := do
  Prog.sync
  Prog.modify fun p => { p with called := (e, api) :: p.called }
  let ret ← onEl e api.prog
  Prog.modify fun p => { p with returned := some (e, api, ret) }
  Prog.sync
  Prog.modify fun p => { p with returned := none }
  return ret

/-- A loop over the linked elements of `el_list`; `ret |= …` collects the results. -/
def forLinked (body : ℕ → PipeProg ℤ) (ret : ℤ) : List ElementItem → PipeProg ℤ
  | [] => return ret
  | item :: items =>
    if item.linked then do
      let res ← body item.el
      forLinked body (Int.lor ret res) items
    else forLinked body ret items

/-- `audio_pipeline_change_state`. -/
def audioPipelineChangeState (newState : AelState) : PipeProg Unit :=
  Prog.modify fun p => { p with links := { p.links with state := newState } }

/-- `audio_pipeline_resume`. -/
def audioPipelineResume : PipeProg ℤ := do
  let p ← Prog.get
  let ret ← forLinked (callEl · (.resume 0)) ESP_OK p.items
  audioPipelineChangeState .running
  return ret

/-- `audio_pipeline_pause`. -/
def audioPipelinePause : PipeProg ℤ := do
  let p ← Prog.get
  let _ ← forLinked (callEl · .pause) ESP_OK p.items
  return ESP_OK

/-- `audio_pipeline_terminate`. -/
def audioPipelineTerminate : PipeProg ℤ := do
  let p ← Prog.get
  let _ ← forLinked (callEl · .terminate) ESP_OK p.items
  return ESP_OK

/-- The states in which `audio_pipeline_run` runs an element. -/
def AelState.startable : AelState → Bool
  | .init | .stopped | .finished | .error => true
  | _ => false

/-- The first loop of `audio_pipeline_run`, for one element. -/
def runStartable (e : ℕ) : PipeProg ℤ := do
  Prog.sync
  let el ← onEl e element
  if el.state.startable then callEl e .run else return ESP_OK

/-- `audio_pipeline_run`. -/
def audioPipelineRun : PipeProg ℤ := do
  let p ← Prog.get
  if p.state ≠ .init then
    return ESP_OK
  else
    let _ ← forLinked runStartable ESP_OK p.items
    let ret ← audioPipelineResume
    if ret = ESP_FAIL then
      audioPipelineChangeState .error
      let _ ← audioPipelineTerminate
      return ESP_FAIL
    else
      audioPipelineChangeState .running
      return ESP_OK

/-- `audio_pipeline_stop`. -/
def audioPipelineStop : PipeProg ℤ := do
  let p ← Prog.get
  if p.state ≠ .running then
    return ESP_FAIL
  else
    let _ ← forLinked (callEl · .stop) ESP_OK p.items
    return ESP_OK

/-- The loop of `__audio_pipeline_wait_stop`, for one element. -/
def waitOrReset (e : ℕ) : PipeProg ℤ := do
  let res ← callEl e .waitForStopMs
  if res = ESP_ERR_TIMEOUT then
    return res
  else
    let _ ← callEl e .resetState
    return res

/-- `audio_pipeline_wait_for_stop`, also `audio_pipeline_wait_for_stop_with_ticks`: how long a wait
lasts before it times out is left open. -/
def audioPipelineWaitForStop : PipeProg ℤ := do
  let p ← Prog.get
  if p.state ≠ .running then
    return ESP_FAIL
  else
    let ret ← forLinked waitOrReset ESP_OK p.items
    audioPipelineChangeState .init
    return ret

/-- The functions that control a pipeline. -/
inductive PipeApi
  | run
  | pause
  | resume
  | stop
  | waitForStop
  | terminate
  deriving DecidableEq, Repr

/-- The code of such a function. -/
def PipeApi.prog : PipeApi → PipeProg ℤ
  | .run => audioPipelineRun
  | .pause => audioPipelinePause
  | .resume => audioPipelineResume
  | .stop => audioPipelineStop
  | .waitForStop => audioPipelineWaitForStop
  | .terminate => audioPipelineTerminate

/-- What the thread of the application does. -/
inductive PipeCtl
  | idle
  | calling (api : PipeApi) (p : Point Pipe Callback ℤ)

/-- The function that is being called. -/
def PipeCtl.api : PipeCtl → Option PipeApi
  | .idle => none
  | .calling api _ => some api

/-- A pipeline with the thread of the application and the tasks of the elements. -/
structure PipeSys where
  pipe : Pipe
  ctl : PipeCtl
  /-- The call that returned in the last step, with its result. -/
  answered : Option (PipeApi × ℤ)

inductive PipeLabel
  /-- the application calls a function that works on the lists -/
  | links (op : Links.Op)
  /-- the application calls a function that runs the elements -/
  | call (api : PipeApi)
  /-- the application moves on in its call -/
  | ctl
  /-- the task of element `e` moves on; `v` answers the callback it waits for, if it does -/
  | task (e : ℕ) (v : ℤ)
  /-- the elements around a ring buffer read and write -/
  | io (rb : ℕ) (ring : Ringbuf)

/-- The function of the pipeline that stands behind the label. -/
def Links.Op.IsCall : Links.Op → Bool
  | .elState _ _ | .io _ _ => false
  | _ => true

namespace PipeSys

/-- New elements, without threads, as the lists have them. -/
def start (config : ℕ → AudioElementCfg) (links : Links) : PipeSys where
  pipe :=
    { links := links
      cells := fun e =>
        { m :=
            { el :=
                { audioElementInit (config e) with
                  input := (links.els e).input.port, output := (links.els e).output.port }
              rings := links.rings
              hist := .new }
          task := .absent }
      called := []
      returned := none }
  ctl := .idle
  answered := none

/-- The application has run a segment of its call. -/
def afterCtl (api : PipeApi) (r : Pipe × Point Pipe Callback ℤ) : PipeSys :=
  match r.2 with
  | .done v => { pipe := r.1, ctl := .idle, answered := some (api, v) }
  | p => { pipe := r.1, ctl := .calling api p, answered := none }

def step (s : PipeSys) : PipeLabel → Option PipeSys
  | .links op =>
    match s.ctl, op.IsCall with
    | .idle, true =>
      some { s with pipe := s.pipe.relink (s.pipe.lists.call op).2, answered := none }
    | _, _ => none
  | .call api =>
    match s.ctl with
    | .idle =>
      some (afterCtl api (api.prog.resume false { s.pipe with called := [], returned := none }))
    | .calling _ _ => none
  | .ctl =>
    match s.ctl with
    | .idle => none
    | .calling api p => (p.step 0 s.pipe).map (afterCtl api)
  | .task e v => (s.pipe.taskStep e v).map fun p => { s with pipe := p, answered := none }
  | .io rb ring => some { s with pipe := s.pipe.setRing rb ring, answered := none }

end PipeSys

end AudioPipeline
