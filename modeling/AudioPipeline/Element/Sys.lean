import AudioPipeline.Element.Api
import AudioPipeline.Element.Handlers
import AudioPipeline.Lib.Lts

/-!
# An element, its task, and the thread that controls it

`Task` is where `audio_element_task` stands: at the head of its loop, between the command and the
process step, or at a scheduling point inside one of the functions it calls.  `ElSys` adds one
controlling thread, which makes one call of `ElApi` after the other, and the history that the
properties speak of.

`audio_element_run` may be called while an old thread still performs the last instructions of
`audio_element_task`; the new thread begins when the old one is gone.
-/

namespace AudioPipeline

/-- Where `audio_element_task` stands. -/
inductive Task
  /-- There is no thread. -/
  | absent
  | begin (p : Point Mem Callback Unit)
  /-- At the head of the loop. -/
  | recv
  /-- In a received command. -/
  | inCmd (cmd : AelCmd) (p : Point Mem Callback ℤ)
  /-- Before the process step, after this command with this result. -/
  | proc (last : Option (AelCmd × ℤ))
  /-- In the process step. -/
  | inProc (p : Point Mem Callback ℤ)
  /-- Out of the loop. -/
  | leave
  | ending (p : Point Mem Callback Unit)

namespace Task

/-- After a segment of `audio_element_task` before the loop. -/
def ofBegin : Point Mem Callback Unit → Task
  | .done _ => .recv
  | p => .begin p

/-- The command is taken off the queue; what the history notes of it. -/
def receive (m : Mem) (cmd : AelCmd) (queue : List AelCmd) : Mem :=
  { m with
    el := { m.el with queue := queue }
    hist :=
      if cmd = .resume then
        { m.hist with
          handling := some cmd, resumes := m.hist.resumes + 1
          session := if m.el.isRunning then m.hist.session else m.hist.resumes + 1
          failed := false, openFailed := false
          starting := m.hist.restarted && m.el.state ≠ .running }
      else { m.hist with handling := some cmd } }

/-- The command has been handled. -/
def handled (m : Mem) : Mem := { m with hist := { m.hist with handling := none } }

/-- After a segment of a command. -/
def ofCmd (cmd : AelCmd) (m : Mem) : Point Mem Callback ℤ → Mem × Task
  | .done ret => (handled m, if ret = AEL_IO_ABORT then .leave else .proc (some (cmd, ret)))
  | p => (m, .inCmd cmd p)

/-- After a segment of the process step. -/
def ofProc : Point Mem Callback ℤ → Task
  | .done _ => .recv
  | p => .inProc p

/-- After a segment of `audio_element_task` after the loop. -/
def ofEnd : Point Mem Callback Unit → Task
  | .done _ => .absent
  | p => .ending p

/-- The next segment of the task; `v` is the answer of the callback it waits for, if it does. -/
def step (m : Mem) (v : ℤ) : Task → Option (Mem × Task)
  | .absent =>
    if m.el.threadCreated then
      let r := audioElementTaskBegin.resume false
        { m with el := { m.el with threadCreated := false } }
      some (r.1, ofBegin r.2)
    else none
  | .begin p => (p.step v m).map fun r => (r.1, ofBegin r.2)
  | .recv =>
    if m.el.taskRun then
      match m.el.queue with
      | [] => some (m, .proc none)
      | cmd :: queue =>
        let r := (audioElementTaskCmd cmd).resume false (receive m cmd queue)
        some (ofCmd cmd r.1 r.2)
    else some (m, .leave)
  | .inCmd cmd p => (p.step v m).map fun r => ofCmd cmd r.1 r.2
  | .proc _ =>
    let r := audioElementProcessRunning.resume false m
    some (r.1, ofProc r.2)
  | .inProc p => (p.step v m).map fun r => (r.1, ofProc r.2)
  | .leave =>
    let r := audioElementTaskEnd.resume false m
    some (r.1, ofEnd r.2)
  | .ending p => (p.step v m).map fun r => (r.1, ofEnd r.2)

/-- Between two task steps. -/
def Between : Task → Prop
  | .recv | .proc _ => True
  | _ => False

end Task

/-- What the controlling thread does. -/
inductive Ctl
  | idle
  | calling (api : ElApi) (p : Point Mem Callback ℤ)

/-- The call that is being made. -/
def Ctl.api : Ctl → Option ElApi
  | .idle => none
  | .calling api _ => some api

/-- An element with its task and its controlling thread.  The fields after `ctl` are the history:
no step looks at them. -/
structure ElSys where
  m : Mem
  task : Task
  ctl : Ctl
  /-- The call that returned in the last step, with its result. -/
  answered : Option (ElApi × ℤ)
  /-- `audio_element_stop` has returned `ESP_OK`, and no resume request was issued since. -/
  stopStands : Bool
  /-- The last call of `audio_element_stop` returned `ESP_OK`. -/
  stopOk : Bool

inductive ElLabel
  /-- the controlling thread makes a call -/
  | call (api : ElApi)
  /-- the controlling thread moves on in its call -/
  | ctl
  /-- the task moves on; `v` answers the callback it waits for, if it does -/
  | task (v : ℤ)
  deriving DecidableEq

namespace ElSys

/-- An element that no thread runs and no call was made of. -/
def ofElement (el : Element) (rings : ℕ → Ringbuf) : ElSys where
  m := { el := el, rings := rings, hist := .new }
  task := .absent
  ctl := .idle
  answered := none
  stopStands := false
  stopOk := false

/-- The call asks for a resume. -/
def IssuesResume : ElApi → Bool
  | .resume _ | .changeCmd .resume => true
  | _ => false

/-- The controlling thread has run a segment of its call. -/
def afterCtl (s : ElSys) (api : ElApi) (r : Mem × Point Mem Callback ℤ) : ElSys :=
  match r.2 with
  | .done v =>
    { s with
      m := r.1, ctl := .idle, answered := some (api, v)
      stopStands := if api = .stop ∧ v = ESP_OK then true else s.stopStands
      stopOk := if api = .stop then v = ESP_OK else s.stopOk }
  | p => { s with m := r.1, ctl := .calling api p, answered := none }

/-- What the history notes in the memory when a call begins. -/
def noted (api : ElApi) (m : Mem) : Mem :=
  if api = .stop then
    { m with hist := { m.hist with asked := m.hist.resumes + m.el.queue.count .resume } }
  else m

/-- What the history notes when a call begins. -/
def noteCall (s : ElSys) (api : ElApi) : ElSys :=
  { s with
    m := noted api s.m
    stopStands := if IssuesResume api then false else s.stopStands
    stopOk := if api = .stop then false else s.stopOk }

def step (s : ElSys) : ElLabel → Option ElSys
  | .call api =>
    match s.ctl with
    | .idle => some ((s.noteCall api).afterCtl api (api.prog.resume false (s.noteCall api).m))
    | .calling _ _ => none
  | .ctl =>
    match s.ctl with
    | .idle => none
    | .calling api p => (p.step 0 s.m).map (s.afterCtl api)
  | .task v =>
    (s.task.step s.m v).map fun r =>
      { s with m := r.1, task := r.2, answered := none }

end ElSys

end AudioPipeline
