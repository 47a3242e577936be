import AudioPipeline.Lib.Prog
import AudioPipeline.Ringbuf.Basic
import Mathlib.Logic.Function.Basic

/-!
# The audio element (`audio_element.c`): its data

`Element` is `struct audio_element`, as far as its task and the control functions read it; ring
buffers are handles into the store `Mem.rings`.  The functions of `audio_element.c` are programs
over `Mem` (`ElProg`), in which every operation on the event group and every call of a callback of
the user ends a segment: other threads may run there and nowhere else.

The internal queue of the event interface is opened with `O_NONBLOCK`, so receiving from it never
waits and sending fails when it holds `internal_queue_size` messages.  Status reports go to the
listener's queue, which nothing here reads; `reports` records them.
-/

namespace AudioPipeline

/-! ### Codes (`esp_err.h`, `audio_element.h`) -/

abbrev ESP_OK : ℤ := 0
abbrev ESP_FAIL : ℤ := -1
abbrev ESP_ERR_NO_MEM : ℤ := 0x101
abbrev ESP_ERR_INVALID_ARG : ℤ := 0x102
abbrev ESP_ERR_INVALID_STATE : ℤ := 0x103
abbrev ESP_ERR_TIMEOUT : ℤ := 0x107

abbrev AEL_IO_OK : ℤ := ESP_OK
abbrev AEL_IO_FAIL : ℤ := ESP_FAIL
abbrev AEL_IO_DONE : ℤ := -2
abbrev AEL_IO_ABORT : ℤ := -3
abbrev AEL_IO_TIMEOUT : ℤ := -4
abbrev AEL_PROCESS_FAIL : ℤ := -5

abbrev portMAX_DELAY : ℕ := 0xffff

/-- `audio_element_state_t`. -/
inductive AelState
  | none
  | init
  | initializing
  | running
  | paused
  | stopped
  | finished
  | error
  deriving DecidableEq, Repr

/-- The value of the enumerator. -/
def AelState.val : AelState → ℕ
  | .none => 0
  | .init => 1
  | .initializing => 2
  | .running => 3
  | .paused => 4
  | .stopped => 5
  | .finished => 6
  | .error => 7

/-- `audio_element_status_t`, as far as it is reported here. -/
inductive AelStatus
  | errorOpen
  | errorProcess
  | stateRunning
  | statePaused
  | stateStopped
  | stateFinished
  deriving DecidableEq, Repr

/-- `audio_element_msg_cmd_t`; `other` stands for the values `audio_element_on_cmd` ignores. -/
inductive AelCmd
  | finish
  | stop
  | pause
  | resume
  | destroy
  | other
  deriving DecidableEq, Repr

/-- The bits of the event group `state_event`. -/
inductive StateBit
  | stopped
  | started
  | bufferReachLevel
  | taskCreated
  | taskDestroyed
  | paused
  | resumed
  deriving DecidableEq, Repr

/-- What the code of an element calls back, or asks the allocator. -/
inductive Callback
  | open
  | close
  | process
  | calloc
  deriving DecidableEq, Repr

/-- `read_type` with the union `in`, or `write_type` with the union `out`. -/
inductive Port
  /-- `IO_TYPE_RB` with the ring buffer handle. -/
  | rb (handle : Option ℕ)
  /-- `IO_TYPE_CB`; `set`: the callback is not `NULL`. -/
  | cb (set : Bool)
  deriving DecidableEq, Repr

/-! ### The structure -/

/-- `struct audio_element`. -/
structure Element where
  /-- `open != NULL`. -/
  hasOpen : Bool
  /-- `close != NULL`. -/
  hasClose : Bool
  input : Port
  output : Port
  multiIn : List (Option ℕ)
  multiOut : List (Option ℕ)
  isOpen : Bool
  state : AelState
  bufSize : ℤ
  taskStack : ℤ
  stateEvent : StateBit → Bool
  outBufSizeExpect : ℤ
  isRunning : Bool
  taskRun : Bool
  stopping : Bool
  /-- The messages in `iface_event->internal_queue`, oldest first. -/
  queue : List AelCmd
  /-- `iface_event->wait_time`. -/
  waitTime : ℕ
  /-- `audio_thread_create` was called and the thread has not begun to run. -/
  threadCreated : Bool
  reports : List AelStatus

/-- `internal_queue_size` (`audio_element_init`). -/
def internalQueueSize : ℕ := 5

/-- `audio_element_cfg_t`, as far as the control of the element depends on it. -/
structure AudioElementCfg where
  /-- `open != NULL`. -/
  hasOpen : Bool
  /-- `close != NULL`. -/
  hasClose : Bool
  bufferLen : ℤ
  taskStack : ℤ
  /-- `read != NULL`. -/
  read : Bool
  /-- `write != NULL`. -/
  write : Bool
  multiInRbNum : ℕ
  multiOutRbNum : ℕ
  deriving DecidableEq, Repr

/-- `audio_element_init`. -/
def audioElementInit (config : AudioElementCfg) : Element where
  hasOpen := config.hasOpen
  hasClose := config.hasClose
  input := if config.read then .cb true else .rb Option.none
  output := if config.write then .cb true else .rb Option.none
  multiIn := List.replicate config.multiInRbNum Option.none
  multiOut := List.replicate config.multiOutRbNum Option.none
  isOpen := false
  state := .init
  bufSize := config.bufferLen
  taskStack := if 0 < config.taskStack then config.taskStack else 0
  stateEvent := fun _ => false
  outBufSizeExpect := 0
  isRunning := false
  taskRun := false
  stopping := false
  queue := []
  waitTime := portMAX_DELAY
  threadCreated := false
  reports := []

/-- What happened so far, for the properties to speak of; no code reads it. -/
structure History where
  /-- The calls of `open` and `close`, oldest first. -/
  trace : List Callback
  /-- The command that the task is handling. -/
  handling : Option AelCmd
  /-- The `RESUME` commands received. -/
  resumes : ℕ
  /-- The number of the `RESUME` that began the latest session. -/
  session : ℕ
  /-- The number of the last `RESUME` issued before the last call of `audio_element_stop`. -/
  asked : ℕ
  /-- Since the last `RESUME`, `open` or `process` has failed or aborted. -/
  failed : Bool
  /-- `open` has failed or aborted and its `RESUME` is still to abort the rings. -/
  openFailed : Bool
  /-- The pipeline has been restarted. -/
  restarted : Bool
  /-- A `RESUME` was received since the restart, and `process` is still to be called. -/
  starting : Bool
  /-- `process` was called for the first time since a restart and an output ring was not clean. -/
  startedDirty : Bool
  deriving DecidableEq, Repr

/-- The history of a new element. -/
def History.new : History where
  trace := []
  handling := none
  resumes := 0
  session := 0
  asked := 0
  failed := false
  openFailed := false
  restarted := false
  starting := false
  startedDirty := false

/-- What the code of one element can reach, and its history. -/
structure Mem where
  el : Element
  rings : ℕ → Ringbuf
  hist : History

/-- The code of an element. -/
abbrev ElProg := Prog Mem Callback

/-- The history notes something. -/
def note (f : Mem → History) : ElProg Unit := Prog.modify fun m => { m with hist := f m }

/-- `el->…`, read. -/
def element : ElProg Element := do return (← Prog.get).el

/-- `el->… = …`. -/
def setEl (f : Element → Element) : ElProg Unit := Prog.modify fun m => { m with el := f m.el }

/-- `audio_element_force_set_state`. -/
def audioElementForceSetState (newState : AelState) : ElProg Unit :=
  setEl fun el => { el with state := newState }

/-- `audio_element_report_status`. -/
def audioElementReportStatus (status : AelStatus) : ElProg Unit :=
  setEl fun el => { el with reports := el.reports ++ [status] }

/-- `audio_event_iface_set_cmd_waiting_timeout`. -/
def audioEventIfaceSetCmdWaitingTimeout (waitTime : ℕ) : ElProg Unit :=
  setEl fun el => { el with waitTime := waitTime }

/-! ### The event group -/

/-- `xEventGroupSetBits`. -/
def xEventGroupSetBits (bit : StateBit) : ElProg Unit := do
  setEl fun el => { el with stateEvent := Function.update el.stateEvent bit true }
  Prog.sync

/-- `xEventGroupClearBits`. -/
def xEventGroupClearBits (bit : StateBit) : ElProg Unit := do
  setEl fun el => { el with stateEvent := Function.update el.stateEvent bit false }
  Prog.sync

/-- `xEventGroupWaitBits` for one bit, without clearing it: whether the bit is set in the returned
value.  A wait on the condition variable ends at any time (signal, timeout or spurious wakeup), and
the bits are read then. -/
def xEventGroupWaitBits (bit : StateBit) : ElProg Bool := do
  let el ← element
  if el.stateEvent bit then
    Prog.sync
    return true
  else
    Prog.sync
    let el ← element
    Prog.sync
    return el.stateEvent bit

/-! ### The ring buffers of an element -/

/-- The ring buffers behind a port: none unless the main one is there. -/
def Port.handles (port : Port) (multi : List (Option ℕ)) : List ℕ :=
  match port with
  | .rb (some h) => h :: multi.filterMap id
  | .rb Option.none | .cb _ => []

/-- The output ring buffers of an element. -/
def Element.outputs (el : Element) : List ℕ := el.output.handles el.multiOut

/-- The input ring buffers of an element. -/
def Element.inputs (el : Element) : List ℕ := el.input.handles el.multiIn

/-- Each of the ring buffers in turn. -/
def Mem.onRings (m : Mem) (f : Ringbuf → Ringbuf) (hs : List ℕ) : Mem :=
  hs.foldl (fun m h => { m with rings := Function.update m.rings h (f (m.rings h)) }) m

/-- `rb_get_size`. -/
def Mem.rbGetSize (m : Mem) : Option ℕ → ℤ
  | some h => (m.rings h).size
  | none => ESP_ERR_INVALID_ARG

/-- `f` on every output ring buffer. -/
def onOutputs (f : Ringbuf → Ringbuf) : ElProg Unit :=
  Prog.modify fun m => m.onRings f m.el.outputs

/-- `f` on every input ring buffer. -/
def onInputs (f : Ringbuf → Ringbuf) : ElProg Unit :=
  Prog.modify fun m => m.onRings f m.el.inputs

/-- `audio_element_reset_output_ringbuf`. -/
def audioElementResetOutputRingbuf : ElProg Unit := onOutputs rbReset

/-- `audio_element_abort_output_ringbuf`. -/
def audioElementAbortOutputRingbuf : ElProg Unit := onOutputs Ringbuf.abort

/-- `audio_element_abort_input_ringbuf`. -/
def audioElementAbortInputRingbuf : ElProg Unit := onInputs Ringbuf.abort

/-- `audio_element_set_ringbuf_done`. -/
def audioElementSetRingbufDone : ElProg Unit := onOutputs Ringbuf.doneWrite

end AudioPipeline
