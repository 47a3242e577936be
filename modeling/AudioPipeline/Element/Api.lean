import AudioPipeline.Element.Basic
import Mathlib.Data.Rat.Floor

/-!
# The control functions of an element (`audio_element.c`)

These run in the thread of the application.  `ElApi` lists them and `ElApi.prog` is the code of
each.
-/

namespace AudioPipeline

/-- `audio_element_cmd_send`, also `audio_element_change_cmd`. -/
def audioElementCmdSend (cmd : AelCmd) : ElProg ℤ := do
  let el ← element
  if el.queue.length < internalQueueSize then
    setEl fun el => { el with queue := el.queue ++ [cmd] }
    return ESP_OK
  else
    return ESP_FAIL

/-- `audio_event_iface_discard`, on the internal queue. -/
def audioEventIfaceDiscard : ElProg Unit := setEl fun el => { el with queue := [] }

/-- `audio_element_run`.  `audio_thread_create` asserts that it succeeds. -/
def audioElementRun : ElProg ℤ := do
  let el ← element
  if el.taskRun then
    return ESP_OK
  else
    audioEventIfaceDiscard
    xEventGroupClearBits .taskCreated
    let el ← element
    if 0 < el.taskStack then
      setEl fun el => { el with threadCreated := true }
      let _ ← xEventGroupWaitBits .taskCreated
      return ESP_OK
    else
      setEl fun el => { el with taskRun := true, isRunning := true }
      audioElementForceSetState .running
      audioElementReportStatus .stateRunning
      return ESP_OK

/-- `audio_element_pause`. -/
def audioElementPause : ElProg ℤ := do
  let el ← element
  if el.taskRun = false then
    return ESP_FAIL
  else if AelState.paused.val ≤ el.state.val then
    audioElementForceSetState .paused
    return ESP_OK
  else
    xEventGroupClearBits .paused
    let el ← element
    if el.taskStack ≤ 0 then
      setEl fun el => { el with isRunning := false }
      audioElementForceSetState .paused
      return ESP_OK
    else
      let sent ← audioElementCmdSend .pause
      if sent ≠ ESP_OK then
        return ESP_FAIL
      else
        let paused ← xEventGroupWaitBits .paused
        return if paused then ESP_OK else ESP_FAIL

/-- `out.output_rb` is not `NULL`. -/
def Port.isSet : Port → Bool
  | .rb handle => handle.isSome
  | .cb set => set

/-- `audio_element_wait_for_buffer`. -/
def audioElementWaitForBuffer (sizeExpect : ℤ) : ElProg ℤ := do
  setEl fun el => { el with outBufSizeExpect := sizeExpect }
  let el ← element
  if el.output.isSet then
    xEventGroupClearBits .bufferReachLevel
    let reached ← xEventGroupWaitBits .bufferReachLevel
    return if reached then ESP_OK else ESP_FAIL
  else
    return ESP_FAIL

/-- `audio_element_resume`.  The threshold is a `float` in the code; the product with the size of
the input ring, or with the error code for a ring that is missing, is cut down to an `int`. -/
def audioElementResume (waitForRbThreshold : ℚ) : ElProg ℤ := do
  let el ← element
  if el.taskRun = false then
    return ESP_FAIL
  else if el.state = .running then
    audioElementReportStatus .stateRunning
    return ESP_OK
  else if el.taskStack ≤ 0 then
    setEl fun el => { el with isRunning := true }
    audioElementForceSetState .running
    audioElementReportStatus .stateRunning
    return ESP_OK
  else if el.state = .error then
    return ESP_FAIL
  else if el.state = .finished then
    audioElementReportStatus .stateFinished
    return ESP_OK
  else if 1 < waitForRbThreshold ∨ waitForRbThreshold < 0 then
    return ESP_FAIL
  else
    xEventGroupClearBits .resumed
    let sent ← audioElementCmdSend .resume
    if sent = ESP_FAIL then
      return ESP_FAIL
    else
      let resumed ← xEventGroupWaitBits .resumed
      if resumed = false then
        return ESP_FAIL
      else
        let m ← Prog.get
        match m.el.input with
        | .rb inputRb =>
          if waitForRbThreshold ≠ 0 then
            audioElementWaitForBuffer ⌊(m.rbGetSize inputRb : ℚ) * waitForRbThreshold⌋
          else
            return ESP_OK
        | .cb _ => return ESP_OK

/-- `audio_element_stop`. -/
def audioElementStop : ElProg ℤ := do
  let el ← element
  if el.taskRun = false then
    return ESP_FAIL
  else if el.isRunning = false then
    xEventGroupSetBits .stopped
    audioElementReportStatus .stateStopped
    return ESP_OK
  else
    audioElementAbortOutputRingbuf
    audioElementAbortInputRingbuf
    let el ← element
    if el.state = .running then
      xEventGroupClearBits .stopped
    let el ← element
    if el.taskStack ≤ 0 then
      setEl fun el => { el with isRunning := false }
      audioElementForceSetState .stopped
      xEventGroupSetBits .stopped
      audioElementReportStatus .stateStopped
      return ESP_OK
    else
      if el.state = .paused then
        audioEventIfaceSetCmdWaitingTimeout 0
      if el.stopping then
        return ESP_OK
      else
        setEl fun el => { el with stopping := true }
        let sent ← audioElementCmdSend .stop
        if sent ≠ ESP_OK then
          setEl fun el => { el with stopping := false }
          return ESP_FAIL
        else
          return ESP_OK

/-- `audio_element_wait_for_stop_ms`. -/
def audioElementWaitForStopMs : ElProg ℤ := do
  let el ← element
  if el.isRunning = false then
    return ESP_OK
  else
    let stopped ← xEventGroupWaitBits .stopped
    return if stopped then ESP_OK else ESP_ERR_TIMEOUT

/-- `audio_element_reset_state`. -/
def audioElementResetState : ElProg ℤ := do
  audioElementForceSetState .init
  return ESP_OK

/-- `audio_element_terminate`. -/
def audioElementTerminate : ElProg ℤ := do
  let el ← element
  if el.taskRun = false then
    return ESP_OK
  else if el.taskStack ≤ 0 then
    setEl fun el => { el with taskRun := false, isRunning := false }
    return ESP_OK
  else
    xEventGroupClearBits .taskDestroyed
    let sent ← audioElementCmdSend .destroy
    if sent ≠ ESP_OK then
      return ESP_FAIL
    else
      let destroyed ← xEventGroupWaitBits .taskDestroyed
      return if destroyed then ESP_OK else ESP_FAIL

/-- The control functions. -/
inductive ElApi
  | run
  | pause
  | resume (waitForRbThreshold : ℚ)
  | stop
  | waitForStopMs
  | changeCmd (cmd : AelCmd)
  | resetState
  | terminate
  deriving DecidableEq

/-- The code of a control function. -/
def ElApi.prog : ElApi → ElProg ℤ
  | .run => audioElementRun
  | .pause => audioElementPause
  | .resume threshold => audioElementResume threshold
  | .stop => audioElementStop
  | .waitForStopMs => audioElementWaitForStopMs
  | .changeCmd cmd => audioElementCmdSend cmd
  | .resetState => audioElementResetState
  | .terminate => audioElementTerminate

end AudioPipeline
