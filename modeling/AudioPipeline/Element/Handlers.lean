import AudioPipeline.Element.Basic

/-!
# The task of an element (`audio_element.c`)

The handlers of the commands, `audio_element_process_running`, and the beginning and the end of
`audio_element_task`.  The loop between them is in `Element/Sys.lean`.
-/

namespace AudioPipeline

/-- `open` has failed or aborted. -/
def OpenFails (ret : ℤ) : Prop := ret ≠ ESP_OK ∧ ret ≠ AEL_IO_DONE

instance : DecidablePred OpenFails := fun _ => inferInstanceAs (Decidable (_ ∧ _))

/-- `process` has failed or aborted. -/
def ProcessFails (processLen : ℤ) : Prop :=
  processLen = AEL_IO_ABORT ∨ processLen = AEL_IO_FAIL ∨ processLen = AEL_PROCESS_FAIL

instance : DecidablePred ProcessFails := fun _ => inferInstanceAs (Decidable (_ ∨ _ ∨ _))

/-- `process` has come to the end. -/
def ProcessEnds (processLen : ℤ) : Prop := processLen = AEL_IO_DONE ∨ processLen = AEL_IO_OK

instance : DecidablePred ProcessEnds := fun _ => inferInstanceAs (Decidable (_ ∨ _))

/-- `el->open(el)`. -/
def callOpen : ElProg ℤ := do
  note fun m => { m.hist with trace := m.hist.trace ++ [.open] }
  let ret ← Prog.invoke .open
  note fun m =>
    { m.hist with
      failed := m.hist.failed || OpenFails ret
      openFailed := OpenFails ret
      starting := m.hist.starting && ¬OpenFails ret }
  return ret

/-- `el->close(el)`; its result is ignored. -/
def callClose : ElProg Unit := do
  note fun m => { m.hist with trace := m.hist.trace ++ [.close] }
  let _ ← Prog.invoke .close

/-- `el->process(el, el->buf, el->buf_size)`. -/
def callProcess : ElProg ℤ := do
  note fun m =>
    { m.hist with
      starting := false
      startedDirty := m.hist.startedDirty ||
        m.hist.starting && !m.el.outputs.all fun h => (m.rings h).Clean }
  let processLen ← Prog.invoke .process
  note fun m => { m.hist with failed := m.hist.failed || ProcessFails processLen }
  return processLen

/-- `audio_element_process_deinit`. -/
def audioElementProcessDeinit : ElProg Unit := do
  let el ← element
  if el.isOpen ∧ el.hasClose then
    callClose
  setEl fun el => { el with isOpen := false }

/-- `audio_element_on_cmd_error`. -/
def audioElementOnCmdError : ElProg ℤ := do
  let el ← element
  if el.state ≠ .stopped then
    audioElementProcessDeinit
    audioElementForceSetState .error
    audioEventIfaceSetCmdWaitingTimeout portMAX_DELAY
    setEl fun el => { el with isRunning := false }
    xEventGroupSetBits .stopped
  return ESP_OK

/-- `audio_element_on_cmd_stop`. -/
def audioElementOnCmdStop : ElProg ℤ := do
  let el ← element
  if el.state ≠ .finished ∧ el.state ≠ .stopped then
    audioElementProcessDeinit
    audioElementForceSetState .stopped
    audioEventIfaceSetCmdWaitingTimeout portMAX_DELAY
    audioElementReportStatus .stateStopped
    setEl fun el => { el with isRunning := false, stopping := false }
    xEventGroupSetBits .stopped
    return ESP_OK
  else if el.isRunning = false ∧ el.state = .stopped then
    setEl fun el => { el with stopping := false }
    return ESP_OK
  else
    setEl fun el => { el with state := .stopped, isRunning := false, stopping := false }
    audioElementReportStatus .stateStopped
    xEventGroupSetBits .stopped
    return ESP_OK

/-- `audio_element_on_cmd_finish`. -/
def audioElementOnCmdFinish : ElProg ℤ := do
  let el ← element
  if el.state = .error ∨ el.state = .stopped then
    return ESP_OK
  else
    audioElementProcessDeinit
    audioElementForceSetState .finished
    audioEventIfaceSetCmdWaitingTimeout portMAX_DELAY
    audioElementReportStatus .stateFinished
    setEl fun el => { el with isRunning := false }
    xEventGroupSetBits .stopped
    return ESP_OK

/-- `audio_element_process_init`. -/
def audioElementProcessInit : ElProg ℤ := do
  let el ← element
  if el.hasOpen = false then
    setEl fun el => { el with isOpen := true }
    xEventGroupSetBits .started
    return ESP_OK
  else
    setEl fun el => { el with isOpen := true }
    audioElementForceSetState .initializing
    let ret ← callOpen
    if ret = ESP_OK then
      audioElementForceSetState .running
      audioElementReportStatus .stateRunning
      xEventGroupSetBits .started
      return ESP_OK
    else if ret = AEL_IO_DONE then
      audioElementForceSetState .running
      audioElementReportStatus .stateRunning
      return ESP_OK
    else if ret = AEL_IO_ABORT then
      let _ ← audioElementOnCmdStop
      return ESP_FAIL
    else
      audioElementForceSetState .error
      audioElementReportStatus .errorOpen
      let _ ← audioElementOnCmdError
      return ESP_FAIL

/-- `audio_element_on_cmd_resume`. -/
def audioElementOnCmdResume : ElProg ℤ := do
  let el ← element
  if el.state = .running then
    setEl fun el => { el with isRunning := true }
    xEventGroupSetBits .resumed
    return ESP_OK
  else
    if el.state ≠ .init ∧ el.state ≠ .running ∧ el.state ≠ .paused then
      audioElementResetOutputRingbuf
    setEl fun el => { el with isRunning := true }
    xEventGroupSetBits .resumed
    let ret ← audioElementProcessInit
    if ret ≠ ESP_OK then
      audioElementAbortOutputRingbuf
      audioElementAbortInputRingbuf
      note fun m => { m.hist with openFailed := false }
      setEl fun el => { el with isRunning := false }
      return ESP_FAIL
    else
      audioEventIfaceSetCmdWaitingTimeout 0
      xEventGroupClearBits .stopped
      return ESP_OK

/-- `audio_element_on_cmd`. -/
def audioElementOnCmd : AelCmd → ElProg ℤ
  | .finish => audioElementOnCmdFinish
  | .stop => audioElementOnCmdStop
  | .pause => do
    audioElementForceSetState .paused
    audioElementProcessDeinit
    audioEventIfaceSetCmdWaitingTimeout portMAX_DELAY
    audioElementReportStatus .statePaused
    setEl fun el => { el with isRunning := false }
    xEventGroupSetBits .paused
    return ESP_OK
  | .resume => audioElementOnCmdResume
  | .destroy => do
    setEl fun el => { el with isRunning := false }
    return AEL_IO_ABORT
  | .other => return ESP_OK

/-- The branches of `audio_element_process_running` on the result of the process callback. -/
def audioElementProcessed (processLen : ℤ) : ElProg ℤ := do
  if 0 < processLen then
    return ESP_OK
  else if processLen = AEL_IO_ABORT then
    let _ ← audioElementOnCmdStop
    return ESP_OK
  else if processLen = AEL_IO_DONE ∨ processLen = AEL_IO_OK then
    let el ← element
    if el.state = .init then
      audioElementOnCmdResume
    else
      audioElementSetRingbufDone
      let _ ← audioElementOnCmdFinish
      return ESP_OK
  else if processLen = AEL_IO_FAIL ∨ processLen = AEL_PROCESS_FAIL then
    audioElementReportStatus .errorProcess
    let _ ← audioElementOnCmdError
    return ESP_OK
  else
    return ESP_OK

/-- `audio_element_process_running`. -/
def audioElementProcessRunning : ElProg ℤ := do
  let el ← element
  if el.state.val < AelState.running.val ∨ el.isRunning = false then
    return ESP_ERR_INVALID_STATE
  else
    let processLen ← callProcess
    audioElementProcessed processLen

/-- The loop body of `audio_element_task` up to the process step, for a received command.  The loop
is left if the result is `AEL_IO_ABORT`. -/
def audioElementTaskCmd (cmd : AelCmd) : ElProg ℤ := do
  let ret ← audioElementOnCmd cmd
  if ret ≠ ESP_OK then
    xEventGroupSetBits .stopped
  return ret

/-- `audio_element_task` before its loop. -/
def audioElementTaskBegin : ElProg Unit := do
  setEl fun el => { el with taskRun := true }
  xEventGroupSetBits .taskCreated
  audioElementForceSetState .init
  audioEventIfaceSetCmdWaitingTimeout portMAX_DELAY
  let el ← element
  if 0 < el.bufSize then
    let buf ← Prog.invoke .calloc
    if buf = 0 then
      setEl fun el => { el with taskRun := false }
  xEventGroupClearBits .stopped

/-- `audio_element_task` after its loop. -/
def audioElementTaskEnd : ElProg Unit := do
  let el ← element
  if el.isOpen ∧ el.hasClose then
    callClose
    audioElementForceSetState .stopped
  setEl fun el => { el with isOpen := false }
  setEl fun el => { el with stopping := false, taskRun := false }
  xEventGroupSetBits .stopped
  xEventGroupSetBits .resumed
  xEventGroupSetBits .taskDestroyed

end AudioPipeline
