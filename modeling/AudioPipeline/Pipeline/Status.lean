import AudioPipeline.Pipeline.Links
import Mathlib.Data.PNat.Defs

/-!
# Collecting states and listening to more (`audio_pipeline.c`)

`audio_pipeline_check_items_state` is told what an element has reported, and answers whether all
linked elements are where the application wants them.  `el_state` of an item is kept by element: no
element is registered twice.

`audio_pipeline_listen_more` is to throw away what waits in the event queues of the elements.
-/

namespace AudioPipeline

/-! ### `audio_element_status_t`, as numbers -/

abbrev AEL_STATUS_NONE : ℤ := 0
abbrev AEL_STATUS_ERROR_PROCESS : ℤ := 3
abbrev AEL_STATUS_INPUT_DONE : ℤ := 8
abbrev AEL_STATUS_INPUT_BUFFERING : ℤ := 9
abbrev AEL_STATUS_STATE_RUNNING : ℤ := 12
abbrev AEL_STATUS_STATE_PAUSED : ℤ := 13
abbrev AEL_STATUS_STATE_STOPPED : ℤ := 14
abbrev AEL_STATUS_STATE_FINISHED : ℤ := 15

/-! ### The states of the items -/

/-- The items of a pipeline, and what is remembered of each element. -/
structure ItemStates where
  elList : ElList
  elState : ℕ → ℤ

/-- The counters of `audio_pipeline_check_items_state`, and the states as it rewrites them. -/
structure ItemCount where
  elCnt : ℕ
  elStaCnt : ℕ
  elState : ℕ → ℤ

/-- The state of an item as it is rewritten from the state of its element. -/
def rewritten (st : AelState) (elState : ℤ) : ℤ :=
  if st = .stopped ∨ st = .finished ∨ st = .error then
    if st = .error then AEL_STATUS_ERROR_PROCESS else st.val + AEL_STATUS_INPUT_BUFFERING
  else elState

/-- Whether an item in this state is counted. -/
def counted (status elState : ℤ) : Bool :=
  if elState = AEL_STATUS_NONE then false
  else if status = elState then true
  else if status = AEL_STATUS_STATE_RUNNING then
    elState = AEL_STATUS_STATE_FINISHED ∨
      AEL_STATUS_NONE < elState ∧ elState < AEL_STATUS_INPUT_DONE
  else if status = AEL_STATUS_STATE_PAUSED then
    elState = AEL_STATUS_STATE_FINISHED ∨
      AEL_STATUS_NONE < elState ∧ elState < AEL_STATUS_INPUT_DONE
  else if status = AEL_STATUS_STATE_STOPPED then
    elState = AEL_STATUS_STATE_FINISHED ∨
      AEL_STATUS_NONE < elState ∧ elState < AEL_STATUS_INPUT_DONE
  else if status = AEL_STATUS_STATE_FINISHED then
    elState = AEL_STATUS_STATE_STOPPED ∨
      AEL_STATUS_NONE < elState ∧ elState < AEL_STATUS_INPUT_DONE
  else false

/-- The loop over the items. -/
def countItem (state : ℕ → AelState) (status : ℤ) (c : ItemCount) (item : ElementItem) :
    ItemCount :=
  if item.linked = false then c
  else
    let st := rewritten (state item.el) (c.elState item.el)
    { elCnt := c.elCnt + 1
      elStaCnt := if counted status st then c.elStaCnt + 1 else c.elStaCnt
      elState := Function.update c.elState item.el st }

namespace ItemStates

/-- `audio_pipeline_check_items_state`, with the states of the elements; `none` if the element is
not registered, and there is no item to write to. -/
def audioPipelineCheckItemsState (s : ItemStates) (state : ℕ → AelState) (el : ℕ) (status : ℤ) :
    Option (ℤ × ItemStates) :=
  if s.elList.has el then
    let c := s.elList.items.foldl (countItem state status)
      ⟨0, 0, Function.update s.elState el status⟩
    some (if c.elCnt ≠ 0 ∧ c.elStaCnt = c.elCnt then ESP_OK else ESP_FAIL,
      { s with elState := c.elState })
  else none

/-- `audio_pipeline_reset_items_state`. -/
def audioPipelineResetItemsState (s : ItemStates) : ItemStates :=
  { s with
    elState := s.elList.items.foldl (fun elState item =>
      if item.linked then Function.update elState item.el AEL_STATUS_NONE else elState) s.elState }

/-- One call after the other, with the same status: the results. -/
def checks (state : ℕ → AelState) (status : ℤ) : ItemStates → List ℕ → Option (List ℤ)
  | _, [] => some []
  | s, el :: els =>
    (s.audioPipelineCheckItemsState state el status).bind fun r =>
      (checks state status r.2 els).map (r.1 :: ·)

end ItemStates

/-! ### `audio_pipeline_listen_more` -/

/-- What `audio_queue_recv` returns: the length of the message, or -1 if the queue is empty.  Every
message of an event queue is an `audio_event_iface_msg_t`. -/
def audioQueueRecvReturns (sizeofMsg : ℕ+) : Option EventMsg → ℤ
  | some _ => (sizeofMsg : ℕ)
  | none => -1

namespace Events

variable (sizeofMsg : ℕ+)

/-- `audio_element_get_event_queue`: the external queue of the event interface. -/
def audioElementGetEventQueue (es : Events) (el : ℕ) : Option ℕ := (es.iface el).externalQueue

/-- The loop over one queue: it goes on while `audio_queue_recv` returns 0. -/
def listenLoop (q : ℕ) : ℕ → Events → Option Events
  | 0, _ => none
  | fuel + 1, es =>
    let r := es.audioQueueRecv q
    if audioQueueRecvReturns sizeofMsg r.1 = 0 then listenLoop q fuel r.2 else some r.2

/-- The loop for one element; descriptor 0 is no message queue, and receiving from it fails. -/
def listenOne (es : Events) (el : ℕ) : Option Events :=
  match es.audioElementGetEventQueue el with
  | none => some es
  | some q => listenLoop sizeofMsg q ((es.queue q).msgs.length + 1) es

/-- `audio_pipeline_listen_more`. -/
def audioPipelineListenMore : Events → List ℕ → Option Events
  | es, [] => some es
  | es, el :: els => (listenOne sizeofMsg es el).bind fun es => audioPipelineListenMore es els

end Events

end AudioPipeline
