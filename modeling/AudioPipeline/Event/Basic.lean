import AudioPipeline.Element.Basic

/-!
# The event interface (`audio_event_iface.c`)

`EventIface` is `struct audio_event_iface`, as far as the queues of messages depend on it.  A queue
is a POSIX message queue: a bounded list in which every message has the same priority.  The
external queue of an interface is the internal queue of its listener, under the same descriptor.

`EventSys` is a set of interfaces around one listener, each step one call.  Its fields after
`events` are the history: no step looks at them but `destroyed`, since a freed interface is not
used again.
-/

namespace AudioPipeline

/-- `audio_event_iface_msg_t`: the interface it was sent through, and the rest of it. -/
structure EventMsg where
  source : ℕ
  data : ℤ
  deriving DecidableEq, Repr

/-- A message queue: `mq_maxmsg`, and the messages in it, oldest first. -/
structure MsgQueue where
  maxmsg : ℕ
  msgs : List EventMsg

/-- `struct audio_event_iface`; `none` is the descriptor `0`. -/
structure EventIface where
  internalQueue : Option ℕ
  externalQueue : Option ℕ
  internalQueueSize : ℕ
  externalQueueSize : ℕ
  deriving DecidableEq, Repr

/-- The interfaces, by handle, and the message queues, by descriptor. -/
structure Events where
  iface : ℕ → EventIface
  queue : ℕ → MsgQueue

namespace Events

/-- Writes the messages of a queue. -/
def setMsgs (es : Events) (q : ℕ) (msgs : List EventMsg) : Events :=
  { es with queue := Function.update es.queue q { es.queue q with msgs := msgs } }

/-- `evt->external_queue = …`. -/
def setExternal (es : Events) (evt : ℕ) (q : Option ℕ) : Events :=
  { es with iface := Function.update es.iface evt { es.iface evt with externalQueue := q } }

/-- `audio_queue_send` without waiting. -/
def audioQueueSend (es : Events) (q : ℕ) (msg : EventMsg) : ℤ × Events :=
  if (es.queue q).msgs.length < (es.queue q).maxmsg then
    (0, es.setMsgs q ((es.queue q).msgs ++ [msg]))
  else
    (-1, es)

/-- `audio_queue_recv`, once it no longer waits. -/
def audioQueueRecv (es : Events) (q : ℕ) : Option EventMsg × Events :=
  match (es.queue q).msgs with
  | [] => (none, es)
  | msg :: msgs => (some msg, es.setMsgs q msgs)

/-- `audio_queue_delete`. -/
def audioQueueDelete (es : Events) (q : ℕ) : Events :=
  { es with queue := Function.update es.queue q { maxmsg := 0, msgs := [] } }

/-- `audio_event_iface_cmd`. -/
def audioEventIfaceCmd (es : Events) (evt : ℕ) (msg : EventMsg) : ℤ × Events :=
  match (es.iface evt).internalQueue with
  | none => (ESP_OK, es)
  | some q =>
    let r := es.audioQueueSend q msg
    (if r.1 < 0 then ESP_FAIL else ESP_OK, r.2)

/-- `audio_event_iface_sendout`. -/
def audioEventIfaceSendout (es : Events) (evt : ℕ) (msg : EventMsg) : ℤ × Events :=
  match (es.iface evt).externalQueue with
  | none => (ESP_OK, es)
  | some q =>
    let r := es.audioQueueSend q msg
    (if r.1 < 0 then ESP_FAIL else ESP_OK, r.2)

/-- `audio_event_iface_read`. -/
def audioEventIfaceRead (es : Events) (evt : ℕ) : Option EventMsg × Events :=
  match (es.iface evt).internalQueue with
  | none => (none, es)
  | some q => es.audioQueueRecv q

/-- The loops of `audio_event_iface_discard`: receives until the queue is empty. -/
def drain (es : Events) (queue : Option ℕ) (size : ℕ) : Events :=
  match queue with
  | none => es
  | some q => if size ≠ 0 then es.setMsgs q [] else es

/-- `audio_event_iface_discard`. -/
def audioEventIfaceDiscard (es : Events) (evt : ℕ) : Events :=
  (es.drain (es.iface evt).externalQueue (es.iface evt).externalQueueSize).drain
    (es.iface evt).internalQueue (es.iface evt).internalQueueSize

/-- `audio_event_iface_destroy`. -/
def audioEventIfaceDestroy (es : Events) (evt : ℕ) : Events :=
  match (es.iface evt).internalQueue with
  | none => es.audioEventIfaceDiscard evt
  | some q => (es.audioEventIfaceDiscard evt).audioQueueDelete q

/-- `audio_event_iface_set_listener`. -/
def audioEventIfaceSetListener (es : Events) (evt listener : ℕ) : ℤ × Events :=
  match (es.iface listener).internalQueue with
  | none => (ESP_ERR_INVALID_ARG, es)
  | some q =>
    if (es.iface listener).internalQueueSize = 0 then (ESP_ERR_INVALID_ARG, es)
    else (ESP_OK, (es.audioEventIfaceDiscard listener).setExternal evt (some q))

/-- `audio_event_iface_remove_listener`. -/
def audioEventIfaceRemoveListener (es : Events) (listen evt : ℕ) : ℤ × Events :=
  if (es.iface evt).externalQueue = none ∨ (es.iface evt).externalQueueSize = 0 then
    (ESP_ERR_INVALID_ARG, es)
  else (ESP_OK, (es.audioEventIfaceDiscard listen).setExternal evt none)

/-- What `audio_element_run` does to the events of the element: a new task begins with empty
queues. -/
def audioElementRun (es : Events) (evt : ℕ) (taskRun : Bool) : Events :=
  if taskRun then es else es.audioEventIfaceDiscard evt

end Events

/-- The messages of the source that wait in the queue. -/
def Events.pending (es : Events) (q b : ℕ) : List ℤ :=
  ((es.queue q).msgs.filter fun msg => msg.source = b).map EventMsg.data

/-! ### Interfaces around one listener -/

inductive EventLabel
  /-- `audio_event_iface_sendout` -/
  | sendout (evt : ℕ) (data : ℤ)
  /-- `audio_event_iface_cmd` -/
  | cmd (evt : ℕ) (data : ℤ)
  /-- `audio_event_iface_read` -/
  | read (evt : ℕ)
  /-- `audio_event_iface_set_listener` of a source to the listener -/
  | setListener (evt : ℕ)
  /-- `audio_event_iface_remove_listener` of a source from the listener -/
  | removeListener (evt : ℕ)
  /-- `audio_event_iface_discard` -/
  | discard (evt : ℕ)
  /-- `audio_event_iface_destroy` -/
  | destroy (evt : ℕ)
  /-- `audio_element_run` of the element whose interface this is; `taskRun`: it runs already -/
  | run (evt : ℕ) (taskRun : Bool)
  deriving DecidableEq

/-- The interface that a call is made on. -/
def EventLabel.evt : EventLabel → ℕ
  | .sendout evt _ | .cmd evt _ | .read evt | .setListener evt | .removeListener evt
  | .discard evt | .destroy evt | .run evt _ => evt

/-- Event interfaces and what happened to their messages. -/
structure EventSys where
  events : Events
  /-- The interfaces that were destroyed. -/
  destroyed : ℕ → Bool
  /-- For each source, what the listener is to read of it in the end: the messages sent with
  success, less those that an operation on the source itself or on the listener threw away. -/
  due : ℕ → List ℤ
  /-- For each source, what the listener has read of it. -/
  delivered : ℕ → List ℤ

namespace EventSys

/-- The listener's queue is `q`, and a call on `evt` has left the queues as in `es`.  What it took
out of the queue is not due any more, if it is of `evt` itself or if `evt` is the listener. -/
def noteDiscard (l q : ℕ) (s : EventSys) (evt : ℕ) (es : Events) : EventSys :=
  { s with
    events := es
    due := fun b => if evt = l ∨ evt = b then s.delivered b ++ es.pending q b else s.due b }

/-- A message was sent out. -/
def noteSent (s : EventSys) (evt : ℕ) (data : ℤ) (r : ℤ × Events) : EventSys :=
  if r.1 = ESP_OK ∧ (s.events.iface evt).externalQueue ≠ none then
    { s with events := r.2, due := Function.update s.due evt (s.due evt ++ [data]) }
  else { s with events := r.2 }

/-- The listener, or another interface, has read. -/
def noteRead (l : ℕ) (s : EventSys) (evt : ℕ) (r : Option EventMsg × Events) : EventSys :=
  match r.1 with
  | none => { s with events := r.2 }
  | some msg =>
    if evt = l then
      { s with
        events := r.2
        delivered := Function.update s.delivered msg.source
          (s.delivered msg.source ++ [msg.data]) }
    else { s with events := r.2 }

/-- A call around the listener `l` with the queue `q`. -/
def step (l q : ℕ) (s : EventSys) (lbl : EventLabel) : Option EventSys :=
  if s.destroyed lbl.evt then none
  else
    match lbl with
    | .sendout evt data =>
      some (s.noteSent evt data (s.events.audioEventIfaceSendout evt ⟨evt, data⟩))
    | .cmd evt data => some { s with events := (s.events.audioEventIfaceCmd evt ⟨evt, data⟩).2 }
    | .read evt => some (s.noteRead l evt (s.events.audioEventIfaceRead evt))
    | .setListener evt =>
      if evt = l ∨ s.destroyed l then none
      else some (s.noteDiscard l q evt (s.events.audioEventIfaceSetListener evt l).2)
    | .removeListener evt =>
      if evt = l ∨ s.destroyed l then none
      else some (s.noteDiscard l q evt (s.events.audioEventIfaceRemoveListener l evt).2)
    | .discard evt => some (s.noteDiscard l q evt (s.events.audioEventIfaceDiscard evt))
    | .destroy evt =>
      some { s.noteDiscard l q evt (s.events.audioEventIfaceDestroy evt) with
        destroyed := Function.update s.destroyed evt true }
    | .run evt taskRun =>
      if evt = l then none
      else some (s.noteDiscard l q evt (s.events.audioElementRun evt taskRun))

end EventSys

end AudioPipeline
