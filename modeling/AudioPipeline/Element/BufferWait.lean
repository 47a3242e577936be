import AudioPipeline.Element.Basic
import AudioPipeline.Ringbuf.Threads

/-!
# Waiting for a buffer level (`audio_element.c`)

One call of `audio_element_wait_for_buffer` after another, beside the calls of
`audio_element_output` that the element task makes and what other threads do with the output ring.
The ring is an `RbSys`, in which the element task alone writes.

`BUFFER_REACH_LEVEL_BIT` is all that is kept of the event group: `xEventGroupWaitBits` returns when
the bit is set, when the timeout has passed, or without a cause, and the bit is what it returns.
-/

namespace AudioPipeline

/-- Where the element task is in `audio_element_output`. -/
inductive OutputPc
  | idle
  | writing
  /-- `rb_write` has returned; about to call `rb_bytes_filled` -/
  | wrote (outputLen : ℤ)
  /-- about to compare -/
  | compare (outputLen : ℤ) (filled : ℕ)
  /-- about to set the bit -/
  | set
  deriving DecidableEq

/-- Where a thread is in `audio_element_wait_for_buffer`. -/
inductive BufferWaitPc
  | idle
  /-- `out_buf_size_expect` is stored; about to clear the bit -/
  | stored
  /-- in `xEventGroupWaitBits` -/
  | waiting
  | returned (ret : ℤ)
  deriving DecidableEq

/-- An element with an output ring. `reached` and `failed` tell what has happened since the latest
wait was called; no step looks at them. -/
structure BufferWait (ι : Type) where
  ring : RbSys ι
  output : OutputPc
  outBufSizeExpect : ℤ
  /-- `BUFFER_REACH_LEVEL_BIT` -/
  reachLevel : Bool
  wait : BufferWaitPc
  /-- in some state of the wait the ring held `size_expect` bytes -/
  reached : Bool
  /-- an `rb_write` of `audio_element_output` has returned an error during the wait -/
  failed : Bool

inductive BufferWaitLabel (ι : Type)
  /-- `audio_element_wait_for_buffer(el, size_expect, _)` is called -/
  | call (sizeExpect : ℤ)
  /-- the call moves on; `timeout` says that `xEventGroupWaitBits` does not wait for the bit -/
  | wait (timeout : Bool)
  /-- the element task calls `audio_element_output(el, bytes, |bytes|)` -/
  | output (bytes : List UInt8)
  /-- a thread moves at the ring -/
  | ring (l : RbLabel ι)
  /-- the element task moves on behind its `rb_write` -/
  | task
  deriving DecidableEq

namespace BufferWait

variable {ι : Type} [DecidableEq ι]

/-- An element that is in no call; `bit` and `sizeExpect` are left over. -/
def init (rb : Ringbuf) (sizeExpect : ℤ) (bit : Bool) : BufferWait ι :=
  { ring := .init rb, output := .idle, outBufSizeExpect := sizeExpect, reachLevel := bit,
    wait := .idle, reached := false, failed := false }

/-- The wait has been called and has not returned. -/
def Waits (s : BufferWait ι) : Prop := s.wait = .stored ∨ s.wait = .waiting

instance (s : BufferWait ι) : Decidable s.Waits := inferInstanceAs (Decidable (_ ∨ _))

/-- The ring holds what the wait asks for. -/
def AtLevel (s : BufferWait ι) : Prop := s.outBufSizeExpect ≤ s.ring.rb.fillCnt

instance (s : BufferWait ι) : Decidable s.AtLevel := inferInstanceAs (Decidable (_ ≤ _))

/-- The level is noted in the state that a step has led to. -/
def observe (s : BufferWait ι) : BufferWait ι :=
  { s with reached := s.reached || decide (s.Waits ∧ s.AtLevel) }

/-- What `rb_write` returns to the task with this step. -/
def returns (task : ι) (s : BufferWait ι) : RbLabel ι → Option ℤ
  | .step t _ =>
    if t = task then
      match s.ring.thread t with
      | .writing c =>
        match c.pc with
        | .ret v => some v
        | .lock | .release | .block | .err _ => none
      | .idle | .reading _ | .control _ _ => none
    else none
  | .read _ _ | .write _ _ | .control _ _ | .reset => none

/-- A step at the ring. -/
def moveRing (task : ι) (s : BufferWait ι) (l : RbLabel ι) : Option (BufferWait ι) :=
  (s.ring.step l).map fun ring =>
    match s.returns task l with
    | none => { s with ring := ring }
    | some v =>
      { s with ring := ring, output := .wrote v, failed := s.failed || decide (s.Waits ∧ v < 0) }

/-- `audio_element_output` behind its `rb_write`. -/
def moveTask (s : BufferWait ι) : Option (BufferWait ι) :=
  match s.output with
  | .wrote outputLen => some { s with output := .compare outputLen (rbBytesFilled s.ring.rb) }
  | .compare outputLen filled =>
    if (filled : ℤ) > s.outBufSizeExpect ∨ outputLen < 0 then some { s with output := .set }
    else some { s with output := .idle }
  | .set => some { s with output := .idle, reachLevel := true }
  | .idle | .writing => none

/-- `audio_element_wait_for_buffer` behind its first line. -/
def moveWait (s : BufferWait ι) (timeout : Bool) : Option (BufferWait ι) :=
  match s.wait with
  | .stored => some { s with wait := .waiting, reachLevel := false }
  | .waiting =>
    if s.reachLevel = true ∨ timeout = true then
      some { s with wait := .returned (if s.reachLevel then ESP_OK else ESP_FAIL) }
    else none
  | .idle | .returned _ => none

/-- One step, before the level is noted. -/
def move (task : ι) (s : BufferWait ι) : BufferWaitLabel ι → Option (BufferWait ι)
  | .call sizeExpect =>
    if s.Waits then none
    else some { s with outBufSizeExpect := sizeExpect, wait := .stored, reached := false,
                       failed := false }
  | .wait timeout => s.moveWait timeout
  | .output bytes =>
    if s.output = .idle then
      if bytes = [] then some s
      else (s.ring.step (.write task bytes)).map fun ring =>
        { s with ring := ring, output := .writing }
    else none
  -- nobody else writes
  | .ring (.write _ _) => none
  | .ring l => s.moveRing task l
  | .task => s.moveTask

/-- The interleaving of the threads. -/
def step (task : ι) (s : BufferWait ι) (l : BufferWaitLabel ι) : Option (BufferWait ι) :=
  (s.move task l).map observe

end BufferWait

end AudioPipeline
