import AudioPipeline.Element.Basic
import AudioPipeline.Ringbuf.Trace

/-!
# The copy stages (`_fatfs_process`, `_http_process`, `_pcm_process`)

A stage takes a block from its input and passes it on to its output ring, in which the next element
reads meanwhile.  `CopySys` is the stage with its two ends: the output ring is shared with other
threads, and so is the input, if it is a ring; otherwise it is a callback.
-/

namespace AudioPipeline

/-- The elements whose process callback copies. -/
inductive CopyStage
  | fatfs
  | http
  | pcm
  deriving DecidableEq

/-- A finished call of the process callback: the bytes that were obtained from the input, those of
them that went to the output ring, and what it returned. -/
structure CopyCall where
  got : List UInt8
  put : List UInt8
  ret : ℤ
  deriving DecidableEq

/-- Where the stage stands. -/
inductive CopyPc
  | idle
  /-- in `audio_element_input` -/
  | input
  /-- in `audio_element_output`, with the bytes that were obtained -/
  | output (got : List UInt8)

/-- A copy stage and its ends; `input` is `none` for a callback. -/
structure CopySys (ι : Type) where
  input : Option (RbTrace ι)
  output : RbTrace ι
  pc : CopyPc
  calls : List CopyCall

inductive CopyLabel (ι : Type)
  /-- the process callback is called with `in_len` bytes of buffer -/
  | call (inLen : ℕ)
  /-- something happens to the input ring -/
  | inputRing (l : RbLabel ι)
  /-- something happens to the output ring -/
  | outputRing (l : RbLabel ι)
  /-- the read callback has obtained `block`, or returns a code -/
  | callback (result : Except ℤ (List UInt8)) (stopping : Bool)
  /-- `rb_read` has returned -/
  | inputDone (stopping : Bool)
  /-- `rb_write` has returned -/
  | outputDone

namespace CopySys

variable {ι : Type} [DecidableEq ι]

/-- A new stage. -/
def init (input : Option Ringbuf) (output : Ringbuf) : CopySys ι where
  input := input.map RbTrace.init
  output := RbTrace.init output
  pc := .idle
  calls := []

/-- The process callback returns. -/
def finish (s : CopySys ι) (call : CopyCall) : CopySys ι :=
  { s with pc := .idle, calls := s.calls ++ [call] }

/-- The process callback behind `audio_element_input`, which has returned `rSize` and left `block`
in the buffer; `got` are the bytes that were obtained for it. -/
def afterInput (stage : CopyStage) (w : ι) (s : CopySys ι) (got block : List UInt8) (rSize : ℤ)
    (stopping : Bool) : Option (CopySys ι) :=
  if stage = .http ∧ stopping then some (s.finish ⟨got, [], AEL_IO_ABORT⟩)
  else if 0 < rSize then
    (s.output.step (.write w (block.take rSize.toNat))).map fun output =>
      { s with output := output, pc := .output got }
  else some (s.finish ⟨got, [], rSize⟩)

/-- The call that the thread `w` makes on the ring has returned. -/
def returned (ring : RbTrace ι) (w : ι) : Bool :=
  match ring.sys.thread w with
  | .reading c => match c.pc with
    | .ret _ => true
    | _ => false
  | .writing c => match c.pc with
    | .ret _ => true
    | _ => false
  | _ => false

/-- What may happen to a ring in between: the stage, in the thread `w`, makes its calls itself. -/
def admits (w : ι) (ring : RbTrace ι) : RbLabel ι → Bool
  | .read t _ | .write t _ | .control t _ => t ≠ w
  | .reset => true
  | .step t _ => t ≠ w || !returned ring w

/-- The steps of a stage that runs in the thread `w`, and of the threads at its ends. -/
def step (stage : CopyStage) (w : ι) (s : CopySys ι) : CopyLabel ι → Option (CopySys ι)
  | .call inLen =>
    match s.pc, s.input with
    | .idle, none => some { s with pc := .input }
    | .idle, some ring =>
      (ring.step (.read w inLen)).map fun ring => { s with input := some ring, pc := .input }
    | _, _ => none
  | .inputRing l =>
    match s.input with
    | some ring =>
      if admits w ring l then (ring.step l).map fun ring => { s with input := some ring } else none
    | none => none
  | .outputRing l =>
    if admits w s.output l then (s.output.step l).map fun output => { s with output := output }
    else none
  | .callback result stopping =>
    match s.pc, s.input with
    | .input, none =>
      match result with
      | .ok block => s.afterInput stage w block block block.length stopping
      | .error code => if code ≤ 0 then s.afterInput stage w [] [] code stopping else none
    | _, _ => none
  | .inputDone stopping =>
    match s.pc, s.input with
    | .input, some ring =>
      match ring.sys.thread w with
      | .reading c =>
        match c.pc with
        | .ret v =>
          (ring.step (.step w false)).bind fun ring' =>
            { s with input := some ring' }.afterInput stage w (ring.log w).moved c.buf v stopping
        | _ => none
      | _ => none
    | _, _ => none
  | .outputDone =>
    match s.pc with
    | .output got =>
      match s.output.sys.thread w with
      | .writing c =>
        match c.pc with
        | .ret v =>
          (s.output.step (.step w false)).map fun output =>
            { s with output := output }.finish ⟨got, (s.output.log w).moved, v⟩
        | _ => none
      | _ => none
    | _ => none

end CopySys

end AudioPipeline
