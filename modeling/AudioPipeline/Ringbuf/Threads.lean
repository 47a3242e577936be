import AudioPipeline.Lib.Lts
import AudioPipeline.Ringbuf.Basic
import Mathlib.Logic.Function.Basic

/-!
# A ring buffer shared by threads

`RbSys ι` is one ring, its mutex, and what each thread `t : ι` is doing with it.  A thread starts
a call of `rb_read`, `rb_write` or of a control function when it is idle and then moves through it
one step at a time; `RbSys.step` interleaves the threads in any order.  `rb_reset` takes no lock
and is admitted between locked iterations.

`copiedIn` and `copiedOut` record the bytes moved since the last `rb_reset`; no step looks at them.
-/

namespace AudioPipeline

/-- The control calls. -/
inductive RbControl
  | doneWrite
  | abort
  | unblockReader
  deriving DecidableEq, Repr

/-- The stores and posts of a control call, in order. -/
def RbControl.acts : RbControl → List RbAct
  | .doneWrite => rbDoneWrite
  | .abort => rbAbort
  | .unblockReader => rbUnblockReader

/-- What a thread is doing with the ring. -/
inductive RbThread
  | idle
  | reading (c : ReadCall)
  | writing (c : WriteCall)
  /-- in a control call, with the stores and posts `acts` of it to go -/
  | control (call : RbControl) (acts : List RbAct)
  deriving DecidableEq, Repr

/-- A ring and its threads. -/
structure RbSys (ι : Type) where
  rb : Ringbuf
  /-- The holder of `rb->lock` between two steps. -/
  lock : Option ι
  thread : ι → RbThread
  copiedIn : List UInt8
  copiedOut : List UInt8

inductive RbLabel (ι : Type)
  /-- thread `t` calls `rb_read(rb, buf, len, _)` -/
  | read (t : ι) (len : ℕ)
  /-- thread `t` calls `rb_write(rb, bytes, |bytes|, _)` -/
  | write (t : ι) (bytes : List UInt8)
  /-- thread `t` makes a control call -/
  | control (t : ι) (call : RbControl)
  /-- `rb_reset` -/
  | reset
  /-- thread `t` moves on; `timeout` says that the timed operation it stands at fails -/
  | step (t : ι) (timeout : Bool)
  deriving DecidableEq, Repr

namespace RbSys

variable {ι : Type} [DecidableEq ι]

/-- A new ring that no thread uses yet. -/
def init (rb : Ringbuf) : RbSys ι :=
  { rb := rb, lock := none, thread := fun _ => .idle, copiedIn := [], copiedOut := [] }

/-- Thread `t` goes over to `th`. -/
def goto (s : RbSys ι) (t : ι) (th : RbThread) : RbSys ι :=
  { s with thread := Function.update s.thread t th }

/-- A thread inside `rb_read` moves.  Taking the lock needs it free; it is held from the
computation of `read_size` to the end of the locked region. -/
def stepRead (s : RbSys ι) (t : ι) (c : ReadCall) (timeout : Bool) : Option (RbSys ι) :=
  match c.pc with
  | .ret _ => some (s.goto t .idle)
  | .lock =>
    if timeout = false ∧ s.lock ≠ none then none
    else (c.step s.rb timeout).map fun p =>
      { s.goto t (.reading p.2) with
        rb := p.1, lock := if timeout then s.lock else some t }
  | .sized _ =>
    (c.step s.rb timeout).map fun p =>
      { s.goto t (.reading p.2) with
        rb := p.1, lock := none, copiedOut := s.copiedOut ++ p.2.buf.drop c.buf.length }
  | _ => (c.step s.rb timeout).map fun p => { s.goto t (.reading p.2) with rb := p.1 }

/-- A thread inside `rb_write` moves.  Its locked region is one step. -/
def stepWrite (s : RbSys ι) (t : ι) (c : WriteCall) (timeout : Bool) : Option (RbSys ι) :=
  match c.pc with
  | .ret _ => some (s.goto t .idle)
  | .lock =>
    if timeout = false ∧ s.lock ≠ none then none
    else (c.step s.rb timeout).map fun p =>
      { s.goto t (.writing p.2) with
        rb := p.1, copiedIn := s.copiedIn ++ c.buf.take (c.buf.length - p.2.buf.length) }
  | _ => (c.step s.rb timeout).map fun p => { s.goto t (.writing p.2) with rb := p.1 }

/-- A thread inside a control call moves. -/
def stepControl (s : RbSys ι) (t : ι) (call : RbControl) : List RbAct → RbSys ι
  | [] => s.goto t .idle
  | a :: acts => { s.goto t (.control call acts) with rb := a.apply s.rb }

/-- The interleaving of the threads. -/
def step (s : RbSys ι) : RbLabel ι → Option (RbSys ι)
  | .read t len =>
    if s.thread t = .idle ∧ 0 < len then some (s.goto t (.reading (rbRead len))) else none
  | .write t bytes =>
    if s.thread t = .idle ∧ 0 < bytes.length then some (s.goto t (.writing (rbWrite bytes)))
    else none
  | .control t call =>
    if s.thread t = .idle then some (s.goto t (.control call call.acts)) else none
  | .reset =>
    if s.lock = none then some { s with rb := rbReset s.rb, copiedIn := [], copiedOut := [] }
    else none
  | .step t timeout =>
    match s.thread t with
    | .idle => none
    | .reading c => s.stepRead t c timeout
    | .writing c => s.stepWrite t c timeout
    | .control call acts => some (s.stepControl t call acts)

/-- The states that the threads can bring a ring to. -/
def Reachable (rb : Ringbuf) (s : RbSys ι) : Prop :=
  Lts.Reach step (fun _ _ => True) (init rb) s

end RbSys

end AudioPipeline
