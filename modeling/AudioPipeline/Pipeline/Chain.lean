import AudioPipeline.Element.Sys
import AudioPipeline.Ringbuf.Trace

/-!
# A linked chain of elements (`audio_pipeline.c`, `_pipeline_rb_linked`)

Element `i` of a chain writes to ring buffer `i` and reads from ring buffer `i - 1`; the first
element reads and the last one writes as it was configured.  The elements share nothing but these
rings: a step of one of them is a step of `ElSys` on the rings as they are now.

While the task of an element is inside the process callback it may call `rb_read` on the input ring
and `rb_write` on the output ring, as the thread `i` of these rings.
-/

namespace AudioPipeline

/-- What `_pipeline_rb_linked` sets in element `i` of `n`. -/
def pipelineRbLinked (n i : ℕ) (el : Element) : Element :=
  { el with
    input := if 0 < i then .rb (some (i - 1)) else el.input
    output := if i + 1 < n then .rb (some i) else el.output }

/-- The ring buffer behind a port. -/
def Port.handle : Port → Option ℕ
  | .rb handle => handle
  | .cb _ => none

/-- The task is inside the process callback. -/
def Task.Processing : Task → Bool
  | .inProc p => p.callback = some .process
  | _ => false

/-- The ring buffer has been changed by a function of an element. -/
def RbTrace.setRb {ι : Type} (s : RbTrace ι) (rb : Ringbuf) : RbTrace ι :=
  { s with sys := { s.sys with rb := rb } }

/-- A chain of `n` elements. -/
structure Chain (n : ℕ) where
  /-- The elements; the rings of a cell are not looked at. -/
  cell : Fin n → ElSys
  /-- The ring buffers, each with the calls that the process callbacks make on it. -/
  ring : ℕ → RbTrace (Fin n)

inductive ChainLabel (n : ℕ)
  /-- a step of element `i` -/
  | el (i : Fin n) (l : ElLabel)
  /-- a process callback calls `rb_read` or `rb_write` on ring buffer `h`, or moves on in the
  call -/
  | ring (h : ℕ) (l : RbLabel (Fin n))
  deriving DecidableEq

namespace Chain

variable {n : ℕ}

/-- New elements, linked, on these ring buffers. -/
def link (config : Fin n → AudioElementCfg) (rings : ℕ → Ringbuf) : Chain n where
  cell i := .ofElement (pipelineRbLinked n i (audioElementInit (config i))) rings
  ring h := .init (rings h)

/-- Element `i` on the rings as they are. -/
def view (s : Chain n) (i : Fin n) : ElSys :=
  { s.cell i with m := { (s.cell i).m with rings := fun h => (s.ring h).sys.rb } }

/-- Element `i` has made a step. -/
def put (s : Chain n) (i : Fin n) (e : ElSys) : Chain n where
  cell := Function.update s.cell i e
  ring h := (s.ring h).setRb (e.m.rings h)

/-- The process callback of element `i` is in no call on a ring. -/
def free (s : Chain n) (i : Fin n) : Bool :=
  ((s.cell i).m.el.input.handle.all fun h => (s.ring h).sys.thread i = .idle) &&
    (s.cell i).m.el.output.handle.all fun h => (s.ring h).sys.thread i = .idle

/-- What a process callback may do to ring buffer `h`. -/
def admits (s : Chain n) (h : ℕ) : RbLabel (Fin n) → Bool
  | .read i _ =>
    (s.cell i).task.Processing && s.free i && (s.cell i).m.el.input.handle = some h
  | .write i _ =>
    (s.cell i).task.Processing && s.free i && (s.cell i).m.el.output.handle = some h
  | .step _ _ => true
  | .control .. | .reset => false

/-- A step of element `i`.  Its process callback returns only when its calls have returned. -/
def stepEl (s : Chain n) (i : Fin n) (l : ElLabel) : Option (Chain n) :=
  match l with
  | .task v =>
    if (s.cell i).task.Processing ∧ s.free i = false then none
    else ((s.view i).step (.task v)).map (s.put i)
  | l => ((s.view i).step l).map (s.put i)

/-- The interleaving of the elements. -/
def step (s : Chain n) : ChainLabel n → Option (Chain n)
  | .el i l => s.stepEl i l
  | .ring h l =>
    if s.admits h l then
      ((s.ring h).step l).map fun ring => { s with ring := Function.update s.ring h ring }
    else none

end Chain

end AudioPipeline
