import AudioPipeline.Pipeline.Chain

/-!
# A chain of copy elements (`fatfs_stream.c`, `_fatfs_process`)

The process callback of every element is `_fatfs_process`, which takes a block from the input and
passes it on to the output.  The read callback of the first element delivers what a source has, in
chunks, and then returns 0; the write callback of the last one accepts everything.

`CopyChain` adds to a `Chain` where each process callback stands; whatever it does to an element or
to a ring buffer is a step of the chain.
-/

namespace AudioPipeline

/-- Where `_fatfs_process` stands. -/
inductive ProcessPc
  /-- about to call `audio_element_input` -/
  | input
  /-- in `rb_read` -/
  | reading
  /-- about to call `audio_element_output` for this block -/
  | output (block : List UInt8)
  /-- in `rb_write` -/
  | writing
  /-- about to return -/
  | ret (wSize : ℤ)
  deriving DecidableEq

/-- What a call of `rb_read` has put into the buffer, and what it has returned. -/
def RbThread.readResult : RbThread → Option (List UInt8 × ℤ)
  | .reading c =>
    match c.pc with
    | .ret v => some (c.buf, v)
    | _ => none
  | _ => none

/-- What a call of `rb_write` has returned. -/
def RbThread.writeResult : RbThread → Option ℤ
  | .writing c =>
    match c.pc with
    | .ret v => some v
    | _ => none
  | _ => none

/-- The thread of the element is created, and a `RESUME` is in its queue. -/
def ElSys.launched (e : ElSys) : ElSys :=
  { e with m := { e.m with el := { e.m.el with threadCreated := true, queue := [.resume] } } }

/-- A chain of `n` copy elements. -/
structure CopyChain (n : ℕ) where
  chain : Chain n
  /-- Where the process callback of each element stands, or is to begin. -/
  pc : Fin n → ProcessPc
  /-- What the source has still to deliver. -/
  source : List UInt8
  /-- What the write callback of the last element was given. -/
  received : List UInt8

inductive CopyChainLabel (n : ℕ)
  /-- the task of element `i` moves on outside of `_fatfs_process`, or this returns; `v` answers the
  callback that the task waits for, if it is another one -/
  | task (i : Fin n) (v : ℤ)
  /-- `_fatfs_process` of element `i` moves on; `chunk` is what the source delivers, if it is
  asked -/
  | process (i : Fin n) (chunk : List UInt8)
  /-- element `i` moves on in its call on ring buffer `h` -/
  | ring (h : ℕ) (i : Fin n) (timeout : Bool)
  deriving DecidableEq

namespace CopyChain

variable {n : ℕ}

/-- What `audio_pipeline_run` makes of new elements that are linked: each has its thread, and a
`RESUME` to handle. -/
def start (config : Fin n → AudioElementCfg) (rings : ℕ → Ringbuf) (source : List UInt8) :
    CopyChain n where
  chain :=
    { Chain.link config rings with
      cell := fun i => ((Chain.link config rings).cell i).launched }
  pc _ := .input
  source := source
  received := []

/-- `_fatfs_process` of element `i` goes on at `pc`. -/
def goto (s : CopyChain n) (i : Fin n) (pc : ProcessPc) (chain : Chain n) : CopyChain n :=
  { s with chain := chain, pc := Function.update s.pc i pc }

/-- `audio_element_input` has returned `rSize` and filled the buffer with `block`. -/
def afterInput (block : List UInt8) (rSize : ℤ) : ProcessPc :=
  if 0 < rSize then .output (block.take rSize.toNat) else .ret rSize

/-- `_fatfs_process` of element `i` moves on. -/
def processStep (s : CopyChain n) (i : Fin n) (chunk : List UInt8) : Option (CopyChain n) :=
  let el := (s.chain.cell i).m.el
  match s.pc i with
  | .input =>
    match el.input with
    | .rb (some h) =>
      (s.chain.step (.ring h (.read i el.bufSize.toNat))).map (s.goto i .reading)
    | .cb true =>
      if chunk <+: s.source ∧ (chunk.length : ℤ) ≤ el.bufSize ∧ (chunk = [] → s.source = []) then
        some { s.goto i (afterInput chunk chunk.length) s.chain with
          source := s.source.drop chunk.length }
      else none
    | .rb none | .cb false => some (s.goto i (.ret ESP_FAIL) s.chain)
  | .reading =>
    el.input.handle.bind fun h =>
      ((s.chain.ring h).sys.thread i).readResult.bind fun r =>
        (s.chain.step (.ring h (.step i false))).map (s.goto i (afterInput r.1 r.2))
  | .output block =>
    match el.output with
    | .rb (some h) => (s.chain.step (.ring h (.write i block))).map (s.goto i .writing)
    | .cb true =>
      some { s.goto i (.ret block.length) s.chain with received := s.received ++ block }
    | .rb none | .cb false => some (s.goto i (.ret 0) s.chain)
  | .writing =>
    el.output.handle.bind fun h =>
      ((s.chain.ring h).sys.thread i).writeResult.bind fun outputLen =>
        (s.chain.step (.ring h (.step i false))).map (s.goto i (.ret outputLen))
  | .ret _ => none

/-- What the task of element `i` is answered. -/
def answer (s : CopyChain n) (i : Fin n) (v : ℤ) : Option ℤ :=
  if (s.chain.cell i).task.Processing then
    match s.pc i with
    | .ret wSize => some wSize
    | _ => none
  else some v

/-- The interleaving of the tasks. -/
def step (s : CopyChain n) : CopyChainLabel n → Option (CopyChain n)
  | .task i v =>
    (s.answer i v).bind fun v => (s.chain.step (.el i (.task v))).map (s.goto i .input)
  | .process i chunk =>
    if (s.chain.cell i).task.Processing then s.processStep i chunk else none
  | .ring h i timeout =>
    if ((s.chain.ring h).sys.thread i).readResult = none ∧
        ((s.chain.ring h).sys.thread i).writeResult = none then
      (s.chain.step (.ring h (.step i timeout))).map fun chain => { s with chain := chain }
    else none

end CopyChain

end AudioPipeline
