import AudioPipeline.Lib.Window

/-!
# The ring buffer (`ringbuf.c`)

`Ringbuf` is `struct ringbuf`; the pointers are kept as offsets from `p_o` and the two semaphores
as their counts.  A call of `rb_read` or `rb_write` is a small machine (`ReadCall`, `WriteCall`)
whose program counter stands at the places where other threads can be seen: before the lock is
taken, at each `sem_post`, at the semaphore wait, at the flag store that ends `rb_read`.

`rb_read` evaluates `rb->is_done_write` twice in one locked iteration, and the flag setters of this
file take no lock.  So the locked region of `rb_read` is two moves: `rbReadSize` (lines 186-200)
and `ReadCall.locked` (lines 202-254).  `rb_write` reads each flag once, and its locked region is
one move (`WriteCall.locked`).

Every length is positive and every buffer is a real one; the `buf == NULL` pseudo reads are left
out.
-/

namespace AudioPipeline

/-! ### Return codes (`ringbuf.h`) -/

abbrev RB_OK : ℤ := 0
abbrev RB_FAIL : ℤ := -1
abbrev RB_DONE : ℤ := -2
abbrev RB_ABORT : ℤ := -3
abbrev RB_TIMEOUT : ℤ := -4

/-! ### The structure -/

/-- `struct ringbuf`. -/
structure Ringbuf where
  /-- The block `p_o` points to. -/
  mem : List UInt8
  /-- `p_r - p_o`. -/
  pR : ℕ
  /-- `p_w - p_o`. -/
  pW : ℕ
  fillCnt : ℕ
  size : ℕ
  /-- The count of the semaphore `can_read`. -/
  canRead : ℕ
  /-- The count of the semaphore `can_write`. -/
  canWrite : ℕ
  abortRead : Bool
  abortWrite : Bool
  isDoneWrite : Bool
  unblockReaderFlag : Bool
  deriving DecidableEq, Repr

/-- The largest `int`. -/
def INT_MAX : ℤ := 2147483647

/-- The structure as `rb_create` fills it in. -/
def Ringbuf.empty (size : ℕ) : Ringbuf where
  mem := List.replicate size 0
  pR := 0
  pW := 0
  fillCnt := 0
  size := size
  canRead := 0
  canWrite := 0
  abortRead := false
  abortWrite := false
  isDoneWrite := false
  unblockReaderFlag := false

/-- `rb_create`; `allocated` says that every allocation and initialisation succeeded.  A negative
`n_blocks` reaches `calloc` as a huge `size_t` and fails.  `block_size * n_blocks` is computed in
`int`: a product past its range is undefined behaviour, and no ring is modelled for it. -/
def rbCreate (blockSize nBlocks : ℤ) (allocated : Bool) : Option Ringbuf :=
  if blockSize < 2 then none
  else if ¬allocated ∨ nBlocks < 0 ∨ INT_MAX < blockSize * nBlocks then none
  else some (Ringbuf.empty (blockSize * nBlocks).toNat)

/-- `rb_reset`. -/
def rbReset (rb : Ringbuf) : Ringbuf :=
  { rb with
    pR := 0, pW := 0, fillCnt := 0, isDoneWrite := false, unblockReaderFlag := false,
    abortRead := false, abortWrite := false }

/-- `rb_bytes_available`. -/
def rbBytesAvailable (rb : Ringbuf) : ℕ := rb.size - rb.fillCnt

/-- `rb_bytes_filled`. -/
def rbBytesFilled (rb : Ringbuf) : ℕ := rb.fillCnt

/-- The bytes of the ring, front first: `fill_cnt` bytes met going round from `p_r`. -/
def Ringbuf.contents (rb : Ringbuf) : List UInt8 := Circular.window rb.mem rb.pR rb.fillCnt

/-! ### The flag setters -/

/-- The single stores and posts that the control calls are made of. -/
inductive RbAct
  | setAbortRead
  | setAbortWrite
  | setDone
  | setUnblock
  | postRead
  | postWrite
  deriving DecidableEq, Repr

def RbAct.apply (rb : Ringbuf) : RbAct → Ringbuf
  | .setAbortRead => { rb with abortRead := true }
  | .setAbortWrite => { rb with abortWrite := true }
  | .setDone => { rb with isDoneWrite := true }
  | .setUnblock => { rb with unblockReaderFlag := true }
  | .postRead => { rb with canRead := rb.canRead + 1 }
  | .postWrite => { rb with canWrite := rb.canWrite + 1 }

/-- `rb_abort_read`. -/
def rbAbortRead : List RbAct := [.setAbortRead, .postRead]
/-- `rb_abort_write`. -/
def rbAbortWrite : List RbAct := [.setAbortWrite, .postWrite]
/-- `rb_abort`. -/
def rbAbort : List RbAct := rbAbortRead ++ rbAbortWrite
/-- `rb_done_write`. -/
def rbDoneWrite : List RbAct := [.setDone, .postRead]
/-- `rb_unblock_reader`. -/
def rbUnblockReader : List RbAct := [.setUnblock, .postRead]

/-- A control call with nothing in between. -/
def Ringbuf.act (rb : Ringbuf) (acts : List RbAct) : Ringbuf := acts.foldl RbAct.apply rb

/-- `rb_abort`, with nothing in between. -/
def Ringbuf.abort (rb : Ringbuf) : Ringbuf := rb.act rbAbort

/-- `rb_done_write`, with nothing in between. -/
def Ringbuf.doneWrite (rb : Ringbuf) : Ringbuf := rb.act rbDoneWrite

/-- A reader that finds the ring drained returns. -/
def Ringbuf.Marked (rb : Ringbuf) : Prop := rb.isDoneWrite = true ∨ rb.abortRead = true

/-- Nothing is in the ring, and nobody has marked it. -/
def Ringbuf.Clean (rb : Ringbuf) : Prop :=
  rb.fillCnt = 0 ∧ rb.abortRead = false ∧ rb.abortWrite = false ∧ rb.isDoneWrite = false

instance (rb : Ringbuf) : Decidable rb.Marked := inferInstanceAs (Decidable (_ ∨ _))

instance (rb : Ringbuf) : Decidable rb.Clean := inferInstanceAs (Decidable (_ ∧ _ ∧ _ ∧ _))

/-! ### `rb_read` -/

/-- Lines 186-200: what this iteration may take.  A short read is cut down to a multiple of 4,
unless that leaves nothing and the writer is done. -/
def rbReadSize (rb : Ringbuf) (bufLen : ℕ) : ℕ :=
  if rb.fillCnt < bufLen then
    let readSize := rb.fillCnt &&& 0xfffffffc
    if readSize = 0 ∧ rb.isDoneWrite then rb.fillCnt else readSize
  else bufLen

/-- Lines 231-249: the bytes copied out and the ring after it. -/
def rbReadMove (rb : Ringbuf) (readSize : ℕ) : List UInt8 × Ringbuf :=
  if rb.pR + readSize > rb.size then
    let rlen1 := rb.size - rb.pR
    let rlen2 := readSize - rlen1
    ((rb.mem.drop rb.pR).take rlen1 ++ rb.mem.take rlen2,
      { rb with pR := rlen2, fillCnt := rb.fillCnt - readSize })
  else
    ((rb.mem.drop rb.pR).take readSize,
      { rb with pR := rb.pR + readSize, fillCnt := rb.fillCnt - readSize })

/-- Where a thread stands in `rb_read`. -/
inductive ReadPc
  /-- about to take the lock for an iteration -/
  | lock
  /-- lock held, `read_size` computed -/
  | sized (readSize : ℕ)
  /-- nothing to read, unlocked, about to post `can_write` -/
  | release
  /-- in `rb_sem_block(rb->can_read)` -/
  | block
  /-- at the label `read_err`, about to post `can_write` if anything was read -/
  | err (retVal : ℤ)
  /-- about to clear `unblock_reader_flag` and return -/
  | clear (retVal : ℤ)
  /-- returned -/
  | ret (v : ℤ)
  deriving DecidableEq, Repr

/-- A call of `rb_read`: `bufLen` bytes are still wanted, `buf` were copied out so far. -/
structure ReadCall where
  bufLen : ℕ
  total : ℕ
  buf : List UInt8
  /-- Bytes were moved that no post of `can_write` has followed yet (not in the code). -/
  unposted : Bool
  pc : ReadPc
  deriving DecidableEq, Repr

/-- `rb_read(rb, buf, len, _)` is called. -/
def rbRead (len : ℕ) : ReadCall :=
  { bufLen := len, total := 0, buf := [], unposted := false, pc := .lock }

/-- The returned value (lines 259-264). -/
def ReadCall.result (c : ReadCall) (retVal : ℤ) : ℤ :=
  let total := if retVal = RB_FAIL ∨ retVal = RB_ABORT then retVal else (c.total : ℤ)
  if total > 0 then total else retVal

/-- Lines 202-254: the rest of the locked region. -/
def ReadCall.locked (rb : Ringbuf) (c : ReadCall) (readSize : ℕ) : Ringbuf × ReadCall :=
  if readSize = 0 then
    if rb.isDoneWrite then (rb, { c with pc := .err RB_DONE })
    else if rb.abortRead then (rb, { c with pc := .err RB_ABORT })
    else if rb.unblockReaderFlag then (rb, { c with pc := .err RB_TIMEOUT })
    else (rb, { c with pc := .release })
  else
    let moved := rbReadMove rb readSize
    (moved.2,
      { bufLen := c.bufLen - readSize, total := c.total + readSize, buf := c.buf ++ moved.1,
        unposted := true, pc := if c.bufLen - readSize = 0 then .err RB_OK else .lock })

/-- The next move of a thread inside `rb_read`.  `timeout`: the timed lock or the timed semaphore
wait it stands at fails. -/
def ReadCall.step (rb : Ringbuf) (c : ReadCall) (timeout : Bool) : Option (Ringbuf × ReadCall) :=
  match c.pc with
  | .lock =>
    if timeout then some (rb, { c with pc := .err RB_TIMEOUT })
    else some (rb, { c with pc := .sized (rbReadSize rb c.bufLen) })
  | .sized readSize => some (c.locked rb readSize)
  | .release => some (RbAct.postWrite.apply rb, { c with unposted := false, pc := .block })
  | .block =>
    if timeout then some (rb, { c with pc := .err RB_TIMEOUT })
    else if 0 < rb.canRead then some ({ rb with canRead := rb.canRead - 1 }, { c with pc := .lock })
    else none
  | .err retVal =>
    if 0 < c.total then
      some (RbAct.postWrite.apply rb, { c with unposted := false, pc := .clear retVal })
    else some (rb, { c with pc := .clear retVal })
  | .clear retVal =>
    some ({ rb with unblockReaderFlag := false }, { c with pc := .ret (c.result retVal) })
  | .ret _ => none

/-! ### `rb_write` -/

/-- Lines 289-293: what this iteration may put in. -/
def rbWriteSize (rb : Ringbuf) (bufLen : ℕ) : ℕ :=
  if bufLen < rbBytesAvailable rb then bufLen else rbBytesAvailable rb

/-- Lines 316-328: the ring after `bytes` were copied in. -/
def rbWriteMove (rb : Ringbuf) (bytes : List UInt8) : Ringbuf :=
  if rb.pW + bytes.length > rb.size then
    let wlen1 := rb.size - rb.pW
    let wlen2 := bytes.length - wlen1
    { rb with
      mem := Circular.blit (Circular.blit rb.mem rb.pW (bytes.take wlen1)) 0 (bytes.drop wlen1)
      pW := wlen2, fillCnt := rb.fillCnt + bytes.length }
  else
    { rb with
      mem := Circular.blit rb.mem rb.pW bytes
      pW := rb.pW + bytes.length, fillCnt := rb.fillCnt + bytes.length }

/-- Where a thread stands in `rb_write`. -/
inductive WritePc
  /-- about to take the lock for an iteration -/
  | lock
  /-- no space, unlocked, about to post `can_read` -/
  | release
  /-- in `rb_sem_block(rb->can_write)` -/
  | block
  /-- at the label `write_err`, about to post `can_read` if anything was written -/
  | err (retVal : ℤ)
  /-- returned -/
  | ret (v : ℤ)
  deriving DecidableEq, Repr

/-- A call of `rb_write`: `buf` is still to be written. -/
structure WriteCall where
  buf : List UInt8
  total : ℕ
  /-- Bytes were moved that no post of `can_read` has followed yet (not in the code). -/
  unposted : Bool
  pc : WritePc
  deriving DecidableEq, Repr

/-- `rb_write(rb, bytes, _)` is called. -/
def rbWrite (bytes : List UInt8) : WriteCall :=
  { buf := bytes, total := 0, unposted := false, pc := .lock }

/-- The returned value (lines 335-340). -/
def WriteCall.result (c : WriteCall) (retVal : ℤ) : ℤ :=
  let total := if retVal = RB_FAIL ∨ retVal = RB_ABORT then retVal else (c.total : ℤ)
  if total > 0 then total else retVal

/-- Lines 289-334: the locked region. -/
def WriteCall.locked (rb : Ringbuf) (c : WriteCall) : Ringbuf × WriteCall :=
  let writeSize := rbWriteSize rb c.buf.length
  if writeSize = 0 then
    if rb.isDoneWrite then (rb, { c with pc := .err RB_DONE })
    else if rb.abortWrite then (rb, { c with pc := .err RB_ABORT })
    else (rb, { c with pc := .release })
  else
    (rbWriteMove rb (c.buf.take writeSize),
      { buf := c.buf.drop writeSize, total := c.total + writeSize, unposted := true,
        pc := if c.buf.length - writeSize = 0 then .err RB_OK else .lock })

/-- The next move of a thread inside `rb_write`. -/
def WriteCall.step (rb : Ringbuf) (c : WriteCall) (timeout : Bool) :
    Option (Ringbuf × WriteCall) :=
  match c.pc with
  | .lock =>
    if timeout then some (rb, { c with pc := .err RB_TIMEOUT }) else some (c.locked rb)
  | .release => some (RbAct.postRead.apply rb, { c with unposted := false, pc := .block })
  | .block =>
    if timeout then some (rb, { c with pc := .err RB_TIMEOUT })
    else if 0 < rb.canWrite then
      some ({ rb with canWrite := rb.canWrite - 1 }, { c with pc := .lock })
    else none
  | .err retVal =>
    if 0 < c.total then
      some (RbAct.postRead.apply rb, { c with unposted := false, pc := .ret (c.result retVal) })
    else some (rb, { c with pc := .ret (c.result retVal) })
  | .ret _ => none

end AudioPipeline
