import AudioPipeline.Ringbuf.Threads

/-!
# What a call of `rb_read` or `rb_write` has done

`RbTrace` is a shared ring together with a record for each thread of what happened to the ring in
the steps of its latest call.  The record is taken from the ring, not from the variables of the
call, and no step looks at it.
-/

namespace AudioPipeline

/-- What a call found when it looked at the ring under the lock. -/
structure RbCheck where
  /-- the bytes in the ring -/
  fill : ℕ
  /-- the bytes still wanted -/
  want : ℕ
  deriving DecidableEq, Repr

/-- What is known of the latest call of a thread. -/
structure CallLog where
  /-- `buf_len` of `rb_read` -/
  len : ℕ
  /-- `buf` of `rb_write` -/
  given : List UInt8
  /-- the contents of the ring when the call was made -/
  before : List UInt8
  /-- the bytes that left the ring in the steps of `rb_read`, or came to it in those of
  `rb_write` -/
  moved : List UInt8
  /-- the steps of the call -/
  steps : ℕ
  /-- some iteration of `rb_read` found `is_done_write` set when it computed `read_size` -/
  sawDone : Bool
  /-- what the latest iteration of `rb_read` found; `none` if it did not get the lock -/
  lastCheck : Option RbCheck
  /-- `is_done_write` and `fill_cnt` where the latest iteration of `rb_read` looked at the flag for
  the last time -/
  lastDone : Option (Bool × ℕ)

namespace CallLog

def ofRead (rb : Ringbuf) (len : ℕ) : CallLog :=
  { len := len, given := [], before := rb.contents, moved := [], steps := 0, sawDone := false,
    lastCheck := none, lastDone := none }

def ofWrite (rb : Ringbuf) (bytes : List UInt8) : CallLog :=
  { len := bytes.length, given := bytes, before := rb.contents, moved := [], steps := 0,
    sawDone := false, lastCheck := none, lastDone := none }

/-- A step of `rb_read` takes the ring from `rb` to `rb'`. -/
def read (log : CallLog) (rb rb' : Ringbuf) (c : ReadCall) (timeout : Bool) : CallLog :=
  let log := { log with
    moved := log.moved ++ rb.contents.take (rb.fillCnt - rb'.fillCnt), steps := log.steps + 1 }
  match c.pc with
  | .lock =>
    if timeout then { log with lastCheck := none }
    else { log with
      sawDone := log.sawDone || rb.isDoneWrite, lastCheck := some ⟨rb.fillCnt, c.bufLen⟩ }
  | .sized _ => { log with lastDone := some (rb.isDoneWrite, rb.fillCnt) }
  | _ => log

@[simp] theorem read_moved (log : CallLog) (rb rb' : Ringbuf) (c : ReadCall) (timeout : Bool) :
    (log.read rb rb' c timeout).moved =
      log.moved ++ rb.contents.take (rb.fillCnt - rb'.fillCnt) := by
  unfold read
  cases c.pc with
  | lock => cases timeout <;> rfl
  | sized | release | block | err | clear | ret => rfl

theorem read_lastDone_sized {log : CallLog} {rb rb' : Ringbuf} {c : ReadCall} {timeout : Bool}
    {k : ℕ} (h : c.pc = .sized k) :
    (log.read rb rb' c timeout).lastDone = some (rb.isDoneWrite, rb.fillCnt) := by
  unfold read
  rw [h]

theorem read_lastDone {log : CallLog} {rb rb' : Ringbuf} {c : ReadCall} {timeout : Bool}
    (h : ∀ k, c.pc ≠ .sized k) : (log.read rb rb' c timeout).lastDone = log.lastDone := by
  unfold read
  cases hpc : c.pc with
  | lock => cases timeout <;> rfl
  | sized k => exact absurd hpc (h k)
  | release | block | err | clear | ret => rfl

/-- A step of `rb_write` takes the ring from `rb` to `rb'`. -/
def write (log : CallLog) (rb rb' : Ringbuf) : CallLog :=
  { log with moved := log.moved ++ rb'.contents.drop rb.fillCnt, steps := log.steps + 1 }

end CallLog

/-- A shared ring and the records of its threads. -/
structure RbTrace (ι : Type) where
  sys : RbSys ι
  log : ι → CallLog

namespace RbTrace

variable {ι : Type} [DecidableEq ι]

def init (rb : Ringbuf) : RbTrace ι :=
  { sys := RbSys.init rb, log := fun _ => CallLog.ofRead rb 0 }

/-- The record of the thread that takes the step, after it. -/
def record (s : RbTrace ι) (rb' : Ringbuf) : RbLabel ι → ι → CallLog
  | .read t len => Function.update s.log t (.ofRead s.sys.rb len)
  | .write t bytes => Function.update s.log t (.ofWrite s.sys.rb bytes)
  | .step t timeout =>
    match s.sys.thread t with
    | .reading c => Function.update s.log t ((s.log t).read s.sys.rb rb' c timeout)
    | .writing _ => Function.update s.log t ((s.log t).write s.sys.rb rb')
    | _ => s.log
  | _ => s.log

def step (s : RbTrace ι) (l : RbLabel ι) : Option (RbTrace ι) :=
  (s.sys.step l).map fun sys => { sys := sys, log := s.record sys.rb l }

/-- The states that the threads can bring a ring to. -/
def Reachable (rb : Ringbuf) (s : RbTrace ι) : Prop :=
  Lts.Reach step (fun _ _ => True) (init rb) s

end RbTrace

end AudioPipeline
