import AudioPipeline.Lib.Lts
import Mathlib.Data.BitVec
import Mathlib.Data.Fintype.Basic
import Mathlib.Data.Nat.Notation

/-!
# Event groups (`event_groups.c`)

A call of `xEventGroupWaitBits` holds the mutex twice: up to `pthread_cond_timedwait` and from there
on.  The other calls hold it once.  These sections are the steps of the threads that use a group,
with the choices of the condition variables (which thread a signal wakes, which thread wakes
without one) in the labels.  A thread takes the mutex again in a step of its own, so that others can
come first.
-/

namespace AudioPipeline

/-- `EventBits_t` -/
abbrev EventBits := BitVec 32

/-- The arguments of `xEventGroupWaitBits`; when the deadline that `xTicksToWait` sets passes is up
to the run. -/
structure WaitCall where
  uxBitsToWaitFor : EventBits
  xClearOnExit : Bool
  xWaitForAllBits : Bool

/-- Where a thread is in its latest call of `xEventGroupWaitBits`; `late` tells that the deadline
has passed. -/
inductive WaitState
  | idle
  /-- on `eventGroupCond[i]`; `passedOver` tells that bit `i` was set in the meantime and the signal
  for it has woken another thread -/
  | blocked (call : WaitCall) (i : Fin 8) (late passedOver : Bool)
  /-- about to take the mutex again -/
  | woken (call : WaitCall) (late : Bool)
  | returned (call : WaitCall) (uxReturn : EventBits) (late : Bool)

/-- The condition variable that a thread is blocked on. -/
def WaitState.blockedOn : WaitState → Option (Fin 8)
  | .blocked _ i _ _ => some i
  | _ => none

/-- A group and the `n` threads that wait for its bits. -/
structure EventGroup (n : ℕ) where
  uxEventBits : EventBits
  threads : Fin n → WaitState

/-- `prvTestWaitCondition`. -/
def prvTestWaitCondition (uxCurrentEventBits uxBitsToWaitFor : EventBits)
    (xWaitForAllBits : Bool) : Bool :=
  if xWaitForAllBits = false then uxCurrentEventBits &&& uxBitsToWaitFor != 0
  else uxCurrentEventBits &&& uxBitsToWaitFor == uxBitsToWaitFor

namespace EventGroup

variable {n : ℕ}

/-- `xEventGroupCreate`, when nobody waits. -/
def xEventGroupCreate (n : ℕ) : EventGroup n := ⟨0, fun _ => .idle⟩

/-- A thread moves on. -/
def setThread (g : EventGroup n) (t : Fin n) (st : WaitState) : EventGroup n :=
  { g with threads := Function.update g.threads t st }

@[simp] theorem setThread_uxEventBits (g : EventGroup n) (t : Fin n) (st : WaitState) :
    (g.setThread t st).uxEventBits = g.uxEventBits := rfl

@[simp] theorem setThread_self (g : EventGroup n) (t : Fin n) (st : WaitState) :
    (g.setThread t st).threads t = st := Function.update_self ..

theorem setThread_ne (g : EventGroup n) {t u : Fin n} (h : u ≠ t) (st : WaitState) :
    (g.setThread t st).threads u = g.threads u := Function.update_of_ne h ..

/-- `xEventGroupWaitBits` from where it samples the bits to its return. -/
def exitWait (g : EventGroup n) (t : Fin n) (call : WaitCall) (late : Bool) : EventGroup n :=
  { g.setThread t (.returned call g.uxEventBits late) with
    uxEventBits := if call.xClearOnExit then g.uxEventBits &&& ~~~call.uxBitsToWaitFor
      else g.uxEventBits }

/-- `xEventGroupWaitBits` up to `pthread_cond_timedwait`; `none` where it aborts. -/
def xEventGroupWaitBits (g : EventGroup n) (t : Fin n) (call : WaitCall) : Option (EventGroup n) :=
  if call.uxBitsToWaitFor = 0 then none
  else if call.uxBitsToWaitFor &&& (call.uxBitsToWaitFor - 1) ≠ 0 then none
  else if prvTestWaitCondition g.uxEventBits call.uxBitsToWaitFor call.xWaitForAllBits then
    some (g.exitWait t call false)
  else
    match (List.finRange 8).find? fun (i : Fin 8) => call.uxBitsToWaitFor.getLsbD i with
    | some i => some (g.setThread t (.blocked call i false false))
    -- a bit that has no condition variable is not waited for
    | none => some (g.exitWait t call false)

/-- `xEventGroupClearBits`. -/
def xEventGroupClearBits (g : EventGroup n) (uxBitsToClear : EventBits) : EventGroup n :=
  { g with uxEventBits := g.uxEventBits &&& ~~~uxBitsToClear }

/-- `pthread_cond_signal(&eventGroupCond[i])` wakes one thread, or none if none is blocked there. -/
def signal (g : EventGroup n) (i : Fin 8) : Option (Fin n) → Option (EventGroup n)
  | none => if ∀ t, (g.threads t).blockedOn ≠ some i then some g else none
  | some t =>
    match g.threads t with
    | .blocked call j late _ =>
      if j = i then some (g.setThread t (.woken call late))
      else none
    | _ => none

/-- The signals of `xEventGroupSetBits`; `pick` chooses the thread that each wakes. -/
def signals (uxBitsToSet : EventBits) (pick : Fin 8 → Option (Fin n)) :
    List (Fin 8) → EventGroup n → Option (EventGroup n)
  | [], g => some g
  | i :: is, g =>
    if uxBitsToSet.getLsbD i then (g.signal i (pick i)).bind (signals uxBitsToSet pick is)
    else signals uxBitsToSet pick is g

/-- A thread that is still blocked after a signal for it was due. -/
def passOver (uxBitsToSet : EventBits) : WaitState → WaitState
  | .blocked call i late passedOver =>
    .blocked call i late (passedOver || uxBitsToSet.getLsbD i)
  | st => st

/-- `xEventGroupSetBits`; `none` where it aborts. -/
def xEventGroupSetBits (g : EventGroup n) (uxBitsToSet : EventBits)
    (pick : Fin 8 → Option (Fin n)) : Option (EventGroup n) :=
  if uxBitsToSet = 0 then none
  else
    (signals uxBitsToSet pick (List.finRange 8)
      { g with uxEventBits := g.uxEventBits ||| uxBitsToSet }).map fun g =>
        { g with threads := fun t => passOver uxBitsToSet (g.threads t) }

end EventGroup

/-- The steps of the threads. -/
inductive WaitLabel (n : ℕ)
  | waitBits (t : Fin n) (call : WaitCall)
  | clearBits (uxBitsToClear : EventBits)
  | setBits (uxBitsToSet : EventBits) (pick : Fin 8 → Option (Fin n))
  /-- the deadline of a call passes -/
  | expire (t : Fin n)
  /-- the condition wait ends without a signal: it times out, or it ends spuriously -/
  | wake (t : Fin n)
  /-- a woken thread takes the mutex again and returns -/
  | relock (t : Fin n)

namespace EventGroup

variable {n : ℕ}

/-- A thread that is in no call makes one. -/
def callWait (g : EventGroup n) (t : Fin n) (call : WaitCall) : Option (EventGroup n) :=
  match g.threads t with
  | .idle | .returned _ _ _ => g.xEventGroupWaitBits t call
  | .blocked _ _ _ _ | .woken _ _ => none

/-- The deadline of a call passes. -/
def expire (g : EventGroup n) (t : Fin n) : Option (EventGroup n) :=
  match g.threads t with
  | .blocked call i _ passedOver => some (g.setThread t (.blocked call i true passedOver))
  | .woken call _ => some (g.setThread t (.woken call true))
  | .idle | .returned _ _ _ => none

/-- A condition wait ends without a signal. -/
def wake (g : EventGroup n) (t : Fin n) : Option (EventGroup n) :=
  match g.threads t with
  | .blocked call _ late _ => some (g.setThread t (.woken call late))
  | .idle | .woken _ _ | .returned _ _ _ => none

/-- A woken thread takes the mutex again. -/
def relock (g : EventGroup n) (t : Fin n) : Option (EventGroup n) :=
  match g.threads t with
  | .woken call late => some (g.exitWait t call late)
  | .idle | .blocked _ _ _ _ | .returned _ _ _ => none

/-- One step; `none` if it cannot be taken. -/
def step (g : EventGroup n) : WaitLabel n → Option (EventGroup n)
  | .waitBits t call => g.callWait t call
  | .clearBits uxBitsToClear => some (g.xEventGroupClearBits uxBitsToClear)
  | .setBits uxBitsToSet pick => g.xEventGroupSetBits uxBitsToSet pick
  | .expire t => g.expire t
  | .wake t => g.wake t
  | .relock t => g.relock t

end EventGroup

end AudioPipeline
