import Mathlib.Data.List.Basic

/-!
# What a bounded queue is for

A `QueueFlow α cap` is the history of a queue that holds at most `cap` entries: what was ever put
in, what was ever taken out, and what is held now.  That nothing is lost, duplicated or reordered is
the field `conserved`, so no operation can build a history that breaks it.
-/

/-- The history of a bounded queue. -/
structure QueueFlow (α : Type*) (cap : ℕ) where
  /-- Everything put in, oldest first. -/
  written : List α
  /-- Everything taken out, oldest first. -/
  taken : List α
  /-- What is in the queue, front first. -/
  held : List α
  /-- What came out, then what is still held, is what went in. -/
  conserved : taken ++ held = written
  /-- The queue never holds more than its capacity. -/
  fits : held.length ≤ cap

namespace QueueFlow

variable {α : Type*} {cap : ℕ}

/-- The history of a queue nobody has used. -/
def empty : QueueFlow α cap := ⟨[], [], [], rfl, Nat.zero_le cap⟩

/-- `xs` is put in at the back. -/
def push (f : QueueFlow α cap) (xs : List α) (h : f.held.length + xs.length ≤ cap) :
    QueueFlow α cap where
  written := f.written ++ xs
  taken := f.taken
  held := f.held ++ xs
  conserved := by rw [← List.append_assoc, f.conserved]
  fits := by rwa [List.length_append]

/-- The first `k` entries are taken out. -/
def pop (f : QueueFlow α cap) (k : ℕ) : QueueFlow α cap where
  written := f.written
  taken := f.taken ++ f.held.take k
  held := f.held.drop k
  conserved := by rw [List.append_assoc, List.take_append_drop, f.conserved]
  fits := by
    rw [List.length_drop]
    have := f.fits
    omega

@[simp] theorem push_written (f : QueueFlow α cap) (xs : List α) (h) :
    (f.push xs h).written = f.written ++ xs := rfl

@[simp] theorem push_held (f : QueueFlow α cap) (xs : List α) (h) :
    (f.push xs h).held = f.held ++ xs := rfl

@[simp] theorem pop_taken (f : QueueFlow α cap) (k : ℕ) :
    (f.pop k).taken = f.taken ++ f.held.take k := rfl

@[simp] theorem pop_held (f : QueueFlow α cap) (k : ℕ) : (f.pop k).held = f.held.drop k := rfl

/-- One thing that can happen to a queue: nothing visible, a `push`, a `pop`, or a fresh start. -/
inductive Step : QueueFlow α cap → QueueFlow α cap → Prop
  | stutter (f : QueueFlow α cap) : Step f f
  | push (f : QueueFlow α cap) (xs : List α) (h : f.held.length + xs.length ≤ cap) :
    Step f (f.push xs h)
  | pop (f : QueueFlow α cap) (k : ℕ) : Step f (f.pop k)
  | clear (f : QueueFlow α cap) : Step f empty

end QueueFlow
