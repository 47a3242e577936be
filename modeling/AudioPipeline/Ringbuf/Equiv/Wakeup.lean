import AudioPipeline.Ringbuf.Equiv.Threads

/-!
# Wakeups on a ring with one reader and one writer

A thread that found nothing to do gives up the lock, posts the other side's semaphore and then
waits on its own, so the change it waits for can come in between.  `ReadCause` lists what lets the
next iteration of `rb_read` go on, `WriteCause` what lets that of `rb_write` go on, each with the
thread that still owes the post for it.

* `ReadCause.guarded_step`: whenever a cause for a waiting reader appears, `can_read` has been
  posted or the thread that made the change still has that post to perform.
* `WriteCause.guarded_step`: the same for a waiting writer and `can_write`, with one exception.
  `rb_done_write` posts `can_read` only, so a writer that waits in a full ring is not told.
* `no_lost_wakeup`: hence no wakeup is lost in any run in which the store of `rb_done_write` never
  meets a writer that waits, or is about to, with no post of `can_write` left over.
-/

namespace AudioPipeline

/-! ### Who owes which post -/

/-- Bytes were copied, and a post for them is ahead on every path to the return. -/
def ReadCall.OwesPost (c : ReadCall) : Prop :=
  c.unposted = true ∧ 0 < c.total ∧
    (c.pc = .lock ∨ (∃ k, c.pc = .sized k) ∨ c.pc = .release ∨ ∃ v, c.pc = .err v)

/-- Bytes were copied, and a post for them is ahead on every path to the return. -/
def WriteCall.OwesPost (c : WriteCall) : Prop :=
  c.unposted = true ∧ 0 < c.total ∧ (c.pc = .lock ∨ c.pc = .release ∨ ∃ v, c.pc = .err v)

/-- The thread is in a control call, has made the store `set` and performs `post` next. -/
def RbThread.Owes (set post : RbAct) : RbThread → Prop
  | .control call acts => set :: acts <:+ call.acts ∧ acts.head? = some post
  | _ => False

/-- What lets an iteration of `rb_read` move a byte or return. -/
inductive ReadCause
  | data
  | done
  | abort
  | unblock

/-- The cause is there for a reader that wants `bufLen` bytes. -/
def ReadCause.Holds (rb : Ringbuf) (bufLen : ℕ) : ReadCause → Prop
  | .data => rbReadSize { rb with isDoneWrite := false } bufLen ≠ 0
  | .done => rb.isDoneWrite = true
  | .abort => rb.abortRead = true
  | .unblock => rb.unblockReaderFlag = true

/-- The thread brought the cause about and has still to post `can_read`. -/
def ReadCause.OwedBy (th : RbThread) : ReadCause → Prop
  | .data => ∃ c, th = .writing c ∧ c.OwesPost
  | .done => th.Owes .setDone .postRead
  | .abort => th.Owes .setAbortRead .postRead
  | .unblock => th.Owes .setUnblock .postRead

/-- What lets an iteration of `rb_write` move a byte or return. -/
inductive WriteCause
  | space
  | done
  | abort

/-- The cause is there for a writer that has `bufLen` bytes to go. -/
def WriteCause.Holds (rb : Ringbuf) (bufLen : ℕ) : WriteCause → Prop
  | .space => rbWriteSize rb bufLen ≠ 0
  | .done => rb.isDoneWrite = true
  | .abort => rb.abortWrite = true

/-- The thread brought the cause about and has still to post `can_write`. -/
def WriteCause.OwedBy (th : RbThread) : WriteCause → Prop
  | .space => ∃ c, th = .reading c ∧ c.OwesPost
  | .done => th.Owes .setDone .postWrite
  | .abort => th.Owes .setAbortWrite .postWrite

/-- A reader that may take nothing has no data. -/
theorem ReadCause.not_data {rb : Ringbuf} {n : ℕ} (h : rbReadSize rb n = 0) :
    ¬ReadCause.data.Holds rb n := by
  intro hd
  apply hd
  unfold rbReadSize at h ⊢
  dsimp only at h ⊢
  split_ifs at h ⊢ <;> simp_all

/-- The causes are exactly what keeps an iteration of `rb_read` from its wait. -/
theorem ReadCall.locked_eq_release_iff (rb : Ringbuf) (c : ReadCall) :
    (c.locked rb (rbReadSize rb c.bufLen)).2.pc = .release ↔
      ∀ cause : ReadCause, ¬cause.Holds rb c.bufLen := by
  have hopen : rb.isDoneWrite = false →
      rbReadSize { rb with isDoneWrite := false } c.bufLen = rbReadSize rb c.bufLen := by
    intro h
    rw [← h]
  constructor
  · intro h cause
    unfold ReadCall.locked at h
    split_ifs at h with h0 h1 h2 h3
    all_goals simp at h
    cases cause with
    | data => exact ReadCause.not_data h0
    | done => exact h1
    | abort => exact h2
    | unblock => exact h3
  · intro h
    have hdone : rb.isDoneWrite = false := by simpa [ReadCause.Holds] using h .done
    have habort : rb.abortRead = false := by simpa [ReadCause.Holds] using h .abort
    have hunblock : rb.unblockReaderFlag = false := by simpa [ReadCause.Holds] using h .unblock
    have hdata : rbReadSize rb c.bufLen = 0 := by
      rw [← hopen hdone]
      simpa [ReadCause.Holds] using h .data
    unfold ReadCall.locked
    simp [hdata, hdone, habort, hunblock]

/-- The causes are exactly what keeps an iteration of `rb_write` from its wait. -/
theorem WriteCall.locked_eq_release_iff (rb : Ringbuf) (c : WriteCall) :
    (c.locked rb).2.pc = .release ↔ ∀ cause : WriteCause, ¬cause.Holds rb c.buf.length := by
  constructor
  · intro h cause
    unfold WriteCall.locked at h
    dsimp only at h
    split_ifs at h with h0 h1 h2
    all_goals simp at h
    cases cause with
    | space => exact fun hs => hs h0
    | done => exact h1
    | abort => exact h2
  · intro h
    have hdone : rb.isDoneWrite = false := by simpa [WriteCause.Holds] using h .done
    have habort : rb.abortWrite = false := by simpa [WriteCause.Holds] using h .abort
    have hspace : rbWriteSize rb c.buf.length = 0 := by simpa [WriteCause.Holds] using h .space
    unfold WriteCall.locked
    simp [hspace, hdone, habort]

/-! ### One call moves -/

section Call

variable {rb rb' : Ringbuf} {timeout : Bool}

/-- The locked region of `rb_write` copies nothing and stops or waits, or it copies something and
goes on or stops. -/
theorem WriteCall.locked_cases (rb : Ringbuf) (c : WriteCall) :
    (∃ pc, c.locked rb = (rb, { c with pc := pc }) ∧ (pc = .release ∨ ∃ v, pc = .err v)) ∨
      (c.locked rb).2.OwesPost ∧ (c.locked rb).1.canRead = rb.canRead := by
  unfold WriteCall.locked
  dsimp only
  by_cases h0 : rbWriteSize rb c.buf.length = 0
  · rw [if_pos h0]
    refine Or.inl ?_
    split_ifs
    · exact ⟨_, rfl, Or.inr ⟨_, rfl⟩⟩
    · exact ⟨_, rfl, Or.inr ⟨_, rfl⟩⟩
    · exact ⟨_, rfl, Or.inl rfl⟩
  · rw [if_neg h0]
    refine Or.inr ⟨⟨rfl, ?_, ?_⟩, by simp⟩
    · dsimp only
      omega
    · dsimp only
      split_ifs <;> simp

/-- The locked region of `rb_read` copies nothing and stops or waits, or it copies something and
goes on or stops. -/
theorem ReadCall.locked_cases (rb : Ringbuf) (c : ReadCall) (k : ℕ) :
    (∃ pc, c.locked rb k = (rb, { c with pc := pc }) ∧ (pc = .release ∨ ∃ v, pc = .err v)) ∨
      (c.locked rb k).2.OwesPost ∧ (c.locked rb k).1.canWrite = rb.canWrite := by
  unfold ReadCall.locked
  dsimp only
  by_cases h0 : k = 0
  · rw [if_pos h0]
    refine Or.inl ?_
    split_ifs
    · exact ⟨_, rfl, Or.inr ⟨_, rfl⟩⟩
    · exact ⟨_, rfl, Or.inr ⟨_, rfl⟩⟩
    · exact ⟨_, rfl, Or.inr ⟨_, rfl⟩⟩
    · exact ⟨_, rfl, Or.inl rfl⟩
  · rw [if_neg h0]
    refine Or.inr ⟨⟨rfl, ?_, ?_⟩, by simp⟩
    · dsimp only
      omega
    · dsimp only
      split_ifs <;> simp

/-- **A step of `rb_write` and `can_read`**: it posts, or owes a post afterwards, or it neither
owed one nor moved a byte. -/
theorem WriteCall.step_owes {c c' : WriteCall} (hs : c.step rb timeout = some (rb', c')) :
    rb.canRead ≤ rb'.canRead ∧
      (0 < rb'.canRead ∨ c'.OwesPost ∨ ¬c.OwesPost ∧ rb'.fillCnt = rb.fillCnt) := by
  unfold WriteCall.step at hs
  cases hpc : c.pc with
  | lock =>
    rw [hpc] at hs
    dsimp only at hs
    by_cases ht : timeout = true
    · rw [if_pos ht] at hs
      obtain ⟨rfl, rfl⟩ := Prod.mk.inj (Option.some.inj hs)
      refine ⟨le_rfl, Or.inr ?_⟩
      by_cases ho : c.OwesPost
      · exact Or.inl ⟨ho.1, ho.2.1, Or.inr (Or.inr ⟨_, rfl⟩)⟩
      · exact Or.inr ⟨ho, rfl⟩
    · rw [if_neg ht] at hs
      rcases c.locked_cases rb with ⟨pc, hl, hpc'⟩ | ⟨ho, hl⟩
      · rw [hl] at hs
        obtain ⟨rfl, rfl⟩ := Prod.mk.inj (Option.some.inj hs)
        refine ⟨le_rfl, Or.inr ?_⟩
        by_cases ho : c.OwesPost
        · exact Or.inl ⟨ho.1, ho.2.1, Or.inr hpc'⟩
        · exact Or.inr ⟨ho, rfl⟩
      · rw [Option.some.inj hs] at hl ho
        exact ⟨hl.ge, Or.inr (Or.inl ho)⟩
  | release =>
    rw [hpc] at hs
    obtain ⟨rfl, rfl⟩ := Prod.mk.inj (Option.some.inj hs)
    exact ⟨Nat.le_succ _, Or.inl (Nat.succ_pos _)⟩
  | block =>
    rw [hpc] at hs
    dsimp only at hs
    have ho : ¬c.OwesPost := by simp [WriteCall.OwesPost, hpc]
    split_ifs at hs <;> obtain ⟨rfl, rfl⟩ := Prod.mk.inj (Option.some.inj hs) <;>
      exact ⟨le_rfl, Or.inr (Or.inr ⟨ho, rfl⟩)⟩
  | err v =>
    rw [hpc] at hs
    dsimp only at hs
    split_ifs at hs with ht <;> obtain ⟨rfl, rfl⟩ := Prod.mk.inj (Option.some.inj hs)
    · exact ⟨Nat.le_succ _, Or.inl (Nat.succ_pos _)⟩
    · exact ⟨le_rfl, Or.inr (Or.inr ⟨fun ho => ht ho.2.1, rfl⟩)⟩
  | ret v =>
    rw [hpc] at hs
    cases hs

/-- **A step of `rb_read` and `can_write`**: it posts, or owes a post afterwards, or it neither
owed one nor moved a byte. -/
theorem ReadCall.step_owes {c c' : ReadCall} (hs : c.step rb timeout = some (rb', c')) :
    rb.canWrite ≤ rb'.canWrite ∧
      (0 < rb'.canWrite ∨ c'.OwesPost ∨ ¬c.OwesPost ∧ rb'.fillCnt = rb.fillCnt) := by
  unfold ReadCall.step at hs
  cases hpc : c.pc with
  | lock =>
    rw [hpc] at hs
    dsimp only at hs
    split_ifs at hs <;> obtain ⟨rfl, rfl⟩ := Prod.mk.inj (Option.some.inj hs)
    all_goals
      refine ⟨le_rfl, Or.inr ?_⟩
      by_cases ho : c.OwesPost
      · exact Or.inl ⟨ho.1, ho.2.1, by simp⟩
      · exact Or.inr ⟨ho, rfl⟩
  | sized k =>
    rw [hpc] at hs
    dsimp only at hs
    -- either no byte has been copied, or the call now owes its post
    rcases c.locked_cases rb k with ⟨pc, hl, hpc'⟩ | ⟨ho, hl⟩
    · rw [hl] at hs
      obtain ⟨rfl, rfl⟩ := Prod.mk.inj (Option.some.inj hs)
      refine ⟨le_rfl, Or.inr ?_⟩
      by_cases ho : c.OwesPost
      · exact Or.inl ⟨ho.1, ho.2.1, Or.inr (Or.inr hpc')⟩
      · exact Or.inr ⟨ho, rfl⟩
    · rw [Option.some.inj hs] at hl ho
      exact ⟨hl.ge, Or.inr (Or.inl ho)⟩
  | release =>
    rw [hpc] at hs
    obtain ⟨rfl, rfl⟩ := Prod.mk.inj (Option.some.inj hs)
    exact ⟨Nat.le_succ _, Or.inl (Nat.succ_pos _)⟩
  | block =>
    rw [hpc] at hs
    dsimp only at hs
    have ho : ¬c.OwesPost := by simp [ReadCall.OwesPost, hpc]
    split_ifs at hs <;> obtain ⟨rfl, rfl⟩ := Prod.mk.inj (Option.some.inj hs) <;>
      exact ⟨le_rfl, Or.inr (Or.inr ⟨ho, rfl⟩)⟩
  | err v =>
    rw [hpc] at hs
    dsimp only at hs
    split_ifs at hs with ht <;> obtain ⟨rfl, rfl⟩ := Prod.mk.inj (Option.some.inj hs)
    · exact ⟨Nat.le_succ _, Or.inl (Nat.succ_pos _)⟩
    · exact ⟨le_rfl, Or.inr (Or.inr ⟨fun ho => ht ho.2.1, rfl⟩)⟩
  | clear v =>
    rw [hpc] at hs
    obtain ⟨rfl, rfl⟩ := Prod.mk.inj (Option.some.inj hs)
    exact ⟨le_rfl, Or.inr (Or.inr ⟨by simp [ReadCall.OwesPost, hpc], rfl⟩)⟩
  | ret v =>
    rw [hpc] at hs
    cases hs

/-- The post that announces a store. -/
def RbAct.announce : RbAct → Option RbAct
  | .setAbortRead | .setDone | .setUnblock => some .postRead
  | .setAbortWrite => some .postWrite
  | .postRead | .postWrite => none

/-- The first entry is no store, or its post comes right after it. -/
def RbAct.announced : List RbAct → Bool
  | [] => true
  | a :: acts => a.announce == none || acts.head? == a.announce

/-- Every store of a control call is followed at once by its post. -/
theorem RbControl.acts_announced (call : RbControl) {a p : RbAct} {acts : List RbAct}
    (h : a :: acts <:+ call.acts) (hp : a.announce = some p) : acts.head? = some p := by
  have hall : ∀ l ∈ call.acts.tails, RbAct.announced l = true := by
    cases call <;> decide
  have := hall _ ((List.mem_tails _ _).mpr h)
  rw [RbAct.announced, hp] at this
  simpa using this

/-- A store or post of a control call, for a cause of the reader: the cause was there before, or
`can_read` is posted, or the post for it comes next. -/
theorem ReadCause.settles_act (cause : ReadCause) (n : ℕ) {call : RbControl} {a : RbAct}
    {acts : List RbAct} (h : a :: acts <:+ call.acts) (hc : cause.Holds (a.apply rb) n) :
    0 < (a.apply rb).canRead ∨ cause.OwedBy (.control call acts) ∨
      cause.Holds rb n ∧ ¬cause.OwedBy (.control call (a :: acts)) ∧
        rb.canRead ≤ (a.apply rb).canRead := by
  have hnext : ∀ p, a.announce = some p → acts.head? = some p :=
    fun p => call.acts_announced h
  cases a with
  | postRead => exact Or.inl (Nat.succ_pos _)
  | postWrite =>
    refine Or.inr (Or.inr ⟨by cases cause <;> exact hc, ?_, le_rfl⟩)
    cases cause <;> simp [ReadCause.OwedBy, RbThread.Owes]
  | setAbortRead =>
    cases cause with
    | abort => exact Or.inr (Or.inl ⟨h, hnext _ rfl⟩)
    | data | done | unblock =>
      exact Or.inr (Or.inr ⟨hc, by simp [ReadCause.OwedBy, RbThread.Owes], le_rfl⟩)
  | setDone =>
    cases cause with
    | done => exact Or.inr (Or.inl ⟨h, hnext _ rfl⟩)
    | data | abort | unblock =>
      exact Or.inr (Or.inr ⟨hc, by simp [ReadCause.OwedBy, RbThread.Owes], le_rfl⟩)
  | setUnblock =>
    cases cause with
    | unblock => exact Or.inr (Or.inl ⟨h, hnext _ rfl⟩)
    | data | done | abort =>
      exact Or.inr (Or.inr ⟨hc, by simp [ReadCause.OwedBy, RbThread.Owes], le_rfl⟩)
  | setAbortWrite =>
    refine Or.inr (Or.inr ⟨by cases cause <;> exact hc, ?_, le_rfl⟩)
    cases cause <;> simp [ReadCause.OwedBy, RbThread.Owes]

/-- A store or post of a control call, for a cause of the writer.  The store of `rb_done_write` is
left out: its post goes to `can_read`. -/
theorem WriteCause.settles_act (cause : WriteCause) (n : ℕ) {call : RbControl} {a : RbAct}
    {acts : List RbAct} (h : a :: acts <:+ call.acts) (ha : a ≠ .setDone)
    (hc : cause.Holds (a.apply rb) n) :
    0 < (a.apply rb).canWrite ∨ cause.OwedBy (.control call acts) ∨
      cause.Holds rb n ∧ ¬cause.OwedBy (.control call (a :: acts)) ∧
        rb.canWrite ≤ (a.apply rb).canWrite := by
  have hnext : ∀ p, a.announce = some p → acts.head? = some p :=
    fun p => call.acts_announced h
  cases a with
  | setDone => exact absurd rfl ha
  | postWrite => exact Or.inl (Nat.succ_pos _)
  | setAbortWrite =>
    cases cause with
    | abort => exact Or.inr (Or.inl ⟨h, hnext _ rfl⟩)
    | space | done =>
      exact Or.inr (Or.inr ⟨hc, by simp [WriteCause.OwedBy, RbThread.Owes], le_rfl⟩)
  | postRead | setAbortRead | setUnblock =>
    refine Or.inr (Or.inr ⟨by cases cause <;> exact hc, ?_, le_rfl⟩)
    cases cause <;> simp [WriteCause.OwedBy, RbThread.Owes]

/-- Nobody ever owes the writer a post for `is_done_write`. -/
theorem WriteCause.not_done_owedBy (th : RbThread) : ¬WriteCause.done.OwedBy th := by
  intro h
  cases th with
  | control call acts =>
    obtain ⟨hsuf, hnext⟩ := h
    rw [call.acts_announced hsuf rfl] at hnext
    simp at hnext
  | idle | reading _ | writing _ => exact h

/-- A step of `rb_write`, for a cause of the reader. -/
theorem ReadCause.settles_write (cause : ReadCause) (n : ℕ) {c c' : WriteCall}
    (hs : c.step rb timeout = some (rb', c')) (hc : cause.Holds rb' n) :
    0 < rb'.canRead ∨ cause.OwedBy (.writing c') ∨
      cause.Holds rb n ∧ ¬cause.OwedBy (.writing c) ∧ rb.canRead ≤ rb'.canRead := by
  obtain ⟨hle, howes⟩ := WriteCall.step_owes hs
  obtain ⟨hdone, habort, -, hunblock⟩ := WriteCall.step_flags hs
  cases cause with
  | data =>
    rcases howes with h | h | ⟨h, hfill⟩
    · exact Or.inl h
    · exact Or.inr (Or.inl ⟨c', rfl, h⟩)
    · refine Or.inr (Or.inr ⟨?_, ?_, hle⟩)
      · simpa only [ReadCause.Holds, rbReadSize, hfill] using hc
      · rintro ⟨d, hd, hpost⟩
        injection hd with hd
        exact h (hd ▸ hpost)
  | done => exact Or.inr (Or.inr ⟨hdone.symm.trans hc, id, hle⟩)
  | abort => exact Or.inr (Or.inr ⟨habort.symm.trans hc, id, hle⟩)
  | unblock => exact Or.inr (Or.inr ⟨hunblock.symm.trans hc, id, hle⟩)

/-- A step of `rb_read`, for a cause of the writer. -/
theorem WriteCause.settles_read (cause : WriteCause) (n : ℕ) {c c' : ReadCall}
    (hs : c.step rb timeout = some (rb', c')) (hsize : rb'.size = rb.size)
    (hc : cause.Holds rb' n) :
    0 < rb'.canWrite ∨ cause.OwedBy (.reading c') ∨
      cause.Holds rb n ∧ ¬cause.OwedBy (.reading c) ∧ rb.canWrite ≤ rb'.canWrite := by
  obtain ⟨hle, howes⟩ := ReadCall.step_owes hs
  obtain ⟨hdone, -, habort⟩ := ReadCall.step_flags hs
  cases cause with
  | space =>
    rcases howes with h | h | ⟨h, hfill⟩
    · exact Or.inl h
    · exact Or.inr (Or.inl ⟨c', rfl, h⟩)
    · refine Or.inr (Or.inr ⟨?_, ?_, hle⟩)
      · have hsame : rbWriteSize rb' n = rbWriteSize rb n := by
          rw [rbWriteSize, rbWriteSize, rbBytesAvailable, rbBytesAvailable, hfill, hsize]
        exact fun h0 => hc (hsame.trans h0)
      · rintro ⟨d, hd, hpost⟩
        injection hd with hd
        exact h (hd ▸ hpost)
  | done => exact Or.inr (Or.inr ⟨hdone.symm.trans hc, id, hle⟩)
  | abort => exact Or.inr (Or.inr ⟨habort.symm.trans hc, id, hle⟩)

/-- How a reader comes to wait: its iteration found no cause to go on, or it has just posted. -/
theorem ReadCall.step_waits {c c' : ReadCall} (hs : c.step rb timeout = some (rb', c'))
    (hpc : c'.pc = .release ∨ c'.pc = .block) :
    c.pc = .sized 0 ∧ rb' = rb ∧ c'.bufLen = c.bufLen ∧ rb.isDoneWrite = false ∧
        rb.abortRead = false ∧ rb.unblockReaderFlag = false ∨
      c.pc = .release ∧ rb' = RbAct.postWrite.apply rb ∧ c'.bufLen = c.bufLen := by
  unfold ReadCall.step at hs
  cases hc : c.pc with
  | sized k =>
    rw [hc] at hs
    refine Or.inl ?_
    unfold ReadCall.locked at hs
    dsimp only at hs
    split_ifs at hs with h0 h1 h2 h3 <;>
      obtain ⟨rfl, rfl⟩ := Prod.mk.inj (Option.some.inj hs) <;> simp at hpc
    · exact ⟨by rw [h0], rfl, rfl, by simpa using h1, by simpa using h2, by simpa using h3⟩
  | release =>
    rw [hc] at hs
    obtain ⟨rfl, rfl⟩ := Prod.mk.inj (Option.some.inj hs)
    exact Or.inr ⟨rfl, rfl, rfl⟩
  | lock | block | err v =>
    rw [hc] at hs
    dsimp only at hs
    split_ifs at hs <;> obtain ⟨rfl, rfl⟩ := Prod.mk.inj (Option.some.inj hs) <;> simp at hpc
  | clear v =>
    rw [hc] at hs
    obtain ⟨rfl, rfl⟩ := Prod.mk.inj (Option.some.inj hs)
    simp at hpc
  | ret v =>
    rw [hc] at hs
    cases hs

/-- How a writer comes to wait: its iteration found no cause to go on, or it has just posted. -/
theorem WriteCall.step_waits {c c' : WriteCall} (hs : c.step rb timeout = some (rb', c'))
    (hpc : c'.pc = .release ∨ c'.pc = .block) :
    rb' = rb ∧ c'.buf = c.buf ∧ (∀ cause : WriteCause, ¬cause.Holds rb c.buf.length) ∨
      c.pc = .release ∧ rb' = RbAct.postRead.apply rb ∧ c'.buf = c.buf := by
  unfold WriteCall.step at hs
  cases hc : c.pc with
  | lock =>
    rw [hc] at hs
    dsimp only at hs
    split_ifs at hs with ht
    · obtain ⟨rfl, rfl⟩ := Prod.mk.inj (Option.some.inj hs)
      simp at hpc
    have hfree := (c.locked_eq_release_iff rb).mp
    unfold WriteCall.locked at hs hfree
    dsimp only at hs hfree
    split_ifs at hs hfree <;>
      obtain ⟨rfl, rfl⟩ := Prod.mk.inj (Option.some.inj hs) <;> simp at hpc
    exact Or.inl ⟨rfl, rfl, hfree rfl⟩
  | release =>
    rw [hc] at hs
    obtain ⟨rfl, rfl⟩ := Prod.mk.inj (Option.some.inj hs)
    exact Or.inr ⟨rfl, rfl, rfl⟩
  | block | err v =>
    rw [hc] at hs
    dsimp only at hs
    split_ifs at hs <;> obtain ⟨rfl, rfl⟩ := Prod.mk.inj (Option.some.inj hs) <;> simp at hpc
  | ret v =>
    rw [hc] at hs
    cases hs

end Call

/-! ### Runs with one reader and one writer -/

namespace RbSys

variable {ι : Type} [DecidableEq ι] {s s' : RbSys ι} {r w t : ι}

/-- Only `r` reads, only `w` writes, and nobody resets the ring. -/
def OneReaderOneWriter (r w : ι) : RbLabel ι → Prop
  | .read t _ => t = r
  | .write t _ => t = w
  | .control _ _ => True
  | .reset => False
  | .step _ _ => True

instance (r w : ι) : ∀ l, Decidable (OneReaderOneWriter r w l)
  | .read t _ => inferInstanceAs (Decidable (t = r))
  | .write t _ => inferInstanceAs (Decidable (t = w))
  | .control _ _ => inferInstanceAs (Decidable True)
  | .reset => inferInstanceAs (Decidable False)
  | .step _ _ => inferInstanceAs (Decidable True)

/-- The thread has given up the lock of a full ring and is not back from its wait. -/
def WaitsToWrite : RbThread → Prop
  | .writing c => c.pc = .release ∨ c.pc = .block
  | _ => False

instance : ∀ th, Decidable (WaitsToWrite th)
  | .writing c => inferInstanceAs (Decidable (c.pc = .release ∨ c.pc = .block))
  | .idle | .reading _ | .control _ _ => inferInstanceAs (Decidable False)

/-- The next action of the thread is the store of `rb_done_write`. -/
def SetsDone : RbThread → Prop
  | .control _ acts => acts.head? = some .setDone
  | _ => False

instance : ∀ th, Decidable (SetsDone th)
  | .control _ acts => inferInstanceAs (Decidable (acts.head? = some .setDone))
  | .idle | .reading _ | .writing _ => inferInstanceAs (Decidable False)

/-- The step is not the store of an `rb_done_write` that meets a waiting writer with no post of
`can_write` left over. -/
def DoneWhileAwake (w : ι) (s : RbSys ι) : RbLabel ι → Prop
  | .step t _ => SetsDone (s.thread t) → ¬(WaitsToWrite (s.thread w) ∧ s.rb.canWrite = 0)
  | _ => True

instance (w : ι) (s : RbSys ι) : ∀ l, Decidable (DoneWhileAwake w s l)
  | .step t _ => inferInstanceAs (Decidable (SetsDone (s.thread t) →
      ¬(WaitsToWrite (s.thread w) ∧ s.rb.canWrite = 0)))
  | .read _ _ | .write _ _ | .control _ _ | .reset => inferInstanceAs (Decidable True)

/-- Whatever would let the waiting reader go on, its post of `can_read` is still to come from the
thread that did it; and the same for the waiting writer and `can_write`. -/
def NoLostWakeup (r w : ι) (s : RbSys ι) : Prop :=
  (∀ c, s.thread r = .reading c → c.pc = .block → s.rb.canRead = 0 →
      ∀ cause : ReadCause, cause.Holds s.rb c.bufLen → ∃ u, u ≠ r ∧ cause.OwedBy (s.thread u)) ∧
    ∀ c, s.thread w = .writing c → c.pc = .block → s.rb.canWrite = 0 →
      ∀ cause : WriteCause, cause.Holds s.rb c.buf.length →
        ∃ u, u ≠ w ∧ cause.OwedBy (s.thread u)

/-- The invariant of the runs: the roles, and for both sides that from the moment it gives up the
lock every cause to go on has been posted or is still owed. -/
structure Awake (r w : ι) (s : RbSys ι) : Prop where
  held : s.Held
  reads : ∀ {t c}, s.thread t = .reading c → t = r
  writes : ∀ {t c}, s.thread t = .writing c → t = w
  control : ∀ {t call acts}, s.thread t = .control call acts → acts <:+ call.acts
  sized : ∀ {c}, s.thread r = .reading c → c.pc = .sized 0 →
    ¬ReadCause.data.Holds s.rb c.bufLen
  reader : ∀ {c}, s.thread r = .reading c → c.pc = .release ∨ c.pc = .block →
    ∀ cause : ReadCause, cause.Holds s.rb c.bufLen →
      0 < s.rb.canRead ∨ ∃ u, cause.OwedBy (s.thread u)
  writer : ∀ {c}, s.thread w = .writing c → c.pc = .release ∨ c.pc = .block →
    ∀ cause : WriteCause, cause.Holds s.rb c.buf.length →
      0 < s.rb.canWrite ∨ ∃ u, cause.OwedBy (s.thread u)

omit [DecidableEq ι] in
theorem Awake.noLostWakeup (h : Awake r w s) : NoLostWakeup r w s := by
  refine ⟨fun c hc hpc h0 cause hcause => ?_, fun c hc hpc h0 cause hcause => ?_⟩
  · obtain hpos | ⟨u, hu⟩ := h.reader hc (Or.inr hpc) cause hcause
    · omega
    · refine ⟨u, ?_, hu⟩
      rintro rfl
      rw [hc] at hu
      cases cause <;> simp [ReadCause.OwedBy, RbThread.Owes] at hu
  · obtain hpos | ⟨u, hu⟩ := h.writer hc (Or.inr hpc) cause hcause
    · omega
    · refine ⟨u, ?_, hu⟩
      rintro rfl
      rw [hc] at hu
      cases cause <;> simp [WriteCause.OwedBy, RbThread.Owes] at hu

/-- Thread `t` goes over to `th`.  What it must show: its role; for its own wait, that nothing is
missed; and for the wait of the other side, that every cause is posted, owed by `th`, or was there
before without `t` having owed anything. -/
theorem Awake.move {th : RbThread} (h : Awake r w s) (hheld : s'.Held)
    (hthread : s'.thread = Function.update s.thread t th)
    (hreads : ∀ c, th = .reading c → t = r) (hwrites : ∀ c, th = .writing c → t = w)
    (hcontrol : ∀ call acts, th = .control call acts → acts <:+ call.acts)
    (hown : ∀ c, th = .reading c →
      (c.pc = .sized 0 → ¬ReadCause.data.Holds s'.rb c.bufLen) ∧
      (c.pc = .release ∨ c.pc = .block → ∀ cause : ReadCause, cause.Holds s'.rb c.bufLen →
        0 < s'.rb.canRead ∨ ∃ u, u ≠ t ∧ cause.OwedBy (s.thread u)))
    (hown' : ∀ c, th = .writing c → c.pc = .release ∨ c.pc = .block →
      ∀ cause : WriteCause, cause.Holds s'.rb c.buf.length →
        0 < s'.rb.canWrite ∨ ∃ u, u ≠ t ∧ cause.OwedBy (s.thread u))
    (hlock : t ≠ r → s.lock = some r → ∀ n, ReadCause.data.Holds s'.rb n →
      ReadCause.data.Holds s.rb n)
    (hread : t ≠ r → ∀ (cause : ReadCause) n, cause.Holds s'.rb n → 0 < s'.rb.canRead ∨
      cause.OwedBy th ∨ cause.Holds s.rb n ∧ ¬cause.OwedBy (s.thread t) ∧
        s.rb.canRead ≤ s'.rb.canRead)
    (hwrite : t ≠ w → ∀ c, s.thread w = .writing c → c.pc = .release ∨ c.pc = .block →
      ∀ (cause : WriteCause) n, cause.Holds s'.rb n → 0 < s'.rb.canWrite ∨
        cause.OwedBy th ∨ cause.Holds s.rb n ∧ ¬cause.OwedBy (s.thread t) ∧
          s.rb.canWrite ≤ s'.rb.canWrite) : Awake r w s' := by
  have hself : s'.thread t = th := by rw [hthread, Function.update_self]
  have hother : ∀ u, u ≠ t → s'.thread u = s.thread u := fun u hu => by
    rw [hthread, Function.update_of_ne hu]
  -- the waits of `t` itself by what it shows of them, and those of the others by the invariant
  constructor
  case held => exact hheld
  case reads =>
    intro u c hu
    by_cases hut : u = t
    · subst hut
      exact hreads c (hself.symm.trans hu)
    · exact h.reads ((hother u hut).symm.trans hu)
  case writes =>
    intro u c hu
    by_cases hut : u = t
    · subst hut
      exact hwrites c (hself.symm.trans hu)
    · exact h.writes ((hother u hut).symm.trans hu)
  case control =>
    intro u call acts hu
    by_cases hut : u = t
    · subst hut
      exact hcontrol call acts (hself.symm.trans hu)
    · exact h.control ((hother u hut).symm.trans hu)
  case sized =>
    intro c hu hpc
    by_cases hut : r = t
    · subst hut
      exact (hown c (hself.symm.trans hu)).1 hpc
    · have hold := (hother r hut).symm.trans hu
      exact fun hd => h.sized hold hpc
        (hlock (Ne.symm hut) (h.held.sized hold hpc).1 _ hd)
  case reader =>
    intro c hu hpc cause hcause
    by_cases hut : r = t
    · subst hut
      rcases (hown c (hself.symm.trans hu)).2 hpc cause hcause with h0 | ⟨u, hne, ho⟩
      · exact Or.inl h0
      · exact Or.inr ⟨u, by rwa [hother u hne]⟩
    · rcases hread (Ne.symm hut) cause _ hcause with h0 | ho | ⟨hc, hno, hle⟩
      · exact Or.inl h0
      · exact Or.inr ⟨t, by rwa [hself]⟩
      · rcases h.reader ((hother r hut).symm.trans hu) hpc cause hc with h0 | ⟨u, ho⟩
        · exact Or.inl (by omega)
        · have hne : u ≠ t := fun he => hno (he ▸ ho)
          exact Or.inr ⟨u, by rwa [hother u hne]⟩
  case writer =>
    intro c hu hpc cause hcause
    by_cases hut : w = t
    · subst hut
      rcases hown' c (hself.symm.trans hu) hpc cause hcause with h0 | ⟨u, hne, ho⟩
      · exact Or.inl h0
      · exact Or.inr ⟨u, by rwa [hother u hne]⟩
    · have hold := (hother w hut).symm.trans hu
      rcases hwrite (Ne.symm hut) c hold hpc cause _ hcause with h0 | ho | ⟨hc, hno, hle⟩
      · exact Or.inl h0
      · exact Or.inr ⟨t, by rwa [hself]⟩
      · rcases h.writer hold hpc cause hc with h0 | ⟨u, ho⟩
        · exact Or.inl (by omega)
        · have hne : u ≠ t := fun he => hno (he ▸ ho)
          exact Or.inr ⟨u, by rwa [hother u hne]⟩

/-- Thread `t`, which owes nothing, starts a call or is back from one. -/
theorem Awake.turn {th : RbThread} (h : Awake r w s) (hheld : s'.Held) (hrb : s'.rb = s.rb)
    (hthread : s'.thread = Function.update s.thread t th)
    (hread : ∀ cause : ReadCause, ¬cause.OwedBy (s.thread t))
    (hwrite : ∀ cause : WriteCause, ¬cause.OwedBy (s.thread t))
    (hth : th = .idle ∨ (∃ n, th = .reading (rbRead n) ∧ t = r) ∨
      (∃ bytes, th = .writing (rbWrite bytes) ∧ t = w) ∨
      ∃ call acts, th = .control call acts ∧ acts <:+ call.acts) : Awake r w s' := by
  refine h.move hheld hthread ?_ ?_ ?_ ?_ ?_ (fun _ _ n hd => hrb ▸ hd)
    (fun _ cause n hc => Or.inr (Or.inr ⟨hrb ▸ hc, hread cause, hrb ▸ le_rfl⟩))
    (fun _ _ _ _ cause n hc => Or.inr (Or.inr ⟨hrb ▸ hc, hwrite cause, hrb ▸ le_rfl⟩))
  all_goals rcases hth with rfl | ⟨n, rfl, ht⟩ | ⟨bytes, rfl, ht⟩ | ⟨call, acts, rfl, hs⟩
  all_goals simp_all [rbRead, rbWrite]

/-- A thread that is idle owes nothing. -/
theorem not_owedBy_idle : (∀ cause : ReadCause, ¬cause.OwedBy .idle) ∧
    ∀ cause : WriteCause, ¬cause.OwedBy .idle := by
  constructor <;> intro cause <;> cases cause <;> simp [ReadCause.OwedBy, WriteCause.OwedBy,
    RbThread.Owes]

/-- **Every step of a run with one reader and one writer keeps both sides awake.** -/
theorem Awake.step {l : RbLabel ι} (h : Awake r w s) (hrole : OneReaderOneWriter r w l)
    (hdone : DoneWhileAwake w s l) (hs : s.step l = some s') : Awake r w s' := by
  have hheld := h.held.step hs
  obtain ⟨hidle, hidle'⟩ := not_owedBy_idle
  -- only steps of threads do something: calls that start or return owe no post
  cases l with
  | reset => exact absurd hrole id
  | read u len =>
    simp only [RbSys.step] at hs
    split_ifs at hs with hg
    obtain rfl := Option.some.inj hs
    refine h.turn (t := u) hheld rfl rfl ?_ ?_ (Or.inr (Or.inl ⟨len, rfl, hrole⟩)) <;>
      rwa [hg.1]
  | write u bytes =>
    simp only [RbSys.step] at hs
    split_ifs at hs with hg
    obtain rfl := Option.some.inj hs
    refine h.turn (t := u) hheld rfl rfl ?_ ?_ (Or.inr (Or.inr (Or.inl ⟨bytes, rfl, hrole⟩))) <;>
      rwa [hg.1]
  | control u call =>
    simp only [RbSys.step] at hs
    split_ifs at hs with hg
    obtain rfl := Option.some.inj hs
    refine h.turn (t := u) hheld rfl rfl ?_ ?_
      (Or.inr (Or.inr (Or.inr ⟨call, _, rfl, List.suffix_rfl⟩))) <;> rwa [hg]
  | step u timeout =>
    simp only [RbSys.step] at hs
    cases hth : s.thread u with
    | idle =>
      rw [hth] at hs
      cases hs
    | reading c =>
      rw [hth] at hs
      have hur := h.reads hth
      have hk := fun k hpc => (h.held.sized (k := k) hth hpc).2
      rcases stepRead_cases h.held.wf hk hs with ⟨⟨v, hv⟩, rfl⟩ | ⟨c', hc, hthread, -, -, -⟩
      · refine h.turn (t := u) hheld rfl rfl ?_ ?_ (Or.inl rfl) <;> rw [hth] <;> intro cause <;>
          cases cause <;> simp [ReadCause.OwedBy, WriteCause.OwedBy, RbThread.Owes,
            ReadCall.OwesPost, hv]
      obtain ⟨k, -, hnone, -, -, -, -, -, hsize, -, hlen⟩ := ReadCall.step_data h.held.wf hk hc
      refine h.move hheld hthread (fun _ _ => hur) (fun c hc => by cases hc)
        (fun _ _ hc => by cases hc) ?_ (fun c hc => by cases hc) (fun hne => absurd hur hne)
        (fun hne => absurd hur hne) ?_
      · intro d hd
        injection hd with hd
        subst hd
        refine ⟨fun hpc => ?_, fun hpc cause hcause => ?_⟩
        · -- the size was computed on this very ring, and it was 0
          obtain ⟨hpc', -, hrb, h0⟩ := ReadCall.step_sized hc hpc
          rw [hrb, hlen, hnone (by simp [hpc']), Nat.sub_zero]
          exact ReadCause.not_data h0.symm
        -- the reader goes on to wait from an empty ring, or waits already
        · rcases ReadCall.step_waits hc hpc with ⟨h0, hrb, hlen, hd, ha, hu⟩ | ⟨h0, hrb, hlen⟩
          · subst hur
            rw [hrb, hlen] at hcause
            cases cause with
            | data => exact absurd hcause (h.sized hth h0)
            | done => exact absurd hcause (by simp [ReadCause.Holds, hd])
            | abort => exact absurd hcause (by simp [ReadCause.Holds, ha])
            | unblock => exact absurd hcause (by simp [ReadCause.Holds, hu])
          · subst hur
            rw [hrb, hlen] at hcause
            have hcause' : cause.Holds s.rb c.bufLen := by cases cause <;> exact hcause
            rcases h.reader hth (Or.inl h0) cause hcause' with hp | ⟨v, hv⟩
            · rw [hrb]
              exact Or.inl hp
            · refine Or.inr ⟨v, ?_, hv⟩
              rintro rfl
              rw [hth] at hv
              cases cause <;> simp [ReadCause.OwedBy, RbThread.Owes] at hv
      · intro _ _ _ _ cause n hcause
        rw [hth]
        exact cause.settles_read n hc hsize hcause
    | writing c =>
      rw [hth] at hs
      have huw := h.writes hth
      rcases stepWrite_cases h.held.wf hs with ⟨⟨v, hv⟩, rfl⟩ | ⟨c', hc, hthread, -, -, -, hfree⟩
      · refine h.turn (t := u) hheld rfl rfl ?_ ?_ (Or.inl rfl) <;> rw [hth] <;> intro cause <;>
          cases cause <;> simp [ReadCause.OwedBy, WriteCause.OwedBy, RbThread.Owes,
            WriteCall.OwesPost, hv]
      obtain ⟨k, -, -, hnone, -, -, -, hfill, -⟩ := WriteCall.step_data h.held.wf hc
      refine h.move hheld hthread (fun c hc => by cases hc) (fun _ _ => huw)
        (fun _ _ hc => by cases hc) (fun c hc => by cases hc) ?_ ?_ ?_ (fun hne => absurd huw hne)
      · intro d hd hpc cause hcause
        injection hd with hd
        subst hd
        -- and so does the writer
        rcases WriteCall.step_waits hc hpc with ⟨hrb, hbuf, hnot⟩ | ⟨h0, hrb, hbuf⟩
        · rw [hrb, hbuf] at hcause
          exact absurd hcause (hnot cause)
        · subst huw
          rw [hrb, hbuf] at hcause
          have hcause' : cause.Holds s.rb c.buf.length := by cases cause <;> exact hcause
          rcases h.writer hth (Or.inl h0) cause hcause' with hp | ⟨v, hv⟩
          · rw [hrb]
            exact Or.inl hp
          · refine Or.inr ⟨v, ?_, hv⟩
            rintro rfl
            rw [hth] at hv
            cases cause <;> simp [WriteCause.OwedBy, RbThread.Owes] at hv
      · -- while the reader holds the lock the writer moves nothing
        intro _ hlock n hd
        have hk : k = 0 := by
          apply hnone
          by_contra hno
          simp only [not_or, not_not, Bool.not_eq_true] at hno
          rw [hfree hno.1 hno.2] at hlock
          cases hlock
        rw [hk, Nat.add_zero] at hfill
        simpa only [ReadCause.Holds, rbReadSize, hfill] using hd
      · intro _ cause n hcause
        rw [hth]
        exact cause.settles_write n hc hcause
    | control call acts =>
      rw [hth] at hs
      obtain rfl := Option.some.inj hs
      have hsuf := h.control hth
      cases acts with
      | nil =>
        refine h.turn (t := u) hheld rfl rfl ?_ ?_ (Or.inl rfl) <;> rw [hth] <;> intro cause <;>
          cases cause <;> simp [ReadCause.OwedBy, WriteCause.OwedBy, RbThread.Owes]
      | cons a acts =>
        have hthread : (s.stepControl u call (a :: acts)).thread
            = Function.update s.thread u (.control call acts) := rfl
        refine h.move hheld hthread (fun c hc => by cases hc)
          (fun c hc => by cases hc) ?_ (fun c hc => by cases hc) (fun c hc => by cases hc) ?_ ?_ ?_
        · intro call' acts' heq
          injection heq with h1 h2
          subst h1 h2
          exact (List.suffix_cons a acts).trans hsuf
        · intro _ _ n hd
          cases a <;> exact hd
        · intro _ cause n hcause
          rw [hth]
          exact cause.settles_act n hsuf hcause
        · intro _ c hc hpc cause n hcause
          rw [hth]
          by_cases ha : a = .setDone
          · -- the store meets a writer that waits: by the condition it has a post left over
            have hsets : SetsDone (s.thread u) := by
              rw [hth, ha]
              rfl
            have hwaits : WaitsToWrite (s.thread w) := by
              rw [hc]
              exact hpc
            have hpos : s.rb.canWrite ≠ 0 := fun h0 => hdone hsets ⟨hwaits, h0⟩
            refine Or.inl ?_
            rw [ha]
            exact Nat.pos_of_ne_zero hpos
          · exact cause.settles_act n hsuf ha hcause

end RbSys

/-- **No wakeup is lost** on a ring with one reader, one writer and any number of control calls, in
any run in which the store of `rb_done_write` never meets a writer that has given up the lock of
the full ring with no post of `can_write` left over. -/
theorem no_lost_wakeup {ι : Type} [DecidableEq ι] {blockSize nBlocks : ℤ} {allocated : Bool}
    {rb : Ringbuf} {r w : ι} {s : RbSys ι}
    (hcreate : rbCreate blockSize nBlocks allocated = some rb)
    (hs : Lts.Reach RbSys.step
      (fun s l => RbSys.OneReaderOneWriter r w l ∧ RbSys.DoneWhileAwake w s l) (RbSys.init rb) s) :
    RbSys.NoLostWakeup r w s := by
  refine RbSys.Awake.noLostWakeup (Lts.Reach.invariant hs ?_ ?_)
  · exact ⟨RbSys.Held.init (rbCreate_spec hcreate).1, nofun, nofun, nofun, nofun, nofun, nofun⟩
  · intro s l s' h hP hstep
    exact h.step hP.1 hP.2 hstep

/-- A reader waits on an empty ring; the writer has just put its bytes in and owes the post. -/
theorem no_lost_wakeup_data :
    ∃ rb, rbCreate 2 2 true = some rb ∧ ∃ s : RbSys (Fin 2), s.rb.canRead = 0 ∧
      s.rb.contents = [1, 2, 3, 4] ∧ RbSys.NoLostWakeup 0 1 s := by
  obtain ⟨rb, hrb⟩ : ∃ rb, rbCreate 2 2 true = some rb := ⟨_, rfl⟩
  obtain ⟨s, hs⟩ : ∃ s, Lts.run RbSys.step
      (fun s l => RbSys.OneReaderOneWriter 0 1 l ∧ RbSys.DoneWhileAwake 1 s l)
      (RbSys.init rb : RbSys (Fin 2))
      [.read 0 4, .step 0 false, .step 0 false, .step 0 false, .write 1 [1, 2, 3, 4],
        .step 1 false] = some s := by
    obtain rfl := Option.some.inj hrb
    exact ⟨_, rfl⟩
  refine ⟨rb, hrb, s, ?_, ?_, no_lost_wakeup hrb (Lts.Reach.of_run _ Lts.Reach.refl hs)⟩
  all_goals
    obtain rfl := Option.some.inj hrb
    obtain rfl := Option.some.inj hs
    rfl

/-- A writer waits in a full ring of 4 bytes while another thread makes its `rb_done_write`: the
writer's next iteration would return `RB_DONE`, and nobody is left to tell it. -/
theorem lost_wakeup_done :
    ¬∀ (rb : Ringbuf) (s : RbSys (Fin 3)), rbCreate 2 2 true = some rb →
      Lts.Reach RbSys.step (fun _ l => RbSys.OneReaderOneWriter 0 1 l) (RbSys.init rb) s →
        RbSys.NoLostWakeup 0 1 s := by
  intro h
  obtain ⟨rb, hrb⟩ : ∃ rb, rbCreate 2 2 true = some rb := ⟨_, rfl⟩
  obtain ⟨s, hs⟩ : ∃ s, Lts.run RbSys.step (fun _ l => RbSys.OneReaderOneWriter 0 1 l)
      (RbSys.init rb : RbSys (Fin 3))
      [.write 1 [1, 2, 3, 4, 5], .step 1 false, .step 1 false, .step 1 false,
        .control 2 .doneWrite, .step 2 false, .step 2 false] = some s := by
    obtain rfl := Option.some.inj hrb
    exact ⟨_, rfl⟩
  have hlost := (h rb s hrb (Lts.Reach.of_run _ Lts.Reach.refl hs)).2
  obtain rfl := Option.some.inj hrb
  obtain rfl := Option.some.inj hs
  obtain ⟨u, -, howed⟩ := hlost _ rfl rfl rfl .done rfl
  exact WriteCause.not_done_owedBy _ howed

end AudioPipeline
