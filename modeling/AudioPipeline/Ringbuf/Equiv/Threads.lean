import AudioPipeline.Ringbuf.Equiv.Calls
import AudioPipeline.Ringbuf.Threads

/-!
# What one step of a thread does to a shared ring

`RbSys.stepRead_cases` and `RbSys.stepWrite_cases` say once what a thread inside `rb_read` or
`rb_write` can do: it returns, or it makes one step of its call; and what happens to the lock.

`RbSys.Held` is the mutual exclusion that the rest needs: a reader that has computed its
`read_size` holds the lock, and the ring still has that many bytes.  Every step keeps it
(`Held.step`), together with the shape of the ring.
-/

namespace AudioPipeline

namespace RbSys

variable {ι : Type} [DecidableEq ι] {s s' : RbSys ι} {t u : ι} {timeout : Bool}

@[simp] theorem goto_thread_self (s : RbSys ι) (t : ι) (th : RbThread) :
    (s.goto t th).thread t = th :=
  Function.update_self _ _ _

@[simp] theorem goto_thread_ne (h : u ≠ t) (s : RbSys ι) (th : RbThread) :
    (s.goto t th).thread u = s.thread u :=
  Function.update_of_ne h _ _

@[simp] theorem goto_rb (s : RbSys ι) (t : ι) (th : RbThread) : (s.goto t th).rb = s.rb := rfl

/-- What the lock does in a step of `rb_read`: taken, released, or left alone. -/
def ReadLock (s s' : RbSys ι) (t : ι) (c : ReadCall) (timeout : Bool) : Prop :=
  (c.pc = .lock ∧ timeout = false ∧ s.lock = none ∧ s'.lock = some t) ∨
    ((∃ k, c.pc = .sized k) ∧ s'.lock = none) ∨
    ((c.pc = .lock → timeout = true) ∧ (∀ k, c.pc ≠ .sized k) ∧ s'.lock = s.lock)

/-- A thread inside `rb_read` is back from the call, or makes one step of it. -/
theorem stepRead_cases {c : ReadCall} (hwf : s.rb.Wf)
    (hk : ∀ k, c.pc = .sized k → k ≤ s.rb.fillCnt) (h : s.stepRead t c timeout = some s') :
    (∃ v, c.pc = .ret v) ∧ s' = s.goto t .idle ∨
      ∃ c', c.step s.rb timeout = some (s'.rb, c') ∧
        s'.thread = Function.update s.thread t (.reading c') ∧ s'.copiedIn = s.copiedIn ∧
        s'.copiedOut = s.copiedOut ++ c'.buf.drop c.buf.length ∧ ReadLock s s' t c timeout := by
  have hbuf : ∀ rb' c', (∀ k, c.pc ≠ .sized k) → c.step s.rb timeout = some (rb', c') →
      c'.buf.drop c.buf.length = [] := by
    intro rb' c' hpc hs
    obtain ⟨k, -, h0, -, hb, -⟩ := ReadCall.step_data hwf hk hs
    rw [hb, h0 hpc, List.take_zero, List.append_nil, List.drop_length]
  unfold stepRead at h
  cases hpc : c.pc with
  | ret v =>
    rw [hpc] at h
    exact Or.inl ⟨⟨v, rfl⟩, (Option.some.inj h).symm⟩
  | lock =>
    rw [hpc] at h
    dsimp only at h
    by_cases hlock : timeout = false ∧ s.lock ≠ none
    · rw [if_pos hlock] at h
      cases h
    rw [if_neg hlock] at h
    obtain ⟨⟨rb', c'⟩, hs, rfl⟩ := Option.map_eq_some_iff.mp h
    refine Or.inr ⟨c', hs, rfl, rfl, ?_, ?_⟩
    · rw [hbuf rb' c' (by simp [hpc]) hs, List.append_nil]
      rfl
    · cases timeout with
      | true => exact Or.inr (Or.inr ⟨fun _ => rfl, by simp [hpc], rfl⟩)
      | false => exact Or.inl ⟨hpc, rfl, by simpa using hlock, rfl⟩
  | sized k =>
    rw [hpc] at h
    obtain ⟨⟨rb', c'⟩, hs, rfl⟩ := Option.map_eq_some_iff.mp h
    exact Or.inr ⟨c', hs, rfl, rfl, rfl, Or.inr (Or.inl ⟨⟨k, hpc⟩, rfl⟩)⟩
  | release | block | err _ | clear _ =>
    rw [hpc] at h
    obtain ⟨⟨rb', c'⟩, hs, rfl⟩ := Option.map_eq_some_iff.mp h
    refine Or.inr ⟨c', hs, rfl, rfl, ?_, Or.inr (Or.inr ⟨by simp [hpc], by simp [hpc], rfl⟩)⟩
    rw [hbuf rb' c' (by simp [hpc]) hs, List.append_nil]
    rfl

/-- A thread inside `rb_write` is back from the call, or makes one step of it; its locked region
needs the lock free. -/
theorem stepWrite_cases {c : WriteCall} (hwf : s.rb.Wf)
    (h : s.stepWrite t c timeout = some s') :
    (∃ v, c.pc = .ret v) ∧ s' = s.goto t .idle ∨
      ∃ c', c.step s.rb timeout = some (s'.rb, c') ∧
        s'.thread = Function.update s.thread t (.writing c') ∧ s'.copiedOut = s.copiedOut ∧
        s'.copiedIn = s.copiedIn ++ c.buf.take (c.buf.length - c'.buf.length) ∧
        s'.lock = s.lock ∧ (c.pc = .lock → timeout = false → s.lock = none) := by
  have hbuf : ∀ rb' c', c.pc ≠ .lock → c.step s.rb timeout = some (rb', c') →
      c.buf.take (c.buf.length - c'.buf.length) = [] := by
    intro rb' c' hpc hs
    obtain ⟨k, -, -, h0, hb, -⟩ := WriteCall.step_data hwf hs
    rw [hb, h0 (Or.inl hpc), List.drop_zero, Nat.sub_self, List.take_zero]
  unfold stepWrite at h
  cases hpc : c.pc with
  | ret v =>
    rw [hpc] at h
    exact Or.inl ⟨⟨v, rfl⟩, (Option.some.inj h).symm⟩
  | lock =>
    rw [hpc] at h
    dsimp only at h
    split_ifs at h with hlock
    obtain ⟨⟨rb', c'⟩, hs, rfl⟩ := Option.map_eq_some_iff.mp h
    exact Or.inr ⟨c', hs, rfl, rfl, rfl, rfl, fun _ ht => by simpa [ht] using hlock⟩
  | release | block | err _ =>
    rw [hpc] at h
    obtain ⟨⟨rb', c'⟩, hs, rfl⟩ := Option.map_eq_some_iff.mp h
    refine Or.inr ⟨c', hs, rfl, rfl, ?_, rfl, by simp⟩
    rw [hbuf rb' c' (by simp [hpc]) hs, List.append_nil]
    rfl

/-- The ring keeps its shape, and a reader that has computed its `read_size` holds the lock over a
ring with that many bytes. -/
structure Held (s : RbSys ι) : Prop where
  wf : s.rb.Wf
  sized : ∀ {t c k}, s.thread t = .reading c → c.pc = .sized k →
    s.lock = some t ∧ k ≤ s.rb.fillCnt

omit [DecidableEq ι] in
theorem Held.init {rb : Ringbuf} (h : rb.Wf) : (RbSys.init rb : RbSys ι).Held :=
  ⟨h, fun ht _ => by simp [RbSys.init] at ht⟩

/-- One thread moves: what it must show for itself, and when the others are undisturbed. -/
theorem Held.update {th : RbThread} (h : s.Held) (hwf : s'.rb.Wf)
    (hthread : s'.thread = Function.update s.thread t th)
    (hself : ∀ c k, th = .reading c → c.pc = .sized k → s'.lock = some t ∧ k ≤ s'.rb.fillCnt)
    (hothers : s'.lock = s.lock ∧ s.rb.fillCnt ≤ s'.rb.fillCnt ∨ s.lock = none ∨
      s.lock = some t) : s'.Held := by
  refine ⟨hwf, fun {u c k} hu hpc => ?_⟩
  rw [hthread] at hu
  by_cases hut : u = t
  · subst hut
    rw [Function.update_self] at hu
    exact hself c k hu hpc
  · rw [Function.update_of_ne hut] at hu
    obtain ⟨h1, h2⟩ := h.sized hu hpc
    rcases hothers with ⟨h3, h4⟩ | h3 | h3
    · exact ⟨h3.trans h1, by omega⟩
    · rw [h1] at h3
      cases h3
    · rw [h1] at h3
      exact absurd (Option.some.inj h3) hut

/-- **Every step keeps the shape of the ring and the mutual exclusion.** -/
theorem Held.step {l : RbLabel ι} (h : s.Held) (hs : s.step l = some s') : s'.Held := by
  -- a call that starts changes nothing of the ring, and a reset needs the lock to be free
  cases l with
  | read t len =>
    simp only [RbSys.step] at hs
    split_ifs at hs
    obtain rfl := Option.some.inj hs
    refine h.update (t := t) h.wf rfl (fun c k hc hpc => ?_) (Or.inl ⟨rfl, le_rfl⟩)
    injection hc with hc
    subst hc
    cases hpc
  | write t bytes =>
    simp only [RbSys.step] at hs
    split_ifs at hs
    obtain rfl := Option.some.inj hs
    exact h.update (t := t) h.wf rfl (fun c k hc => by cases hc) (Or.inl ⟨rfl, le_rfl⟩)
  | control t call =>
    simp only [RbSys.step] at hs
    split_ifs at hs
    obtain rfl := Option.some.inj hs
    exact h.update (t := t) h.wf rfl (fun c k hc => by cases hc) (Or.inl ⟨rfl, le_rfl⟩)
  | reset =>
    simp only [RbSys.step] at hs
    split_ifs at hs with hlock
    obtain rfl := Option.some.inj hs
    refine ⟨Ringbuf.Wf.rbReset _ h.wf.mem_length, fun ht hpc => ?_⟩
    have := (h.sized ht hpc).1
    rw [hlock] at this
    cases this
  | step t timeout =>
    simp only [RbSys.step] at hs
    cases hth : s.thread t with
    | idle =>
      rw [hth] at hs
      cases hs
    | reading c =>
      rw [hth] at hs
      have hsz := fun k hpc => h.sized (k := k) hth hpc
      rcases stepRead_cases h.wf (fun k hpc => (hsz k hpc).2) hs with
        ⟨-, rfl⟩ | ⟨c', hc, hthread, -, -, hlock⟩
      · exact h.update (t := t) h.wf rfl (fun c k hc => by cases hc) (Or.inl ⟨rfl, le_rfl⟩)
      obtain ⟨k, hk, h0, hn, -, -, hwf, hfill, -⟩ :=
        ReadCall.step_data h.wf (fun k hpc => (hsz k hpc).2) hc
      refine h.update hwf hthread ?_ ?_
      · intro d n hd hpc
        injection hd with hd
        subst hd
        obtain ⟨hpc0, ht, hrb, rfl⟩ := ReadCall.step_sized hc hpc
        rcases hlock with ⟨-, -, -, hl⟩ | ⟨⟨n, hn⟩, -⟩ | ⟨ht', -⟩
        · rw [hrb]
          exact ⟨hl, (rbReadSize_le _ _).1⟩
        · rw [hpc0] at hn
          cases hn
        · rw [ht' hpc0] at ht
          cases ht
      · rcases hlock with ⟨-, -, hl, -⟩ | ⟨⟨n, hn⟩, -⟩ | ⟨-, hns, hl⟩
        · exact Or.inr (Or.inl hl)
        · exact Or.inr (Or.inr (hsz n hn).1)
        · exact Or.inl ⟨hl, by rw [hfill, h0 hns, Nat.sub_zero]⟩
    | writing c =>
      rw [hth] at hs
      rcases stepWrite_cases h.wf hs with ⟨-, rfl⟩ | ⟨c', hc, hthread, -, -, hl, -⟩
      · exact h.update (t := t) h.wf rfl (fun c k hc => by cases hc) (Or.inl ⟨rfl, le_rfl⟩)
      obtain ⟨k, -, -, -, -, -, hwf, hfill, -⟩ := WriteCall.step_data h.wf hc
      exact h.update hwf hthread (fun d n hd => by cases hd) (Or.inl ⟨hl, by omega⟩)
    | control call acts =>
      rw [hth] at hs
      obtain rfl := Option.some.inj hs
      cases acts with
      | nil => exact h.update (t := t) h.wf rfl (fun c k hc => by cases hc) (Or.inl ⟨rfl, le_rfl⟩)
      | cons a acts =>
        obtain ⟨-, -, -, hfill, -⟩ := RbAct.apply_frame s.rb a
        exact h.update (t := t) (h.wf.act a) rfl (fun c k hc => by cases hc)
          (Or.inl ⟨rfl, hfill.ge⟩)

/-! ### Marks -/

/-- A thread in `rb_read` makes a step of the call, or leaves the ring alone. -/
theorem stepRead_rb {c : ReadCall} (hs : s.stepRead t c timeout = some s') :
    s'.rb = s.rb ∨ ∃ c', c.step s.rb timeout = some (s'.rb, c') := by
  unfold stepRead at hs
  split at hs
  · obtain rfl := Option.some.inj hs
    exact Or.inl rfl
  · split_ifs at hs
    all_goals
      obtain ⟨p, hp, rfl⟩ := Option.map_eq_some_iff.mp hs
      exact Or.inr ⟨p.2, hp⟩
  · obtain ⟨p, hp, rfl⟩ := Option.map_eq_some_iff.mp hs
    exact Or.inr ⟨p.2, hp⟩
  · obtain ⟨p, hp, rfl⟩ := Option.map_eq_some_iff.mp hs
    exact Or.inr ⟨p.2, hp⟩

/-- A thread in `rb_write` makes a step of the call, or leaves the ring alone. -/
theorem stepWrite_rb {c : WriteCall} (hs : s.stepWrite t c timeout = some s') :
    s'.rb = s.rb ∨ ∃ c', c.step s.rb timeout = some (s'.rb, c') := by
  unfold stepWrite at hs
  split at hs
  · obtain rfl := Option.some.inj hs
    exact Or.inl rfl
  · split_ifs at hs
    all_goals
      obtain ⟨p, hp, rfl⟩ := Option.map_eq_some_iff.mp hs
      exact Or.inr ⟨p.2, hp⟩
  · obtain ⟨p, hp, rfl⟩ := Option.map_eq_some_iff.mp hs
    exact Or.inr ⟨p.2, hp⟩

/-- A call on the ring clears no mark. -/
theorem step_marked {l : RbLabel ι} (hs : s.step l = some s') (hl : l ≠ .reset)
    (h : s.rb.Marked) : s'.rb.Marked := by
  cases l with
  | read t len | write t bytes | control t call =>
    simp only [RbSys.step] at hs
    split_ifs at hs
    obtain rfl := Option.some.inj hs
    exact h
  | reset => exact absurd rfl hl
  | step t timeout =>
    simp only [RbSys.step] at hs
    cases hth : s.thread t with
    | idle =>
      rw [hth] at hs
      exact nomatch hs
    | reading c =>
      rw [hth] at hs
      rcases stepRead_rb hs with heq | ⟨c', hc⟩
      · rwa [heq]
      · obtain ⟨hdone, habort, -⟩ := ReadCall.step_flags hc
        rwa [Ringbuf.Marked, hdone, habort]
    | writing c =>
      rw [hth] at hs
      rcases stepWrite_rb hs with heq | ⟨c', hc⟩
      · rwa [heq]
      · obtain ⟨hdone, habort, -⟩ := WriteCall.step_flags hc
        rwa [Ringbuf.Marked, hdone, habort]
    | control call acts =>
      rw [hth] at hs
      obtain rfl := Option.some.inj hs
      cases acts with
      | nil => exact h
      | cons a acts =>
        cases a with
        | setAbortRead => exact Or.inr rfl
        | setDone => exact Or.inl rfl
        | setAbortWrite | setUnblock | postRead | postWrite => exact h

end RbSys

end AudioPipeline
