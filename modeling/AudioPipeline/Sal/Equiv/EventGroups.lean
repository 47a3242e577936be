import AudioPipeline.Sal.EventGroups
import Mathlib.Tactic.Common

/-!
# Waking the waiters of an event group

FreeRTOS wakes every task that waits for a bit when the bit is set, and returns the value the group
had then.  Here a signal wakes one thread, and the value is read when that thread has the mutex
again.

* `set_releases`: `xEventGroupSetBits` leaves nobody behind in a run in which it only ever finds one
  thread on a condition variable it signals.
* `wait_returns_bit`: a wait that ends before its deadline has its bit in a run in which no bit is
  cleared between the signal and the return, and no wait ends spuriously.
-/

namespace AudioPipeline

/-- A blocked thread that leaves its bit set when it returns. -/
def WaitState.keeps : WaitState → Bool
  | .blocked call _ _ _ => !call.xClearOnExit
  | _ => false

/-- A blocked thread whose bit was set, and which was not woken for it. -/
def WaitState.passedOver : WaitState → Bool
  | .blocked _ _ _ passedOver => passedOver
  | _ => false

/-- A call that returned before its deadline has its bit in what it returned. -/
def WaitState.Answered : WaitState → Prop
  | .returned call uxReturn late => late = false → ∀ i : Fin 8,
    call.uxBitsToWaitFor = BitVec.twoPow 32 i → uxReturn.getLsbD i = true
  | _ => True

/-- The bits that a woken thread is about to clear. -/
def WaitState.clears : WaitState → EventBits
  | .woken call _ => if call.xClearOnExit then call.uxBitsToWaitFor else 0
  | _ => 0

/-- A blocked thread that has nothing to wake up for. -/
def WaitState.waiting (bits : EventBits) : WaitState → Bool
  | .blocked _ i late _ => !late && !bits.getLsbD i
  | _ => false

/-- The bits that a thread which was woken before its deadline is about to look for. -/
def WaitState.awaits : WaitState → EventBits
  | .woken call late => if late then 0 else call.uxBitsToWaitFor
  | _ => 0

namespace EventGroup

variable {n : ℕ} {g g' : EventGroup n}

/-! ### What the steps do to the threads -/

/-- A thread is signalled because bits `b` are set. -/
def Signalled (b : EventBits) (st st' : WaitState) : Prop :=
  ∃ call i late p, st = .blocked call i late p ∧ b.getLsbD i = true ∧ st' = .woken call late

/-- What a signal does. -/
theorem signal_cases {i : Fin 8} {pick : Option (Fin n)} (h : g.signal i pick = some g') :
    (∀ t, (g.threads t).blockedOn ≠ some i) ∧ g' = g ∨
      ∃ u call late p, g.threads u = .blocked call i late p ∧
        g' = g.setThread u (.woken call late) := by
  cases pick with
  | none =>
    rw [signal] at h
    split_ifs at h with hnone
    exact Or.inl ⟨hnone, (Option.some.inj h).symm⟩
  | some u =>
    rw [signal] at h
    split at h
    case h_2 => exact nomatch h
    case h_1 call j late p hu =>
      split_ifs at h with hj
      subst hj
      exact Or.inr ⟨u, call, late, p, hu, (Option.some.inj h).symm⟩

/-- **The signals of `xEventGroupSetBits`** wake threads that are blocked on the bits. -/
theorem signals_spec {b : EventBits} {pick : Fin 8 → Option (Fin n)} {is : List (Fin 8)}
    (h : signals b pick is g = some g') :
    g'.uxEventBits = g.uxEventBits ∧
      ∀ t, g'.threads t = g.threads t ∨ Signalled b (g.threads t) (g'.threads t) := by
  induction is generalizing g with
  | nil =>
    obtain rfl := Option.some.inj h
    exact ⟨rfl, fun _ => Or.inl rfl⟩
  | cons i is ih =>
    rw [signals] at h
    split_ifs at h with hi
    · obtain ⟨g₁, hsignal, hrest⟩ := Option.bind_eq_some_iff.mp h
      obtain ⟨hbits, hthreads⟩ := ih hrest
      obtain ⟨_, rfl⟩ | ⟨u, call, late, p, hu, rfl⟩ := signal_cases hsignal
      · exact ⟨hbits, hthreads⟩
      · refine ⟨hbits, fun t => ?_⟩
        have ht := hthreads t
        by_cases htu : t = u
        · subst htu
          rw [setThread_self] at ht
          -- a woken thread is not blocked any more
          rcases ht with ht | ⟨_, _, _, _, hblocked, _⟩
          · exact Or.inr ⟨call, i, late, p, hu, hi, ht⟩
          · exact nomatch hblocked
        · rwa [setThread_ne _ htu] at ht
    · exact ih h

/-- **No waiter that is alone on its condition variable is left behind.** -/
theorem signals_wake {b : EventBits} {pick : Fin 8 → Option (Fin n)} {is : List (Fin 8)} {i : Fin 8}
    {t : Fin n} (h : signals b pick is g = some g') (hmem : i ∈ is) (hi : b.getLsbD i = true)
    (ht : (g.threads t).blockedOn = some i)
    (halone : ∀ u, (g.threads u).blockedOn = some i → u = t) :
    (g'.threads t).blockedOn = none := by
  induction is generalizing g with
  | nil => exact nomatch hmem
  | cons j is ih =>
    rw [signals] at h
    by_cases hji : j = i
    · subst hji
      rw [if_pos hi] at h
      obtain ⟨g₁, hsignal, hrest⟩ := Option.bind_eq_some_iff.mp h
      obtain ⟨hnone, _⟩ | ⟨u, call, late, p, hu, rfl⟩ := signal_cases hsignal
      · exact absurd ht (hnone t)
      · obtain rfl : u = t := halone u (by rw [hu]; rfl)
        have hrest := (signals_spec hrest).2 u
        rw [setThread_self] at hrest
        rcases hrest with hwoken | ⟨_, _, _, _, hblocked, _⟩
        · rw [hwoken]
          rfl
        · exact nomatch hblocked
    · have hmem' : i ∈ is := (List.mem_cons.mp hmem).resolve_left (Ne.symm hji)
      split_ifs at h with hj
      · obtain ⟨g₁, hsignal, hrest⟩ := Option.bind_eq_some_iff.mp h
        obtain ⟨_, rfl⟩ | ⟨u, call, late, p, hu, rfl⟩ := signal_cases hsignal
        · exact ih hrest hmem' ht halone
        · refine ih hrest hmem' ?_ fun v hv => halone v ?_
          · -- the signal was for a thread on another condition variable
            have htu : t ≠ u := by
              rintro rfl
              rw [hu] at ht
              exact hji (Option.some.inj ht)
            rwa [setThread_ne _ htu]
          · by_cases hvu : v = u
            · subst hvu
              rw [setThread_self] at hv
              exact nomatch hv
            · rwa [setThread_ne _ hvu] at hv
      · exact ih h hmem' ht halone

/-- **`xEventGroupSetBits`**: a thread is woken, or passed over, or not concerned. -/
theorem xEventGroupSetBits_spec {b : EventBits} {pick : Fin 8 → Option (Fin n)}
    (h : g.xEventGroupSetBits b pick = some g') :
    g'.uxEventBits = g.uxEventBits ||| b ∧ ∀ t, Signalled b (g.threads t) (g'.threads t) ∨
      g'.threads t = passOver b (g.threads t) := by
  unfold xEventGroupSetBits at h
  split_ifs at h
  obtain ⟨g₁, hsignals, rfl⟩ := Option.map_eq_some_iff.mp h
  obtain ⟨hbits, hthreads⟩ := signals_spec hsignals
  refine ⟨hbits, fun t => ?_⟩
  rcases hthreads t with ht | ⟨call, i, late, p, hst, hi, ht⟩
  · exact Or.inr (congrArg (passOver b) ht)
  · exact Or.inl ⟨call, i, late, p, hst, hi, congrArg (passOver b) ht⟩

/-- `xEventGroupSetBits` wakes the thread that is alone on the condition variable. -/
theorem xEventGroupSetBits_wakes {b : EventBits} {pick : Fin 8 → Option (Fin n)} {i : Fin 8}
    {t : Fin n} (h : g.xEventGroupSetBits b pick = some g') (hi : b.getLsbD i = true)
    (ht : (g.threads t).blockedOn = some i)
    (halone : ∀ u, (g.threads u).blockedOn = some i → u = t) :
    (g'.threads t).blockedOn = none := by
  unfold xEventGroupSetBits at h
  split_ifs at h
  obtain ⟨g₁, hsignals, rfl⟩ := Option.map_eq_some_iff.mp h
  have hwoken := signals_wake hsignals (List.mem_finRange i) hi ht halone
  show (passOver b (g₁.threads t)).blockedOn = none
  cases hst : g₁.threads t with
  | blocked call j late p =>
    rw [hst] at hwoken
    exact nomatch hwoken
  | idle | woken | returned => rfl

theorem callWait_eq {t : Fin n} {call : WaitCall} (h : g.callWait t call = some g') :
    g.xEventGroupWaitBits t call = some g' := by
  unfold callWait at h
  cases hst : g.threads t with
  | idle | returned =>
    rw [hst] at h
    exact h
  | blocked | woken =>
    rw [hst] at h
    exact nomatch h

theorem expire_cases {t : Fin n} (h : g.expire t = some g') :
    (∃ call i late p, g.threads t = .blocked call i late p ∧
        g' = g.setThread t (.blocked call i true p)) ∨
      ∃ call, g' = g.setThread t (.woken call true) := by
  unfold expire at h
  cases hst : g.threads t with
  | blocked call i late p =>
    rw [hst] at h
    exact Or.inl ⟨call, i, late, p, rfl, (Option.some.inj h).symm⟩
  | woken call late =>
    rw [hst] at h
    exact Or.inr ⟨call, (Option.some.inj h).symm⟩
  | idle | returned =>
    rw [hst] at h
    exact nomatch h

theorem wake_cases {t : Fin n} (h : g.wake t = some g') :
    ∃ call i late p, g.threads t = .blocked call i late p ∧
      g' = g.setThread t (.woken call late) := by
  unfold wake at h
  cases hst : g.threads t with
  | blocked call i late p =>
    rw [hst] at h
    exact ⟨call, i, late, p, rfl, (Option.some.inj h).symm⟩
  | idle | woken | returned =>
    rw [hst] at h
    exact nomatch h

theorem relock_cases {t : Fin n} (h : g.relock t = some g') :
    ∃ call late, g.threads t = .woken call late ∧ g' = g.exitWait t call late := by
  unfold relock at h
  cases hst : g.threads t with
  | woken call late =>
    rw [hst] at h
    exact ⟨call, late, rfl, (Option.some.inj h).symm⟩
  | idle | blocked | returned =>
    rw [hst] at h
    exact nomatch h

/-- **`xEventGroupWaitBits`** returns at once, because its condition is met or because there is no
condition variable for its bit, or blocks. -/
theorem xEventGroupWaitBits_cases {t : Fin n} {call : WaitCall}
    (h : g.xEventGroupWaitBits t call = some g') :
    g' = g.exitWait t call false ∧
        (prvTestWaitCondition g.uxEventBits call.uxBitsToWaitFor call.xWaitForAllBits = true ∨
          ∀ i : Fin 8, call.uxBitsToWaitFor.getLsbD i = false) ∨
      ∃ i : Fin 8, call.uxBitsToWaitFor.getLsbD i = true ∧
        g' = g.setThread t (.blocked call i false false) := by
  unfold xEventGroupWaitBits at h
  split_ifs at h with hzero hmulti hmet
  · exact Or.inl ⟨(Option.some.inj h).symm, Or.inl hmet⟩
  · split at h
    case h_1 i hfind =>
      have hi := List.find?_some hfind
      exact Or.inr ⟨i, hi, (Option.some.inj h).symm⟩
    case h_2 hfind =>
      refine Or.inl ⟨(Option.some.inj h).symm, Or.inr fun i => ?_⟩
      simpa using List.find?_eq_none.mp hfind i (List.mem_finRange i)

/-- What holds of a thread's new state and of all threads before holds of all threads. -/
theorem forall_setThread {P : WaitState → Prop} {t : Fin n} {st : WaitState} (hst : P st)
    (h : ∀ u, u ≠ t → P (g.threads u)) (u : Fin n) : P ((g.setThread t st).threads u) := by
  by_cases hu : u = t
  · subst hu
    rw [setThread_self]
    exact hst
  · rw [setThread_ne _ hu]
    exact h u hu

/-! ### Setting a bit -/

/-- No thread that waits without `xClearOnExit` is still blocked after its bit was set. -/
def Released (g : EventGroup n) : Prop :=
  ∀ t, (g.threads t).keeps = true → (g.threads t).passedOver = false

instance (g : EventGroup n) : Decidable g.Released :=
  inferInstanceAs (Decidable (∀ _, _))

/-- A thread that will not clear the bit is the only one that `xEventGroupSetBits` finds on the
condition variable of the bit. -/
def Alone (g : EventGroup n) : WaitLabel n → Prop
  | .setBits uxBitsToSet _ => ∀ (i : Fin 8) t u, uxBitsToSet.getLsbD i = true →
    (g.threads t).blockedOn = some i → (g.threads t).keeps = true →
    (g.threads u).blockedOn = some i → u = t
  | _ => True

instance (g : EventGroup n) : ∀ l, Decidable (g.Alone l)
  | .setBits uxBitsToSet _ => inferInstanceAs (Decidable (∀ (i : Fin 8) t u,
      uxBitsToSet.getLsbD i = true → (g.threads t).blockedOn = some i →
      (g.threads t).keeps = true → (g.threads u).blockedOn = some i → u = t))
  | .waitBits _ _ | .clearBits _ | .expire _ | .wake _ | .relock _ =>
    inferInstanceAs (Decidable True)

theorem Released.setThread {t : Fin n} {st : WaitState} (h : g.Released)
    (hst : st.keeps = true → st.passedOver = false) : (g.setThread t st).Released :=
  forall_setThread (P := fun st => st.keeps = true → st.passedOver = false) hst fun u _ => h u

/-- **A step** leaves nobody behind. -/
theorem Released.step {l : WaitLabel n} (h : g.Released) (hl : g.Alone l)
    (hs : g.step l = some g') : g'.Released := by
  cases l with
  | waitBits t call =>
    obtain ⟨rfl, _⟩ | ⟨i, _, rfl⟩ := xEventGroupWaitBits_cases (callWait_eq hs)
    · exact h.setThread fun _ => rfl
    · exact h.setThread fun _ => rfl
  | clearBits b =>
    obtain rfl := Option.some.inj hs
    exact h
  | setBits b pick =>
    intro t hkeeps
    rcases (xEventGroupSetBits_spec hs).2 t with ⟨call, i, late, p, _, _, ht⟩ | ht
    · rw [ht]
      rfl
    · cases hst : g.threads t with
      | blocked call i late p =>
        have hblocked : (g.threads t).blockedOn = some i := by rw [hst]; rfl
        rw [hst] at ht
        rw [ht] at hkeeps ⊢
        have hkeeps' : (g.threads t).keeps = true := by rw [hst]; exact hkeeps
        have hp : p = false := by
          have hreleased := h t hkeeps'
          rwa [hst] at hreleased
        cases hi : b.getLsbD i with
        | false =>
          show (p || b.getLsbD i) = false
          rw [hp, hi]
          rfl
        | true =>
          -- the thread was alone, so that the signal was for it
          have hwoken := xEventGroupSetBits_wakes hs hi hblocked fun u hu =>
            hl i t u hi hblocked hkeeps' hu
          rw [ht] at hwoken
          exact nomatch hwoken
      | idle | woken | returned =>
        rw [ht, hst]
        rfl
  | expire t =>
    obtain ⟨call, i, late, p, hst, rfl⟩ | ⟨call, rfl⟩ := expire_cases hs
    · refine h.setThread fun hkeeps => ?_
      have hreleased := h t
      rw [hst] at hreleased
      exact hreleased hkeeps
    · exact h.setThread fun _ => rfl
  | wake t =>
    obtain ⟨call, i, late, p, _, rfl⟩ := wake_cases hs
    exact h.setThread fun _ => rfl
  | relock t =>
    obtain ⟨call, late, _, rfl⟩ := relock_cases hs
    exact h.setThread fun _ => rfl

/-- **Setting a bit releases every waiter** that does not clear it, if it is the only one. -/
theorem set_releases (n : ℕ) (g : EventGroup n)
    (h : Lts.Reach EventGroup.step Alone (xEventGroupCreate n) g) : g.Released :=
  h.invariant (I := Released) (fun _ _ => rfl) fun _ _ _ hI hl hs => hI.step hl hs

/-- A thread waits for bit 0 until it is set. -/
def waitBit0 : WaitCall := ⟨1, false, true⟩

/-- Two threads on two bits. -/
theorem set_releases_two :
    ∃ g, Lts.Reach EventGroup.step Alone (xEventGroupCreate 2) g ∧ g.Released ∧
      (g.threads 0).blockedOn = none ∧ (g.threads 1).blockedOn = some 1 := by
  obtain ⟨g, hg⟩ : ∃ g, Lts.run EventGroup.step Alone (xEventGroupCreate 2)
      [.waitBits 0 waitBit0, .waitBits 1 ⟨2, false, true⟩, .setBits 5 fun i =>
        if i = 0 then some 0 else none] = some g :=
    ⟨_, rfl⟩
  have hr := Lts.Reach.of_run _ Lts.Reach.refl hg
  refine ⟨g, hr, set_releases 2 g hr, ?_, ?_⟩
  all_goals
    obtain rfl := Option.some.inj hg
    rfl

/-- Two threads wait for the same bit; one is woken. -/
theorem set_leaves_behind :
    ¬∀ (n : ℕ) (g : EventGroup n),
      Lts.Reach EventGroup.step (fun _ _ => True) (xEventGroupCreate n) g → g.Released := by
  intro hall
  obtain ⟨g, hg⟩ : ∃ g, Lts.run EventGroup.step (fun _ _ => True) (xEventGroupCreate 2)
      [.waitBits 0 waitBit0, .waitBits 1 waitBit0,
        .setBits 1 fun i => if i = 0 then some 0 else none] = some g :=
    ⟨_, rfl⟩
  have hreleased := hall 2 g (Lts.Reach.of_run _ Lts.Reach.refl hg) 1
  obtain rfl := Option.some.inj hg
  exact absurd hreleased (by decide)

/-! ### Returning a bit -/

/-- A wait for bit `i` is met when that bit is set. -/
theorem prvTestWaitCondition_twoPow {bits : EventBits} {i : Fin 8} {all : Bool}
    (h : prvTestWaitCondition bits (BitVec.twoPow 32 i) all = true) : bits.getLsbD i = true := by
  have hi : (BitVec.twoPow 32 i).getLsbD i = true := by
    rw [BitVec.getLsbD_twoPow]
    simp
    omega
  by_contra hbit
  have hand : bits &&& BitVec.twoPow 32 i = 0 := by
    rw [BitVec.and_twoPow, if_neg hbit]
    rfl
  unfold prvTestWaitCondition at h
  rw [hand] at h
  split_ifs at h
  · exact absurd h (by decide)
  · have hzero : (0 : EventBits) = BitVec.twoPow 32 i := eq_of_beq h
    rw [← hzero] at hi
    exact absurd hi (by simp)

/-- The only bit of a wait for bit `i`. -/
theorem eq_of_getLsbD_twoPow {i j : Fin 8} (h : (BitVec.twoPow 32 i).getLsbD j = true) : j = i := by
  rw [BitVec.getLsbD_twoPow, Bool.and_eq_true] at h
  have hij : (i : ℕ) = j := of_decide_eq_true h.2
  exact Fin.ext hij.symm

/-- What holds of a thread while the bits of the group are `bits`: it is blocked on the condition
variable of its bit, and finds its bit set if it was woken before its deadline. -/
def Steady (bits : EventBits) : WaitState → Prop
  | .idle => True
  | .blocked call i _ _ => call.uxBitsToWaitFor.getLsbD i = true
  | .woken call late => late = false →
    ∃ i : Fin 8, call.uxBitsToWaitFor.getLsbD i = true ∧ bits.getLsbD i = true
  | .returned call uxReturn late => (WaitState.returned call uxReturn late).Answered

/-- Setting bits disturbs nobody. -/
theorem Steady.set {bits : EventBits} {st : WaitState} (h : Steady bits st) (b : EventBits) :
    Steady (bits ||| b) st := by
  cases st with
  | woken call late =>
    intro hlate
    obtain ⟨i, hi, hbit⟩ := h hlate
    refine ⟨i, hi, ?_⟩
    rw [BitVec.getLsbD_or, hbit, Bool.true_or]
  | idle | blocked | returned => exact h

/-- Clearing bits disturbs nobody who was not woken for them. -/
theorem Steady.clear {bits b : EventBits} {st : WaitState} (h : Steady bits st)
    (hb : ∀ i : Fin 8, st.awaits.getLsbD i = true → b.getLsbD i = false) :
    Steady (bits &&& ~~~b) st := by
  cases st with
  | woken call late =>
    intro hlate
    obtain ⟨i, hi, hbit⟩ := h hlate
    have hawaits : (WaitState.woken call late).awaits = call.uxBitsToWaitFor := by
      subst hlate
      rfl
    have hkept : b.getLsbD i = false := hb i (by rw [hawaits]; exact hi)
    refine ⟨i, hi, ?_⟩
    rw [BitVec.getLsbD_and, BitVec.getLsbD_not, hbit, hkept]
    simp
    omega
  | idle | blocked | returned => exact h

/-- Every thread is where it should be. -/
def AllSteady (g : EventGroup n) : Prop := ∀ t, Steady g.uxEventBits (g.threads t)

/-- No step of another thread clears a bit for which a thread was woken before its deadline and has
not returned yet, and no wait for a bit that is not set ends spuriously before its deadline. -/
def Undisturbed (g : EventGroup n) : WaitLabel n → Prop
  | .waitBits _ call => call.xClearOnExit = true →
    prvTestWaitCondition g.uxEventBits call.uxBitsToWaitFor call.xWaitForAllBits = true →
    ∀ u, (g.threads u).awaits &&& call.uxBitsToWaitFor = 0
  | .clearBits uxBitsToClear => ∀ u, (g.threads u).awaits &&& uxBitsToClear = 0
  | .relock t => ∀ u, u ≠ t → (g.threads u).awaits &&& (g.threads t).clears = 0
  | .wake t => (g.threads t).waiting g.uxEventBits = false
  | .setBits _ _ | .expire _ => True

instance (g : EventGroup n) : ∀ l, Decidable (g.Undisturbed l)
  | .waitBits _ call => inferInstanceAs (Decidable (call.xClearOnExit = true →
      prvTestWaitCondition g.uxEventBits call.uxBitsToWaitFor call.xWaitForAllBits = true →
      ∀ u, (g.threads u).awaits &&& call.uxBitsToWaitFor = 0))
  | .clearBits uxBitsToClear =>
    inferInstanceAs (Decidable (∀ u, (g.threads u).awaits &&& uxBitsToClear = 0))
  | .relock t => inferInstanceAs (Decidable (∀ u, u ≠ t →
      (g.threads u).awaits &&& (g.threads t).clears = 0))
  | .wake t => inferInstanceAs (Decidable ((g.threads t).waiting g.uxEventBits = false))
  | .setBits _ _ | .expire _ => inferInstanceAs (Decidable True)

/-- What is disjoint from the bits a thread awaits takes none of them. -/
theorem getLsbD_eq_false {x b : EventBits} (h : x &&& b = 0) (i : Fin 8)
    (hx : x.getLsbD i = true) : b.getLsbD i = false := by
  have hand : (x &&& b).getLsbD i = false := by
    rw [h]
    simp
  rwa [BitVec.getLsbD_and, hx, Bool.true_and] at hand

theorem AllSteady.setThread {t : Fin n} {st : WaitState} (h : g.AllSteady)
    (hst : Steady g.uxEventBits st) : (g.setThread t st).AllSteady :=
  forall_setThread hst fun u _ => h u

/-- The end of a call that clears nothing for which another thread was woken. -/
theorem AllSteady.exitWait {t : Fin n} {call : WaitCall} {late : Bool} (h : g.AllSteady)
    (hbit : late = false → ∀ i : Fin 8, call.uxBitsToWaitFor = BitVec.twoPow 32 i →
      g.uxEventBits.getLsbD i = true)
    (hclear : call.xClearOnExit = true → ∀ u, u ≠ t → ∀ i : Fin 8,
      (g.threads u).awaits.getLsbD i = true → call.uxBitsToWaitFor.getLsbD i = false) :
    (g.exitWait t call late).AllSteady := by
  have hothers : ∀ u, u ≠ t → Steady (g.exitWait t call late).uxEventBits (g.threads u) := by
    intro u hu
    show Steady (if call.xClearOnExit then _ else _) _
    split_ifs with hc
    · exact (h u).clear (hclear hc u hu)
    · exact h u
  exact forall_setThread hbit hothers

/-- **A step** that disturbs no woken thread. -/
theorem AllSteady.step {l : WaitLabel n} (h : g.AllSteady) (hl : g.Undisturbed l)
    (hs : g.step l = some g') : g'.AllSteady := by
  cases l with
  | waitBits t call =>
    -- a call that finds its bit, or cannot wait, returns at once; any other blocks
    obtain ⟨rfl, hnow⟩ | ⟨i, hi, rfl⟩ := xEventGroupWaitBits_cases (callWait_eq hs)
    · rcases hnow with hmet | hnone
      · refine h.exitWait ?_ ?_
        · intro _ i hcall
          rw [hcall] at hmet
          exact prvTestWaitCondition_twoPow hmet
        · intro hc u _
          exact getLsbD_eq_false (hl hc hmet u)
      · refine h.exitWait ?_ fun _ _ _ i _ => hnone i
        intro _ i hcall
        have hi := hnone i
        rw [hcall, BitVec.getLsbD_twoPow] at hi
        simp at hi
        omega
    · exact h.setThread hi
  | clearBits b =>
    obtain rfl := Option.some.inj hs
    exact fun u => (h u).clear (getLsbD_eq_false (hl u))
  | setBits b pick =>
    obtain ⟨hbits, hthreads⟩ := xEventGroupSetBits_spec hs
    -- a thread that is signalled has its bit among those that are set
    intro u
    rw [hbits]
    rcases hthreads u with ⟨call, i, late, p, hst, hi, hu⟩ | hu
    · have hcall := h u
      rw [hst] at hcall
      rw [hu]
      refine fun _ => ⟨i, hcall, ?_⟩
      rw [BitVec.getLsbD_or, hi, Bool.or_true]
    · have hsteady := (h u).set b
      rw [hu]
      cases hst : g.threads u with
      | idle | blocked | woken | returned =>
        rw [hst] at hsteady
        exact hsteady
  | expire t =>
    obtain ⟨call, i, late, p, hst, rfl⟩ | ⟨call, rfl⟩ := expire_cases hs
    · refine h.setThread ?_
      have hcall := h t
      rw [hst] at hcall
      exact hcall
    · exact h.setThread nofun
  | wake t =>
    obtain ⟨call, i, late, p, hst, rfl⟩ := wake_cases hs
    refine h.setThread fun hlate => ⟨i, ?_, ?_⟩
    · have hcall := h t
      rw [hst] at hcall
      exact hcall
    · have hbit : (WaitState.blocked call i late p).waiting g.uxEventBits = false := by
        rw [← hst]
        exact hl
      rw [hlate] at hbit
      simpa [WaitState.waiting] using hbit
  | relock t =>
    -- the bits are read again when the mutex is held; nobody has cleared them meanwhile
    obtain ⟨call, late, hst, rfl⟩ := relock_cases hs
    have hwoken := h t
    rw [hst] at hwoken
    refine h.exitWait ?_ ?_
    · intro hlate i hcall
      obtain ⟨j, hj, hbit⟩ := hwoken hlate
      rw [hcall] at hj
      rwa [← eq_of_getLsbD_twoPow hj]
    · intro hc u hu
      have hdisjoint : (g.threads u).awaits &&& (WaitState.woken call late).clears = 0 := by
        rw [← hst]
        exact hl u hu
      rw [WaitState.clears, if_pos hc] at hdisjoint
      exact getLsbD_eq_false hdisjoint

/-- **A wait that ends before its deadline has its bit** if nobody disturbs the threads between
their waking and their return. -/
theorem wait_returns_bit (n : ℕ) (g : EventGroup n)
    (h : Lts.Reach EventGroup.step Undisturbed (xEventGroupCreate n) g) (t : Fin n) :
    (g.threads t).Answered := by
  have hsteady : g.AllSteady :=
    h.invariant (fun _ => trivial) fun _ _ _ hI hl hs => hI.step hl hs
  have ht := hsteady t
  cases hst : g.threads t with
  | returned =>
    rw [hst] at ht
    exact ht
  | idle | blocked | woken => trivial

/-- Bit 0 is set and cleared again after the thread that waited for it has returned. -/
theorem wait_returns_bit_kept :
    ∃ g, Lts.Reach EventGroup.step Undisturbed (xEventGroupCreate 1) g ∧
      g.threads 0 = .returned waitBit0 1 false ∧ (g.threads 0).Answered := by
  obtain ⟨g, hg⟩ : ∃ g, Lts.run EventGroup.step Undisturbed (xEventGroupCreate 1)
      [.waitBits 0 waitBit0, .setBits 1 fun i => if i = 0 then some 0 else none, .relock 0,
        .clearBits 1] = some g :=
    ⟨_, rfl⟩
  have hr := Lts.Reach.of_run _ Lts.Reach.refl hg
  refine ⟨g, hr, ?_, wait_returns_bit 1 g hr 0⟩
  obtain rfl := Option.some.inj hg
  rfl

/-- Bit 0 is cleared before the thread that was woken for it has the mutex. -/
theorem wait_misses_bit :
    ¬∀ (n : ℕ) (g : EventGroup n),
      Lts.Reach EventGroup.step (fun _ _ => True) (xEventGroupCreate n) g →
      ∀ t, (g.threads t).Answered := by
  intro hall
  obtain ⟨g, hg⟩ : ∃ g, Lts.run EventGroup.step (fun _ _ => True) (xEventGroupCreate 1)
      [.waitBits 0 waitBit0, .setBits 1 fun i => if i = 0 then some 0 else none, .clearBits 1,
        .relock 0] = some g :=
    ⟨_, rfl⟩
  have hanswered := hall 1 g (Lts.Reach.of_run _ Lts.Reach.refl hg) 0
  obtain rfl := Option.some.inj hg
  have hbit : (0 : EventBits).getLsbD 0 = true := hanswered rfl 0 (by decide)
  exact absurd hbit (by decide)

end EventGroup

end AudioPipeline
