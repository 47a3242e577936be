import AudioPipeline.Pipeline.Status

/-!
# Collecting states

The loop rewrites what it remembers of an element from the state of that element alone, so that
rewriting again changes nothing (`rewritten_idem`), and the order of the items does not matter.
Between two calls an element that is still running is remembered as it was last reported.

* `checks_exact`: each call answers for the set of the elements that were reported so far.
-/

namespace AudioPipeline

/-! ### What the loop counts -/

theorem rewritten_idem (st : AelState) (elState : ℤ) :
    rewritten st (rewritten st elState) = rewritten st elState := by
  unfold rewritten
  split_ifs <;> rfl

section Loop

variable {state : ℕ → AelState} {status : ℤ} {c : ItemCount}

/-- The state of an element as the loop comes to see it. -/
def ItemCount.seen (state : ℕ → AelState) (c : ItemCount) (el : ℕ) : ℤ :=
  rewritten (state el) (c.elState el)

theorem seen_countItem (item : ElementItem) (el : ℕ) :
    (countItem state status c item).seen state el = c.seen state el := by
  unfold countItem
  split_ifs with hlinked
  · rfl
  · show rewritten (state el) (Function.update c.elState item.el _ el) = _
    by_cases hel : el = item.el
    · subst hel
      rw [Function.update_self, rewritten_idem]
      rfl
    · rw [Function.update_of_ne hel]
      rfl

/-- **The loop**, by induction on the items. -/
theorem countItem_foldl (items : List ElementItem) (c : ItemCount) :
    (items.foldl (countItem state status) c).elCnt =
        c.elCnt + items.countP ElementItem.linked ∧
      (items.foldl (countItem state status) c).elStaCnt = c.elStaCnt +
        items.countP (fun item => counted status (c.seen state item.el) && item.linked) ∧
      ∀ el, (items.foldl (countItem state status) c).seen state el = c.seen state el := by
  induction items generalizing c with
  | nil => exact ⟨rfl, rfl, fun _ => rfl⟩
  | cons item items ih =>
    obtain ⟨hcnt, hsta, hseen⟩ := ih (countItem state status c item)
    simp only [seen_countItem] at hsta
    rw [List.foldl_cons]
    refine ⟨?_, ?_, fun el => (hseen el).trans (seen_countItem item el)⟩
    · rw [hcnt, List.countP_cons]
      unfold countItem
      cases hlinked : item.linked with
      | true =>
        rw [if_neg (by decide), if_pos rfl]
        show c.elCnt + 1 + _ = _
        omega
      | false =>
        rw [if_pos rfl, if_neg (by decide)]
        rfl
    · rw [hsta, List.countP_cons]
      unfold countItem
      cases hlinked : item.linked with
      | true =>
        rw [if_neg (by decide), Bool.and_true]
        show (if counted status (c.seen state item.el) then c.elStaCnt + 1 else c.elStaCnt) + _ = _
        split_ifs <;> omega
      | false =>
        rw [if_pos rfl, Bool.and_false, if_neg (by decide)]
        rfl

/-- All linked items are counted, and there is one. -/
theorem countP_all (items : List ElementItem) (p : ElementItem → Bool) :
    items.countP ElementItem.linked ≠ 0 ∧
        items.countP (fun item => p item && item.linked) = items.countP ElementItem.linked ↔
      (∃ item ∈ items, item.linked = true) ∧ ∀ item ∈ items, item.linked = true →
        p item = true := by
  have hsome : items.countP ElementItem.linked ≠ 0 ↔ ∃ item ∈ items, item.linked = true := by
    rw [← Nat.pos_iff_ne_zero, List.countP_pos_iff]
  have hall : items.countP (fun item => p item && item.linked) = items.countP ElementItem.linked ↔
      ∀ item ∈ items, item.linked = true → p item = true := by
    rw [← List.countP_filter, List.countP_eq_length_filter (p := ElementItem.linked),
      List.countP_eq_length]
    simp only [List.mem_filter, and_imp]
  rw [hsome, hall]

end Loop

/-! ### What is remembered between the calls -/

/-- The statuses in question. -/
def IsStateStatus (status : ℤ) : Prop :=
  status = AEL_STATUS_STATE_RUNNING ∨ status = AEL_STATUS_STATE_PAUSED ∨
    status = AEL_STATUS_STATE_STOPPED ∨ status = AEL_STATUS_STATE_FINISHED

/-- An element in this state is where the application wants it. -/
def Arrived (st : AelState) (status : ℤ) (reported : Prop) : Prop :=
  st = .error ∨ st = .finished ∨
    st = .stopped ∧ (status = AEL_STATUS_STATE_STOPPED ∨ status = AEL_STATUS_STATE_FINISHED) ∨
    ¬(st = .stopped ∨ st = .finished ∨ st = .error) ∧ reported

/-- Some element is linked, and all that are linked are where the application wants them. -/
def Verdict (l : ElList) (state : ℕ → AelState) (status : ℤ) (reported : ℕ → Prop) : Prop :=
  (∃ item ∈ l.items, item.linked = true) ∧
    ∀ item ∈ l.items, item.linked = true → Arrived (state item.el) status (reported item.el)

/-- The table, for an element that is remembered as it was reported. -/
theorem counted_iff {st : AelState} {status : ℤ} (hstatus : IsStateStatus status) {p : Prop}
    [Decidable p] : counted status (rewritten st (if p then status else AEL_STATUS_NONE)) = true ↔
      Arrived st status p := by
  unfold Arrived
  by_cases hp : p
  · rw [if_pos hp]
    rcases hstatus with rfl | rfl | rfl | rfl <;> cases st <;> simp [hp, counted, rewritten] <;>
      decide
  · rw [if_neg hp]
    rcases hstatus with rfl | rfl | rfl | rfl <;> cases st <;> simp [hp, counted, rewritten] <;>
      decide

theorem ret_eq_ok {p : Prop} [Decidable p] : (if p then ESP_OK else ESP_FAIL) = ESP_OK ↔ p := by
  split_ifs with h
  · exact iff_of_true rfl h
  · exact iff_of_false (by decide) h

namespace ItemStates

variable {s : ItemStates} {state : ℕ → AelState} {status : ℤ} {reported : List ℕ} {el : ℕ}

/-- Each linked element that still runs is remembered as it was reported since the reset. -/
def Remembers (s : ItemStates) (state : ℕ → AelState) (status : ℤ) (reported : List ℕ) : Prop :=
  ∀ item ∈ s.elList.items, item.linked = true → rewritten (state item.el) (s.elState item.el) =
    rewritten (state item.el) (if item.el ∈ reported then status else AEL_STATUS_NONE)

/-- What `audio_pipeline_reset_items_state` leaves of the states. -/
theorem resets (items : List ElementItem) (elState : ℕ → ℤ) :
    ∀ item ∈ items, item.linked = true →
      items.foldl (fun elState item =>
        if item.linked then Function.update elState item.el AEL_STATUS_NONE else elState) elState
        item.el = AEL_STATUS_NONE := by
  -- once forgotten, a state stays forgotten
  have hkeeps : ∀ (items : List ElementItem) (elState : ℕ → ℤ) (el : ℕ),
      elState el = AEL_STATUS_NONE → items.foldl (fun elState item =>
        if item.linked then Function.update elState item.el AEL_STATUS_NONE else elState) elState
        el = AEL_STATUS_NONE := by
    intro items
    induction items with
    | nil => exact fun elState el h => h
    | cons item items ih =>
      intro elState el h
      rw [List.foldl_cons]
      apply ih
      split_ifs
      · by_cases hel : el = item.el
        · rw [hel, Function.update_self]
        · rw [Function.update_of_ne hel, h]
      · exact h
  induction items generalizing elState with
  | nil => exact fun item hitem => absurd hitem List.not_mem_nil
  | cons head items ih =>
    intro item hitem hlinked
    rw [List.foldl_cons]
    rcases List.mem_cons.mp hitem with rfl | hitem
    · apply hkeeps
      rw [if_pos hlinked, Function.update_self]
    · exact ih _ item hitem hlinked

theorem remembers_reset (s : ItemStates) :
    s.audioPipelineResetItemsState.Remembers state status [] := by
  intro item hitem hlinked
  have hnone : s.audioPipelineResetItemsState.elState item.el = AEL_STATUS_NONE :=
    resets s.elList.items s.elState item hitem hlinked
  rw [hnone, if_neg List.not_mem_nil]

/-- **A call**: it answers for what was reported so far, and remembers it. -/
theorem Remembers.check (h : s.Remembers state status reported) (hstatus : IsStateStatus status)
    (hel : s.elList.has el = true) :
    ∃ ret elState, s.audioPipelineCheckItemsState state el status =
        some (ret, { s with elState := elState }) ∧ (ret = ESP_OK ∨ ret = ESP_FAIL) ∧
      (ret = ESP_OK ↔ Verdict s.elList state status (· ∈ reported ++ [el])) ∧
      ({ s with elState := elState } : ItemStates).Remembers state status (reported ++ [el]) := by
  -- what the loop sees
  have hseen : ∀ item ∈ s.elList.items, item.linked = true →
      ItemCount.seen state ⟨0, 0, Function.update s.elState el status⟩ item.el =
        rewritten (state item.el)
          (if item.el ∈ reported ++ [el] then status else AEL_STATUS_NONE) := by
    intro item hitem hlinked
    show rewritten (state item.el) (Function.update s.elState el status item.el) = _
    by_cases heq : item.el = el
    · have hmem : item.el ∈ reported ++ [el] := by simp [heq]
      rw [if_pos hmem, heq, Function.update_self]
    · have hmem : item.el ∈ reported ++ [el] ↔ item.el ∈ reported := by simp [heq]
      rw [Function.update_of_ne heq, h item hitem hlinked]
      simp only [hmem]
  obtain ⟨hcnt, hsta, hafter⟩ := countItem_foldl 
    s.elList.items ⟨0, 0, Function.update s.elState el status⟩
  rw [Nat.zero_add] at hcnt hsta
  refine ⟨_, _, if_pos hel, ?_, ?_, fun item hitem hlinked => ?_⟩
  · split_ifs
    · exact Or.inl rfl
    · exact Or.inr rfl
  · rw [ret_eq_ok, hcnt, hsta, countP_all]
    unfold Verdict
    refine and_congr_right fun _ => forall₃_congr fun item hitem hlinked => ?_
    rw [hseen item hitem hlinked, counted_iff hstatus]
  · exact (hafter item.el).trans (hseen item hitem hlinked)

/-- **The calls**, by induction on them. -/
theorem Remembers.checks_spec (h : s.Remembers state status reported)
    (hstatus : IsStateStatus status)
    {els : List ℕ} (hels : ∀ el ∈ els, s.elList.has el = true) :
    ∃ rets, checks state status s els = some rets ∧ rets.length = els.length ∧
      ∀ k < els.length, ∃ ret, rets[k]? = some ret ∧ (ret = ESP_OK ∨ ret = ESP_FAIL) ∧
        (ret = ESP_OK ↔
          Verdict s.elList state status (· ∈ reported ++ els.take (k + 1))) := by
  induction els generalizing s reported with
  | nil => exact ⟨[], rfl, rfl, fun k hk => absurd hk (Nat.not_lt_zero k)⟩
  | cons el els ih =>
    rw [List.forall_mem_cons] at hels
    obtain ⟨ret, elState, hcall, hcode, hverdict, hremembers⟩ := h.check hstatus hels.1
    obtain ⟨rets, hrets, hlen, hall⟩ := ih hremembers hels.2
    refine ⟨ret :: rets, ?_, by rw [List.length_cons, List.length_cons, hlen], fun k hk => ?_⟩
    · rw [checks, hcall, Option.bind_some, hrets]
      rfl
    · cases k with
      | zero => exact ⟨ret, rfl, hcode, hverdict⟩
      | succ k =>
        obtain ⟨ret', hret', hcode', hverdict'⟩ := hall k (by simpa using hk)
        refine ⟨ret', hret', hcode', ?_⟩
        rw [hverdict', List.append_assoc]
        rfl

end ItemStates

/-- The verdict takes the items and the reports as sets. -/
theorem Verdict.congr {l l' : ElList} {state : ℕ → AelState} {status : ℤ} {p p' : ℕ → Prop}
    (hitems : ∀ item, item ∈ l.items ↔ item ∈ l'.items) (hreports : ∀ el, p el ↔ p' el) :
    Verdict l state status p ↔ Verdict l' state status p' := by
  unfold Verdict
  simp only [hitems, hreports]

/-- **Collecting states is exact**: after a reset, with the states of the elements fixed, each call
answers for the set of the elements that were reported so far.  So the last of two sequences of
calls for the same elements, on lists with the same items, has the same answer. -/
theorem checks_exact (s : ItemStates) (state : ℕ → AelState) {status : ℤ}
    (hstatus : IsStateStatus status) (els : List ℕ)
    (hels : ∀ el ∈ els, s.elList.has el = true) :
    ∃ rets, ItemStates.checks state status s.audioPipelineResetItemsState els = some rets ∧
      rets.length = els.length ∧
      (∀ k < els.length, ∃ ret, rets[k]? = some ret ∧ (ret = ESP_OK ∨ ret = ESP_FAIL) ∧
        (ret = ESP_OK ↔ Verdict s.elList state status (· ∈ els.take (k + 1)))) ∧
      ∀ (s' : ItemStates) (els' : List ℕ) (rets' : List ℤ),
        (∀ item, item ∈ s'.elList.items ↔ item ∈ s.elList.items) → (∀ el, el ∈ els' ↔ el ∈ els) →
        ItemStates.checks state status s'.audioPipelineResetItemsState els' = some rets' →
        rets'.getLast? = rets.getLast? := by
  have hspec : ∀ (s : ItemStates) (els : List ℕ), (∀ el ∈ els, s.elList.has el = true) →
      ∃ rets, ItemStates.checks state status s.audioPipelineResetItemsState els = some rets ∧
        rets.length = els.length ∧ ∀ k < els.length, ∃ ret, rets[k]? = some ret ∧
          (ret = ESP_OK ∨ ret = ESP_FAIL) ∧
          (ret = ESP_OK ↔ Verdict s.elList state status (· ∈ els.take (k + 1))) := by
    intro s els hels
    obtain ⟨rets, hrets, hlen, hall⟩ := s.remembers_reset.checks_spec hstatus hels
    refine ⟨rets, hrets, hlen, fun k hk => ?_⟩
    obtain ⟨ret, hret, hcode, hverdict⟩ := hall k hk
    rw [List.nil_append] at hverdict
    exact ⟨ret, hret, hcode, hverdict⟩
  obtain ⟨rets, hrets, hlen, hall⟩ := hspec s els hels
  refine ⟨rets, hrets, hlen, hall, fun s' els' rets' hitems hreports hrets' => ?_⟩
  have hels' : ∀ el ∈ els', s'.elList.has el = true := by
    intro el hel
    have hhas := hels el ((hreports el).mp hel)
    unfold ElList.has at hhas ⊢
    simp only [List.mem_map, hitems, decide_eq_true_eq] at hhas ⊢
    exact hhas
  obtain ⟨rets₂, hrets₂, hlen', hall'⟩ := hspec s' els' hels'
  obtain rfl : rets₂ = rets' := Option.some.inj (hrets₂.symm.trans hrets')
  rcases eq_or_ne els [] with rfl | hne
  · have hnone : els' = [] := List.eq_nil_iff_forall_not_mem.mpr fun el hel =>
      List.not_mem_nil ((hreports el).mp hel)
    subst hnone
    rw [List.eq_nil_of_length_eq_zero hlen, List.eq_nil_of_length_eq_zero hlen']
  · have hne' : els' ≠ [] := by
      rintro rfl
      obtain ⟨el, hel⟩ := List.exists_mem_of_ne_nil els hne
      exact List.not_mem_nil ((hreports el).mpr hel)
    have hpos := List.length_pos_iff.mpr hne
    have hpos' := List.length_pos_iff.mpr hne'
    obtain ⟨ret, hret, hcode, hverdict⟩ := hall (els.length - 1) (by omega)
    obtain ⟨ret', hret', hcode', hverdict'⟩ := hall' (els'.length - 1) (by omega)
    rw [Nat.sub_add_cancel hpos, List.take_length] at hverdict
    rw [Nat.sub_add_cancel hpos', List.take_length, Verdict.congr hitems hreports,
      ← hverdict] at hverdict'
    rw [List.getLast?_eq_getElem?, List.getLast?_eq_getElem?, hlen, hlen', hret, hret']
    -- two codes that are `ESP_OK` together
    rcases hcode with rfl | rfl <;> rcases hcode' with rfl | rfl
    · rfl
    · exact absurd (hverdict'.mpr rfl) (by decide)
    · exact absurd (hverdict'.mp rfl) (by decide)
    · rfl

/-- Three linked elements, one of them finished; the other two report that they are paused. -/
theorem checks_exact_paused :
    ∃ rets, ItemStates.checks (fun el => if el = 2 then .finished else .paused)
        AEL_STATUS_STATE_PAUSED (ItemStates.audioPipelineResetItemsState
          ⟨⟨[⟨1, true, false⟩, ⟨2, true, false⟩, ⟨3, true, false⟩], by decide⟩, fun _ => 0⟩)
        [3, 3, 1] = some rets ∧ rets[2]? = some ESP_OK := by
  obtain ⟨rets, hrets, -, hall, -⟩ := checks_exact
    ⟨⟨[⟨1, true, false⟩, ⟨2, true, false⟩, ⟨3, true, false⟩], by decide⟩, fun _ => 0⟩
    (fun el => if el = 2 then .finished else .paused) (Or.inr (Or.inl rfl)) [3, 3, 1] (by decide)
  obtain ⟨ret, hret, -, hverdict⟩ := hall 2 (by decide)
  refine ⟨rets, hrets, ?_⟩
  rw [hret, hverdict.mpr]
  refine ⟨⟨⟨1, true, false⟩, by decide, rfl⟩, ?_⟩
  simp [Arrived]

end AudioPipeline
