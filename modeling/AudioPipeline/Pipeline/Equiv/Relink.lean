import AudioPipeline.Pipeline.Equiv.AllOrNothing
import AudioPipeline.Pipeline.Equiv.Reuse

/-!
## Relinking after breaking up

`audio_pipeline_breakup_elements` leaves the ring buffers of a pipeline where they are, kept or
free, and `audio_pipeline_relink` builds the next chain from them.

* `relink_rebuilds`: after any number of rounds of the two, relinking different elements chains
  them; the elements that were kept still have their ring buffers, as they were, and the ring
  buffers that others are given have been reset.
* `relink_confuses`: this is about elements, not tags, and about one pipeline from its first linking
  on.
-/

namespace AudioPipeline

namespace Links

variable {s s' t : Links} {κ : Type*} {find : Links → κ → Option ElementItem}

/-! ### One element is given a ring buffer -/

/-- The elements `todo` are still to be linked: none of them is the name of a ring buffer that is in
use and not kept. -/
structure Ready (s : Links) (todo : List ℕ) : Prop extends Tied s where
  free : ∀ ring ∈ s.rbList, ring.linked = true → ring.keptCtx = false →
    ∀ e ∈ todo, ring.hostEl ≠ some e

theorem Tied.ready (h : Tied s) (hb : Broken s) (todo : List ℕ) : Ready s todo where
  toTied := h
  free ring hr hl hk := by
    rcases hb ring hr with h | h
    · rw [hk] at h
      exact absurd h (by decide)
    · rw [hl] at h
      exact absurd h (by decide)

/-- No ring buffer that is in use or kept has the name of an element that is not kept. -/
theorem Ready.idle {item : ElementItem} {todo : List ℕ} (h : Ready s (item.el :: todo))
    (hi : item ∈ s.elList.items) (hkept : item.keptCtx = false) :
    ∀ ring ∈ s.rbList, ring.Busy → ring.hostEl ≠ some item.el := by
  intro ring hr hbusy hhost
  cases hk : ring.keptCtx with
  | true =>
    obtain ⟨item', hi', hk', hhost', -⟩ := h.keptRb ring hr hk
    rw [hhost] at hhost'
    have heq : item = item' := ElList.eq_of_el hi hi' (Option.some.inj hhost')
    rw [← heq, hkept] at hk'
    exact absurd hk' (by decide)
  | false =>
    have hl : ring.linked = true := by
      rcases hbusy with hl | hk'
      · exact hl
      · rw [hk] at hk'
        exact absurd hk' (by decide)
    exact h.free ring hr hl hk item.el (by simp) hhost

/-- The item has been given the ring buffer `cur`, if there was one: its own, if it was kept, or
else a free one, which was reset, or a new one. -/
structure Taken (s : Links) (item : ElementItem) (cur : Option ℕ) (s' : Links) : Prop where
  output : ∀ e, (s'.els e).output = (s.els e).output
  elList : s'.elList = s.elList.setFlags item.el (fun _ => true) fun _ => false
  destroyed : s'.destroyed = s.destroyed
  assigns : Assigns item.el s.rbList cur s'.rbList
  grows : s'.ringbufs = s.ringbufs ∧ s'.nextRb = s.nextRb ∨
    cur = some s.nextRb ∧ s'.ringbufs = s.ringbufs ++ [s.nextRb] ∧ s'.nextRb = s.nextRb + 1
  rings : ∀ r ∈ s.ringbufs, cur ≠ some r → s'.rings r = s.rings r
  kept : item.keptCtx = true →
    ∃ r, cur = some r ∧ (s.els item.el).output = .rb (some r) ∧ s'.rings r = s.rings r
  free : item.keptCtx = false → ∀ r ∈ s.ringbufs, cur = some r →
    s'.rings r = rbReset (s.rings r)

theorem Taken.mem {item : ElementItem} {cur : Option ℕ} (h : Taken s item cur s') {r : ℕ}
    (hr : r ∈ s.ringbufs) : r ∈ s'.ringbufs := by
  rcases h.grows with ⟨heq, -⟩ | ⟨-, heq, -⟩
  · rwa [heq]
  · rw [heq]
    exact List.mem_append_left _ hr

/-- The item of the element afterwards. -/
theorem Taken.item {item : ElementItem} {cur : Option ℕ} (h : Taken s item cur s')
    (hi : item ∈ s.elList.items) : (⟨item.el, true, false⟩ : ElementItem) ∈ s'.elList.items := by
  rw [h.elList]
  exact (@ElList.mem_setFlags_self _ (fun _ => true) (fun _ => false) item hi
    ⟨item.el, true, false⟩ rfl).mpr rfl

/-- An element that is not kept does not write to a ring buffer of the list. -/
theorem Ready.output_not_mem {item : ElementItem} {todo : List ℕ} (h : Ready s (item.el :: todo))
    (hi : item ∈ s.elList.items) (hkept : item.keptCtx = false) {r : ℕ}
    (ho : (s.els item.el).output = .rb (some r)) : r ∉ s.ringbufs := by
  intro hr
  obtain ⟨⟨ring, hring, -, hbusy⟩, -⟩ := h.out item.el r ho hr
  exact h.idle hi hkept ring (hostItem_mem hring) hbusy (hostItem_host hring)

/-- The element is attached to the ring buffer it was given, or keeps the output it had. -/
theorem Taken.ready {item : ElementItem} {cur : Option ℕ} {todo : List ℕ} (ht : Taken s item cur t)
    (h : Ready s (item.el :: todo)) (hi : item ∈ s.elList.items) (hnot : item.el ∉ todo)
    (hlist : s'.elList = t.elList) (hrb : s'.rbList = t.rbList) (hn : s'.nextRb = t.nextRb)
    (hd : s'.destroyed = t.destroyed)
    (hout : ∀ e, e ≠ item.el → (s'.els e).output = (s.els e).output)
    (hmine : (s'.els item.el).output = (s.els item.el).output ∨
      ∃ r, cur = some r ∧ (s'.els item.el).output = .rb (some r)) : Ready s' todo := by
  have hrings : s'.ringbufs = t.ringbufs := by rw [ringbufs, hrb, ringbufs]
  have hnew : s.nextRb ∉ s.ringbufs := fun hm => Nat.lt_irrefl _ (h.live _ hm).1
  have hnodup : t.ringbufs.Nodup := by
    rcases ht.grows with ⟨heq, -⟩ | ⟨-, heq, -⟩
    · rw [heq]
      exact h.nodup
    · rw [heq]
      exact h.nodup.append (List.nodup_singleton _) (by simpa using hnew)
  have hle : s.nextRb ≤ t.nextRb := by
    rcases ht.grows with ⟨-, heq⟩ | ⟨-, -, heq⟩
    · exact heq.ge
    · exact heq ▸ Nat.le_succ _
  have hlive : ∀ r ∈ t.ringbufs, r < t.nextRb ∧ r ∉ s.destroyed := by
    intro r hr
    rcases ht.grows with ⟨heq, hn'⟩ | ⟨-, heq, hn'⟩
    · rw [heq] at hr
      rw [hn']
      exact h.live r hr
    · rw [heq] at hr
      rcases List.mem_append.mp hr with hr | hr
      · exact ⟨Nat.lt_of_lt_of_le (h.live r hr).1 hle, (h.live r hr).2⟩
      · rw [List.mem_singleton.mp hr, hn']
        exact ⟨Nat.lt_succ_self _, fun hm => Nat.lt_irrefl _ (h.created _ hm)⟩
  -- a ring buffer that somebody wrote to before was in the list before
  have hold : ∀ e r, (s.els e).output = .rb (some r) → r ∈ t.ringbufs → r ∈ s.ringbufs := by
    intro e r ho hr
    rcases ht.grows with ⟨heq, -⟩ | ⟨-, heq, -⟩
    · rwa [heq] at hr
    · rw [heq] at hr
      rcases List.mem_append.mp hr with hr | hr
      · exact hr
      · rw [List.mem_singleton.mp hr] at ho
        exact absurd (h.held e _ ho) (Nat.lt_irrefl _)
  have hcur : ∀ r, cur = some r →
      hostItem item.el s'.rbList = some ⟨r, some item.el, true, false⟩ := by
    rintro r rfl
    rw [hrb]
    exact ht.assigns.mine
  -- the output of the element is what it was given
  have hgiven : ∀ r, (s'.els item.el).output = .rb (some r) → r ∈ t.ringbufs → cur = some r := by
    intro r ho hr
    rcases hmine with hsame | ⟨r', hr', ho'⟩
    · rw [hsame] at ho
      cases hk : item.keptCtx with
      | true =>
        obtain ⟨r', hr', ho', -⟩ := ht.kept hk
        rw [ho] at ho'
        obtain rfl : r = r' := by simpa using ho'
        exact hr'
      | false => exact absurd (hold item.el r ho hr) (h.output_not_mem hi hk ho)
    · rw [ho] at ho'
      obtain rfl : r = r' := by simpa using ho'
      exact hr'
  have hself : (⟨item.el, true, false⟩ : ElementItem) ∈ s'.elList.items := by
    rw [hlist]
    exact ht.item hi
  have hkeep : ∀ item' ∈ s.elList.items, item'.el ≠ item.el → item' ∈ s'.elList.items := by
    intro item' hi' he
    rw [hlist, ht.elList, ElList.mem_setFlags_ne he]
    exact hi'
  have hkept : ∀ item' ∈ s'.elList.items, item'.keptCtx = true →
      item'.el ≠ item.el ∧ item' ∈ s.elList.items := by
    intro item' hi' hk
    rw [hlist, ht.elList] at hi'
    by_cases he : item'.el = item.el
    · rw [ElList.mem_setFlags_self hi he] at hi'
      rw [hi'] at hk
      exact absurd hk (by simp)
    · rw [ElList.mem_setFlags_ne he] at hi'
      exact ⟨he, hi'⟩
  have hfind : ∀ e ring, e ≠ item.el → hostItem e s.rbList = some ring → ring.Busy →
      hostItem e s'.rbList = some ring := by
    intro e ring he hr hbusy
    rw [hrb]
    exact ht.assigns.others e ring he hr hbusy
  refine ⟨⟨by rw [hrings]; exact hnodup, ?_, ?_, ?_, ?_, ?_, ?_, ?_⟩, ?_⟩
  · intro r hr
    rw [hrings] at hr
    rw [Live, hn, hd, ht.destroyed]
    exact hlive r hr
  · intro r hr
    rw [hd, ht.destroyed] at hr
    rw [hn]
    exact Nat.lt_of_lt_of_le (h.created r hr) hle
  · intro e r ho
    rw [hn]
    by_cases he : e = item.el
    · subst he
      rcases hmine with hsame | ⟨r', hr', ho'⟩
      · rw [hsame] at ho
        exact Nat.lt_of_lt_of_le (h.held _ r ho) hle
      · rw [ho] at ho'
        obtain rfl : r = r' := by simpa using ho'
        have hmem := List.mem_map_of_mem (f := RingbufItem.rb) (hostItem_mem (hcur r hr'))
        rw [hrb] at hmem
        exact (hlive r hmem).1
    · rw [hout e he] at ho
      exact Nat.lt_of_lt_of_le (h.held e r ho) hle
  · intro item' hi' hl
    by_contra hk
    rw [Bool.not_eq_false] at hk
    obtain ⟨he, hi'⟩ := hkept item' hi' hk
    rw [h.excl item' hi' hl] at hk
    exact absurd hk (by decide)
  · intro e r ho hr
    rw [hrings] at hr
    by_cases he : e = item.el
    · subst he
      exact ⟨⟨_, hcur r (hgiven r ho hr), rfl, Or.inl rfl⟩, _, hself, rfl, Or.inl rfl⟩
    · rw [hout e he] at ho
      obtain ⟨⟨ring, hring, hrbr, hbusy⟩, item', hi', hel, hflag⟩ := h.out e r ho (hold e r ho hr)
      exact ⟨⟨ring, hfind e ring he hring hbusy, hrbr, hbusy⟩, item',
        hkeep item' hi' (by rw [hel]; exact he), hel, hflag⟩
  · intro item' hi' hk
    obtain ⟨he, hi'⟩ := hkept item' hi' hk
    obtain ⟨ring, hring, hk', ho⟩ := h.keptEl item' hi' hk
    exact ⟨ring, hfind _ ring he hring (Or.inr hk'), hk', by rw [hout _ he]; exact ho⟩
  · intro ring hr hk
    have hr' : ring ∈ t.rbList := hrb ▸ hr
    rcases ht.assigns.mem ring hr' (Or.inr hk) with hin | ⟨-, -, hk'⟩
    · obtain ⟨item', hi', hk', hhost, ho⟩ := h.keptRb ring hin hk
      have he : item'.el ≠ item.el := by
        intro he
        -- the ring buffer kept for the element is marked as in use now
        obtain rfl : item' = item := ElList.eq_of_el hi' hi he
        obtain ⟨r, hr₁, ho₁, -⟩ := ht.kept hk'
        rw [ho] at ho₁
        obtain rfl : ring.rb = r := by simpa using ho₁
        have hnow := hostItem_mem (hcur ring.rb hr₁)
        rw [hrb] at hnow
        rw [List.inj_on_of_nodup_map hnodup hr' hnow rfl] at hk
        exact absurd hk (by simp)
      exact ⟨item', hkeep item' hi' he, hk', hhost, by rw [hout _ he]; exact ho⟩
    · rw [hk] at hk'
      exact absurd hk' (by decide)
  · intro ring hr hl hk e he
    rw [hrb] at hr
    rcases ht.assigns.mem ring hr (Or.inl hl) with hin | ⟨-, hhost, -⟩
    · exact h.free ring hin hl hk e (List.mem_cons_of_mem _ he)
    · rw [hhost]
      rintro heq
      obtain rfl := Option.some.inj heq
      exact hnot he

theorem setFlags_linked_kept (l : ElList) (el : ℕ) :
    (l.setFlags el (fun _ => true) id).setFlags el id (fun _ => false) =
      l.setFlags el (fun _ => true) fun _ => false := by
  ext1
  simp only [ElList.setFlags, List.map_map]
  refine List.map_congr_left fun item _ => ?_
  rw [Function.comp_apply]
  by_cases he : item.el = el
  · simp [he]
  · simp [he]

theorem setFlags_linked_of_not_kept {l : ElList} {item : ElementItem} (hi : item ∈ l.items)
    (hkept : item.keptCtx = false) :
    l.setFlags item.el (fun _ => true) id = l.setFlags item.el (fun _ => true) fun _ => false := by
  refine l.setFlags_congr item.el fun i hmem he => ⟨rfl, ?_⟩
  rw [ElList.eq_of_el hmem hi he, hkept]
  rfl

/-- The ring buffer kept for an element is found under its name. -/
theorem takeRing_taken_kept {item : ElementItem} {todo : List ℕ} (h : Ready s (item.el :: todo))
    (hi : item ∈ s.elList.items) (hkept : item.keptCtx = true) (last : Bool) :
    Taken s item
      ((s.setFlags item.el (fun _ => true) id).takeRing item.el item.keptCtx last).1
      ((s.setFlags item.el (fun _ => true) id).takeRing item.el item.keptCtx last).2 := by
  obtain ⟨ring, hring, -, ho⟩ := h.keptEl item hi hkept
  obtain ⟨hfound, hassigns⟩ := takeKept_assigns hring
  have htake : (s.setFlags item.el (fun _ => true) id).takeRing item.el item.keptCtx last =
      (some ring.rb, ({ s.setFlags item.el (fun _ => true) id with
        rbList := (takeKept item.el s.rbList).2 } : Links).setFlags item.el id fun _ => false) := by
    have hreuse : (s.setFlags item.el (fun _ => true) id).reuseRing item.el item.keptCtx =
        (some ring.rb, ({ s.setFlags item.el (fun _ => true) id with
          rbList := (takeKept item.el s.rbList).2 } : Links).setFlags item.el id fun _ => false) := by
      have hlist : (s.setFlags item.el (fun _ => true) id).rbList = s.rbList := rfl
      rw [reuseRing, if_pos hkept, hlist]
      rcases htake : takeKept item.el s.rbList with ⟨cur, rbList⟩
      rw [htake] at hfound
      subst hfound
      rfl
    rw [takeRing, hreuse, if_neg (by simp)]
  rw [htake]
  have hrb := (takeKept_rb item.el s.rbList).1
  refine ⟨fun _ => rfl, setFlags_linked_kept _ _, rfl, hassigns, Or.inl ⟨hrb, rfl⟩, fun _ _ _ => rfl,
    fun _ => ⟨ring.rb, rfl, ho, rfl⟩, fun hk => ?_⟩
  rw [hkept] at hk
  exact absurd hk (by decide)

/-- An element that is not kept is given a free ring buffer, or a new one. -/
theorem takeRing_taken_free {item : ElementItem} {todo : List ℕ} (h : Ready s (item.el :: todo))
    (hi : item ∈ s.elList.items) (hkept : item.keptCtx = false) (last : Bool) :
    Taken s item
      ((s.setFlags item.el (fun _ => true) id).takeRing item.el item.keptCtx last).1
      ((s.setFlags item.el (fun _ => true) id).takeRing item.el item.keptCtx last).2 := by
  have hassigns := takeFree_assigns (h.idle hi hkept)
  obtain ⟨hrb, hmem⟩ := takeFree_rb item.el s.rbList
  have hlist := setFlags_linked_of_not_kept hi hkept
  have hnot : item.keptCtx ≠ true := by simp [hkept]
  have hlist' : (s.setFlags item.el (fun _ => true) id).rbList = s.rbList := rfl
  rcases htake : takeFree item.el s.rbList with ⟨_ | rb, rbList⟩
  · -- nothing is free
    rw [htake] at hassigns hrb
    have hreuse' : (s.setFlags item.el (fun _ => true) id).reuseRing item.el item.keptCtx =
        (none, { s.setFlags item.el (fun _ => true) id with rbList := rbList }) := by
      rw [reuseRing, if_neg hnot, hlist', htake]
    have hnone : Taken s item none { s.setFlags item.el (fun _ => true) id with rbList := rbList } :=
      ⟨fun _ => rfl, hlist, rfl, hassigns, Or.inl ⟨hrb, rfl⟩, fun _ _ _ => rfl,
        fun hk => absurd hk hnot, fun _ _ _ hc => absurd hc (by simp)⟩
    rw [takeRing, hreuse']
    split_ifs with hlast
    · rcases createRing_cases { s.setFlags item.el (fun _ => true) id with rbList := rbList } item.el
        with ⟨memory, hc⟩ | ⟨memory, hc⟩
      · rw [hc]
        -- no memory for a new one either: the element stays without an output
        exact ⟨hnone.output, hnone.elList, rfl, hassigns, hnone.grows, fun _ _ _ => rfl,
          fun hk => absurd hk hnot, fun _ _ _ hc => absurd hc (by simp)⟩
      · rw [hc]
        -- the new ring buffer is appended, and no ring of the list had its number
        have hnew := hassigns.trans (append_assigns hassigns.mine s.nextRb)
        have hne : ∀ r ∈ s.ringbufs, r ≠ s.nextRb :=
          fun r hr heq => Nat.lt_irrefl _ (heq ▸ (h.live r hr).1)
        refine ⟨fun _ => rfl, hlist, rfl, hnew, Or.inr ⟨rfl, ?_, rfl⟩,
          fun r hr _ => Function.update_of_ne (hne r hr) _ _, fun hk => absurd hk hnot,
          fun _ r hr hc => absurd (Option.some.inj hc).symm (hne r hr)⟩
        show (rbList ++ [(⟨s.nextRb, some item.el, true, false⟩ : RingbufItem)]).map
          RingbufItem.rb = _
        rw [List.map_append, hrb]
        rfl
    · exact hnone
  · -- a free one, which is reset
    rw [htake] at hassigns hrb
    have hreuse' : (s.setFlags item.el (fun _ => true) id).reuseRing item.el item.keptCtx =
        (some rb, { s.setFlags item.el (fun _ => true) id with
          rbList := rbList, rings := Function.update s.rings rb (rbReset (s.rings rb)) }) := by
      rw [reuseRing, if_neg hnot, hlist', htake]
      rfl
    rw [takeRing, hreuse', if_neg (by simp)]
    refine ⟨fun _ => rfl, hlist, rfl, hassigns, Or.inl ⟨hrb, rfl⟩, fun r _ hne => ?_,
      fun hk => absurd hk hnot, fun _ r _ hc => ?_⟩
    · exact Function.update_of_ne (fun heq => hne (by rw [heq])) _ _
    · obtain rfl := Option.some.inj hc
      exact Function.update_self _ _ _

theorem takeRing_taken {item : ElementItem} {todo : List ℕ} (h : Ready s (item.el :: todo))
    (hi : item ∈ s.elList.items) (last : Bool) :
    Taken s item
      ((s.setFlags item.el (fun _ => true) id).takeRing item.el item.keptCtx last).1
      ((s.setFlags item.el (fun _ => true) id).takeRing item.el item.keptCtx last).2 := by
  cases hk : item.keptCtx with
  | true => simpa only [hk] using takeRing_taken_kept h hi hk last
  | false => simpa only [hk] using takeRing_taken_free h hi hk last

/-! ### One element is linked -/

/-- Attaching writes the element and the static variable. -/
theorem attachRing_same (t : Links) (el : ℕ) (cur : Option ℕ) (first last : Bool) :
    (t.attachRing el cur first last).2.rings = t.rings ∧
      (t.attachRing el cur first last).2.rbList = t.rbList ∧
      (t.attachRing el cur first last).2.nextRb = t.nextRb ∧
      (t.attachRing el cur first last).2.destroyed = t.destroyed := by
  unfold attachRing
  cases last with
  | true => exact ⟨rfl, rfl, rfl, rfl⟩
  | false =>
    rw [if_neg (by decide)]
    cases cur with
    | none => exact ⟨rfl, rfl, rfl, rfl⟩
    | some rb => cases first <;> exact ⟨rfl, rfl, rfl, rfl⟩

@[simp] theorem setOutput_output_self (s : Links) (el rb : ℕ) :
    ((s.audioElementSetOutputRingbuf el (some rb)).els el).output = .rb (some rb) := by
  simp [audioElementSetOutputRingbuf, setEl]

/-- The output of the element is what it was, or the ring buffer at hand. -/
theorem attachRing_output (t : Links) (el : ℕ) (cur : Option ℕ) (first last : Bool) :
    ((t.attachRing el cur first last).2.els el).output = (t.els el).output ∨
      ∃ r, cur = some r ∧ ((t.attachRing el cur first last).2.els el).output = .rb (some r) := by
  unfold attachRing
  cases last with
  | true =>
    left
    rw [if_pos rfl, setInput_output]
  | false =>
    rw [if_neg (by decide)]
    cases cur with
    | none => exact Or.inl rfl
    | some rb => exact Or.inr ⟨rb, rfl, setOutput_output_self _ el rb⟩

/-- An element that is not the last one is attached to the ring buffer it was given. -/
theorem attachRing_some (t : Links) (el rb : ℕ) (first : Bool) :
    ((t.attachRing el (some rb) first false).2.els el).output = .rb (some rb) ∧
      (t.attachRing el (some rb) first false).2.itemRb = some rb :=
  ⟨setOutput_output_self _ el rb, rfl⟩

/-- Every element but the first reads from the ring buffer before it. -/
theorem attachRing_input (t : Links) (el : ℕ) {cur : Option ℕ} {r : ℕ} {last : Bool}
    (hr : t.itemRb = some r) (hc : last = true ∨ cur ≠ none) :
    ((t.attachRing el cur false last).2.els el).input = .rb (some r) := by
  unfold attachRing
  cases last with
  | true => simp [audioElementSetInputRingbuf, setEl, hr]
  | false =>
    obtain ⟨rb, rfl⟩ : ∃ rb, cur = some rb := by
      rcases hc with hc | hc
      · exact absurd hc (by decide)
      · exact Option.ne_none_iff_exists'.mp hc
    simp [audioElementSetInputRingbuf, audioElementSetOutputRingbuf, setEl, hr]

/-- The helper fails for want of a ring buffer. -/
theorem attachRing_ok {el : ℕ} {cur : Option ℕ} {first : Bool}
    (h : (t.attachRing el cur first false).1 = ESP_OK) : ∃ r, cur = some r := by
  cases cur with
  | none =>
    have hne : ESP_ERR_NO_MEM ≠ ESP_OK := by decide
    exact absurd h hne
  | some r => exact ⟨r, rfl⟩

/-- One round of the loop of `audio_pipeline_relink`. -/
def relinkOne (s : Links) (item : ElementItem) (first last : Bool) : Links :=
  ((s.setFlags item.el (fun _ => true) id).elItemLink item.el item.keptCtx first last).2

theorem relinkOne_els (s : Links) (item : ElementItem) (first last : Bool) {e : ℕ}
    (he : e ≠ item.el) : (s.relinkOne item first last).els e = s.els e := by
  obtain ⟨⟨input, output, hels, -⟩, -⟩ := elItemLink_els (s.setFlags item.el (fun _ => true) id)
    item.el item.keptCtx first last
  rw [relinkOne, hels, Function.update_of_ne he]
  rfl

theorem takeRing_output (s : Links) (item : ElementItem) (last : Bool) :
    ((s.setFlags item.el (fun _ => true) id).takeRing item.el item.keptCtx last).2.els = s.els :=
  (takeRing_els (s.setFlags item.el (fun _ => true) id) item.el item.keptCtx last).1

theorem relinkOne_ready {item : ElementItem} {todo : List ℕ} (h : Ready s (item.el :: todo))
    (hi : item ∈ s.elList.items) (hnot : item.el ∉ todo) (first last : Bool) :
    Ready (s.relinkOne item first last) todo := by
  have ht := takeRing_taken h hi last
  have hels := takeRing_output s item last
  unfold relinkOne elItemLink
  generalize (s.setFlags item.el (fun _ => true) id).takeRing item.el item.keptCtx last = r
    at ht hels ⊢
  obtain ⟨-, hrb, hn, hd⟩ := attachRing_same r.2 item.el r.1 first last
  obtain ⟨⟨input, output, hupd, -⟩, hlist⟩ := attachRing_els r.2 item.el r.1 first last
  refine ht.ready h hi hnot hlist hrb hn hd (fun e he => ?_) ?_
  · rw [hupd, Function.update_of_ne he, hels]
  · have hout := attachRing_output r.2 item.el r.1 first last
    rwa [hels] at hout

/-! ### The loop -/

/-- The elements that the list names, as far as it is looked up. -/
def named (find : Links → κ → Option ElementItem) (s : Links) (ks : List κ) : List ℕ :=
  ks.filterMap fun k => (find s k).map ElementItem.el

theorem named_same (hf : Lookup find) (h : SameNames s s') (ks : List κ) :
    named find s' ks = named find s ks := by
  unfold named
  congr 1
  funext k
  exact hf.names h k

theorem Names.named {ks : List κ} {es : List ℕ} (h : Names find s ks es) :
    named find s ks = es := by
  induction h with
  | nil => rfl
  | cons hk _ ih =>
    rw [Links.named, List.filterMap_cons, hk]
    exact congrArg _ ih

/-- Relinking different elements keeps the names of the ring buffers in order, whether it succeeds
or not. -/
theorem relinkLoop_tied (hf : Lookup find) {isFirst : ℕ → Bool} {ks : List κ} {i : ℕ}
    (h : Ready s (named find s ks)) (hd : (named find s ks).Nodup) :
    Tied (relinkLoop find isFirst s i ks).2 := by
  induction ks generalizing s i with
  | nil => exact h.toTied.of_eq (fun _ => rfl) rfl rfl rfl rfl
  | cons k ks ih =>
    rw [relinkLoop]
    cases hk : find s k with
    | none => exact h.toTied
    | some item =>
      have hcons : named find s (k :: ks) = item.el :: named find s ks := by
        rw [named, List.filterMap_cons, hk]
        rfl
      rw [hcons] at h hd
      obtain ⟨hnot, hd⟩ := List.nodup_cons.mp hd
      have hready := relinkOne_ready h (hf.mem hk) hnot (isFirst i) ks.isEmpty
      have hnames : SameNames s (s.relinkOne item (isFirst i) ks.isEmpty) :=
        sameNames_relinkOne s item.el item.keptCtx (isFirst i) ks.isEmpty
      rw [← named_same hf hnames ks] at hready hd
      exact ih hready hd

/-- `s'` is `s` with the elements chained: each but the last writes to a ring buffer of the list,
which the next one reads.  The kept elements have kept theirs, as it was; a ring buffer of the list
that another element is given has been reset. -/
structure Rebuilt (s s' : Links) (es : List ℕ) : Prop where
  chain : ∀ i e e', es[i]? = some e → es[i + 1]? = some e' →
    ∃ r, (s'.els e).output = .rb (some r) ∧ (s'.els e').input = .rb (some r) ∧
      r ∈ s'.ringbufs ∧ s'.Live r
  distinct : ∀ e ∈ es.dropLast, ∀ e' ∈ es.dropLast,
    (s'.els e).output = (s'.els e').output → e = e'
  kept : ∀ item ∈ s.elList.items, item.el ∈ es.dropLast → item.keptCtx = true →
    ∃ r, (s.els item.el).output = .rb (some r) ∧
      (∃ ring ∈ s.rbList, ring.rb = r ∧ ring.keptCtx = true) ∧
      (s'.els item.el).output = .rb (some r) ∧ s'.rings r = s.rings r
  reset : ∀ item ∈ s.elList.items, item.el ∈ es.dropLast → item.keptCtx = false →
    ∀ r ∈ s.ringbufs, (s'.els item.el).output = .rb (some r) → s'.rings r = rbReset (s.rings r)

/-- Two elements that write to the same ring buffer of the list are the same. -/
theorem Tied.output_inj (h : Tied s) {e e' r : ℕ} (he : (s.els e).output = .rb (some r))
    (he' : (s.els e').output = .rb (some r)) (hr : r ∈ s.ringbufs) : e = e' := by
  obtain ⟨⟨ring, hring, hrb, -⟩, -⟩ := h.out e r he hr
  obtain ⟨⟨ring', hring', hrb', -⟩, -⟩ := h.out e' r he' hr
  have heq := h.ring_eq (hostItem_mem hring) (hostItem_mem hring') (hrb.trans hrb'.symm)
  have hhost := hostItem_host hring
  rw [heq, hostItem_host hring'] at hhost
  exact (Option.some.inj hhost).symm

/-- What the loop has done at its end. -/
structure Relinked (s s' : Links) (first : Bool) (es : List ℕ) : Prop extends Rebuilt s s' es where
  tied : Tied s'
  mem : ∀ r ∈ s.ringbufs, r ∈ s'.ringbufs
  head : ∀ e r, es.head? = some e → first = false → s.itemRb = some r →
    (s'.els e).input = .rb (some r)
  frame : ∀ e, e ∉ es → s'.els e = s.els e
  spare : ∀ e ring, e ∉ es → hostItem e s.rbList = some ring → ring.Busy →
    s'.rings ring.rb = s.rings ring.rb

theorem takeRing_itemRb (s : Links) (el : ℕ) (keptCtx last : Bool) :
    (s.takeRing el keptCtx last).2.itemRb = s.itemRb := by
  have hreuse : (s.reuseRing el keptCtx).2.itemRb = s.itemRb := by
    unfold reuseRing
    split_ifs <;> split <;> rfl
  unfold takeRing
  split_ifs
  · rcases createRing_cases (s.reuseRing el keptCtx).2 el with ⟨memory, hc⟩ | ⟨memory, hc⟩ <;>
      rw [hc] <;> exact hreuse
  · exact hreuse

section One

variable {item : ElementItem} {todo : List ℕ}

theorem relinkOne_mem (h : Ready s (item.el :: todo)) (hi : item ∈ s.elList.items)
    (first last : Bool) {r : ℕ} (hr : r ∈ s.ringbufs) :
    r ∈ (s.relinkOne item first last).ringbufs := by
  have hmem := (takeRing_taken h hi last).mem hr
  obtain ⟨-, hrb, -, -⟩ := attachRing_same
    ((s.setFlags item.el (fun _ => true) id).takeRing item.el item.keptCtx last).2 item.el
    ((s.setFlags item.el (fun _ => true) id).takeRing item.el item.keptCtx last).1 first last
  rwa [relinkOne, elItemLink, ringbufs, hrb]

/-- A ring buffer under the name of another element stays there, and as it is. -/
theorem relinkOne_spare (h : Ready s (item.el :: todo)) (hi : item ∈ s.elList.items)
    (hnot : item.el ∉ todo) (first last : Bool) {e : ℕ} {ring : RingbufItem} (he : e ≠ item.el)
    (hring : hostItem e s.rbList = some ring) (hbusy : ring.Busy) :
    hostItem e (s.relinkOne item first last).rbList = some ring ∧
      (s.relinkOne item first last).rings ring.rb = s.rings ring.rb := by
  have hready := relinkOne_ready h hi hnot first last
  have ht := takeRing_taken h hi last
  obtain ⟨hrings, hrb, -, -⟩ := attachRing_same
    ((s.setFlags item.el (fun _ => true) id).takeRing item.el item.keptCtx last).2 item.el
    ((s.setFlags item.el (fun _ => true) id).takeRing item.el item.keptCtx last).1 first last
  have hthere : hostItem e (s.relinkOne item first last).rbList = some ring := by
    rw [relinkOne, elItemLink, hrb]
    exact ht.assigns.others e ring he hring hbusy
  refine ⟨hthere, ?_⟩
  rw [relinkOne, elItemLink, hrings]
  refine ht.rings ring.rb (List.mem_map_of_mem (hostItem_mem hring)) fun hcur => ?_
  -- the ring buffer that was given out has another name
  have hmine : hostItem item.el (s.relinkOne item first last).rbList =
      some ⟨ring.rb, some item.el, true, false⟩ := by
    rw [relinkOne, elItemLink, hrb, ht.assigns.mine, hcur]
    rfl
  have heq := hready.ring_eq (hostItem_mem hthere) (hostItem_mem hmine) rfl
  have hhost := hostItem_host hthere
  rw [heq] at hhost
  exact he (Option.some.inj hhost).symm

theorem relinkOne_input {r : ℕ} {last : Bool} (hr : s.itemRb = some r)
    (hc : last = true ∨
      ((s.setFlags item.el (fun _ => true) id).takeRing item.el item.keptCtx last).1 ≠ none) :
    ((s.relinkOne item false last).els item.el).input = .rb (some r) := by
  refine attachRing_input _ item.el ?_ hc
  rw [takeRing_itemRb]
  exact hr

/-- What an element that is not the last one has got: it writes to that ring buffer, which is the
first one under its name. -/
theorem relinkOne_some (h : Ready s (item.el :: todo)) (hi : item ∈ s.elList.items) (first : Bool)
    {r : ℕ} (hcur : ((s.setFlags item.el (fun _ => true) id).takeRing item.el item.keptCtx
      false).1 = some r) :
    ((s.relinkOne item first false).els item.el).output = .rb (some r) ∧
      (s.relinkOne item first false).itemRb = some r ∧
      hostItem item.el (s.relinkOne item first false).rbList =
        some ⟨r, some item.el, true, false⟩ := by
  have ht := takeRing_taken h hi false
  obtain ⟨hout, hitem⟩ := attachRing_some
    ((s.setFlags item.el (fun _ => true) id).takeRing item.el item.keptCtx false).2 item.el r first
  obtain ⟨-, hrb, -, -⟩ := attachRing_same
    ((s.setFlags item.el (fun _ => true) id).takeRing item.el item.keptCtx false).2 item.el
    (some r) first false
  rw [relinkOne, elItemLink, hcur]
  refine ⟨hout, hitem, ?_⟩
  rw [hrb, ht.assigns.mine, hcur]
  rfl

theorem relinkOne_items (h : Ready s (item.el :: todo)) (hi : item ∈ s.elList.items)
    (first last : Bool) {item' : ElementItem} (hi' : item' ∈ s.elList.items)
    (he : item'.el ≠ item.el) : item' ∈ (s.relinkOne item first last).elList.items := by
  have ht := takeRing_taken h hi last
  obtain ⟨-, hlist⟩ := attachRing_els
    ((s.setFlags item.el (fun _ => true) id).takeRing item.el item.keptCtx last).2 item.el
    ((s.setFlags item.el (fun _ => true) id).takeRing item.el item.keptCtx last).1 first last
  rw [relinkOne, elItemLink, hlist, ht.elList, ElList.mem_setFlags_ne he]
  exact hi'

/-- The last element is linked. -/
theorem relinked_one (h : Ready s [item.el]) (hi : item ∈ s.elList.items) (first : Bool) :
    Relinked s { s.relinkOne item first true with linked := true } first [item.el] := by
  have hready := relinkOne_ready h hi (by simp) first true
  refine ⟨⟨fun i e e' _ he' => ?_, fun e he => ?_, fun _ _ he => ?_, fun _ _ he => ?_⟩,
    hready.toTied.of_eq (fun _ => rfl) rfl rfl rfl rfl, ?_, ?_, ?_, ?_⟩
  · simp at he'
  · simp at he
  · simp at he
  · simp at he
  · intro r hr
    exact relinkOne_mem h hi first true hr
  · intro e r he hfirst hr
    obtain rfl : item.el = e := by simpa using he
    subst hfirst
    exact relinkOne_input hr (Or.inl rfl)
  · intro e he
    exact relinkOne_els s item first true (by simpa using he)
  · intro e ring he hring hbusy
    exact (relinkOne_spare h hi (by simp) first true (by simpa using he) hring hbusy).2

/-- An element is linked, and the others after it. -/
theorem Relinked.cons {el' : ℕ} {es : List ℕ} {first : Bool} {r : ℕ}
    (h : Ready s (item.el :: el' :: es)) (hi : item ∈ s.elList.items) (hnot : item.el ∉ el' :: es)
    (hcur : ((s.setFlags item.el (fun _ => true) id).takeRing item.el item.keptCtx
      false).1 = some r)
    (hrest : Relinked (s.relinkOne item first false) s' false (el' :: es)) :
    Relinked s s' first (item.el :: el' :: es) := by
  have hready := relinkOne_ready h hi hnot first false
  have ht := takeRing_taken h hi false
  obtain ⟨hout, hitem, hmine⟩ := relinkOne_some h hi first hcur
  have hmem : r ∈ (s.relinkOne item first false).ringbufs :=
    List.mem_map_of_mem (f := RingbufItem.rb) (hostItem_mem hmine)
  have hrings : (s.relinkOne item first false).rings =
      ((s.setFlags item.el (fun _ => true) id).takeRing item.el item.keptCtx false).2.rings :=
    (attachRing_same _ _ _ _ _).1
  have hels : s'.els item.el = (s.relinkOne item first false).els item.el := hrest.frame _ hnot
  have hout' : (s'.els item.el).output = .rb (some r) := by rw [hels, hout]
  have hmem' : r ∈ s'.ringbufs := hrest.mem r hmem
  have hspare : s'.rings r = (s.relinkOne item first false).rings r :=
    hrest.spare item.el _ hnot hmine (Or.inl rfl)
  have hdrop : (item.el :: el' :: es).dropLast = item.el :: (el' :: es).dropLast :=
    List.dropLast_cons_of_ne_nil (List.cons_ne_nil el' es)
  have hne : ∀ e, e ∈ (el' :: es).dropLast → e ≠ item.el :=
    fun e he heq => hnot (heq ▸ List.mem_of_mem_dropLast he)
  have hkeep : ∀ item' ∈ s.elList.items, item'.el ≠ item.el →
      item' ∈ (s.relinkOne item first false).elList.items :=
    fun item' hi' he => relinkOne_items h hi first false hi' he
  refine ⟨⟨?_, ?_, ?_, ?_⟩, hrest.tied, ?_, ?_, ?_, ?_⟩
  · intro i e e' he he'
    cases i with
    | zero =>
      obtain rfl : item.el = e := by simpa using he
      obtain rfl : el' = e' := by simpa using he'
      exact ⟨r, hout', hrest.head el' r rfl rfl hitem, hmem', hrest.tied.live r hmem'⟩
    | succ i => exact hrest.chain i e e' (by simpa using he) (by simpa using he')
  · intro e he e' he' heq
    rw [hdrop, List.mem_cons] at he he'
    rcases he with rfl | he
    · exact hrest.tied.output_inj hout' (heq ▸ hout') hmem'
    · rcases he' with rfl | he'
      · exact hrest.tied.output_inj (heq ▸ hout') hout' hmem'
      · exact hrest.distinct e he e' he' heq
  · intro item' hi' he hk
    rw [hdrop, List.mem_cons] at he
    obtain ⟨ring, hring, hkr, ho⟩ := h.keptEl item' hi' hk
    rcases he with he | he
    · obtain rfl : item' = item := ElList.eq_of_el hi' hi he
      obtain ⟨r', hr', ho', hsame⟩ := ht.kept hk
      obtain rfl : r = r' := Option.some.inj (hcur.symm.trans hr')
      rw [ho] at ho'
      obtain heq : ring.rb = r := by simpa using ho'
      exact ⟨r, by rw [ho, heq], ⟨ring, hostItem_mem hring, heq, hkr⟩, hout',
        by rw [hspare, hrings, hsame]⟩
    · obtain ⟨r', ho', -, hout'', hsame⟩ := hrest.kept item' (hkeep item' hi' (hne _ he)) he hk
      rw [relinkOne_els s item first false (hne _ he), ho] at ho'
      obtain rfl : ring.rb = r' := by simpa using ho'
      obtain ⟨-, hspare'⟩ := relinkOne_spare h hi hnot first false (hne _ he) hring (Or.inr hkr)
      exact ⟨ring.rb, ho, ⟨ring, hostItem_mem hring, rfl, hkr⟩, hout'', hsame.trans hspare'⟩
  · intro item' hi' he hk r' hr' ho
    rw [hdrop, List.mem_cons] at he
    rcases he with he | he
    · obtain rfl : item' = item := ElList.eq_of_el hi' hi he
      rw [hout'] at ho
      obtain rfl : r = r' := by simpa using ho
      rw [hspare, hrings]
      exact ht.free hk r hr' hcur
    · have hmem'' := relinkOne_mem h hi first false hr'
      rw [hrest.reset item' (hkeep item' hi' (hne _ he)) he hk r' hmem'' ho, hrings]
      -- the ring buffer that was given out before is another one
      rw [ht.rings r' hr']
      rw [hcur]
      rintro heq
      obtain rfl := Option.some.inj heq
      exact hne _ he (hrest.tied.output_inj ho hout' hmem')
  · intro r' hr'
    exact hrest.mem r' (relinkOne_mem h hi first false hr')
  · intro e r' he hfirst hr'
    obtain rfl : item.el = e := by simpa using he
    subst hfirst
    rw [hels]
    exact relinkOne_input hr' (Or.inr (by rw [hcur]; simp))
  · intro e he
    rw [hrest.frame e fun hm => he (List.mem_cons_of_mem _ hm)]
    exact relinkOne_els s item first false fun heq => he (heq ▸ List.mem_cons_self)
  · intro e ring he hring hbusy
    have hne' : e ≠ item.el := fun heq => he (heq ▸ List.mem_cons_self)
    obtain ⟨hthere, hsame⟩ := relinkOne_spare h hi hnot first false hne' hring hbusy
    rw [hrest.spare e ring (fun hm => he (List.mem_cons_of_mem _ hm)) hthere hbusy, hsame]

end One

/-- The loop of `audio_pipeline_relink` over different elements. -/
theorem relinkLoop_relinked (hf : Lookup find) {isFirst : ℕ → Bool} {ks : List κ} {es : List ℕ}
    {i : ℕ} (hn : Names find s ks es) (hne : es ≠ []) (hd : es.Nodup) (h : Ready s es)
    (hlater : ∀ j, i < j → isFirst j = false) (hs : relinkCreates find isFirst s i ks) :
    (relinkLoop find isFirst s i ks).1 = ESP_OK ∧
      Relinked s (relinkLoop find isFirst s i ks).2 (isFirst i) es := by
  induction ks generalizing s es i with
  | nil =>
    cases hn
    exact absurd rfl hne
  | cons k ks ih =>
    obtain ⟨e, es, hk, hrest, rfl⟩ := List.forall₂_cons_left_iff.mp hn
    obtain ⟨item, hitem, rfl⟩ := Option.map_eq_some_iff.mp hk
    have hi : item ∈ s.elList.items := hf.mem hitem
    obtain ⟨hnot, hd'⟩ := List.nodup_cons.mp hd
    rw [relinkLoop]
    simp only [hitem]
    cases hrest with
    | nil => exact ⟨rfl, relinked_one h hi (isFirst i)⟩
    | @cons k' e' ks' es' hk' hn' =>
      simp only [relinkCreates, hitem, List.isEmpty_cons] at hs
      obtain ⟨hget, hs'⟩ := hs
      obtain ⟨r, hcur⟩ := attachRing_ok hget
      have hready := relinkOne_ready h hi hnot (isFirst i) false
      have hnames : SameNames s (s.relinkOne item (isFirst i) false) :=
        sameNames_relinkOne s item.el item.keptCtx (isFirst i) false
      have hrest : Names find (s.relinkOne item (isFirst i) false) (k' :: ks') (e' :: es') :=
        Names.same hf (.cons hk' hn') hnames
      obtain ⟨hok, hlinked⟩ := ih hrest (List.cons_ne_nil e' es') hd' hready
        (fun j hj => hlater j (Nat.lt_of_succ_lt hj)) hs'
      rw [hlater (i + 1) (Nat.lt_succ_self i)] at hlinked
      exact ⟨hok, hlinked.cons h hi hnot hcur⟩

/-! ### Linking -/

/-- Nothing has been broken up: every ring buffer is in use, and no element is kept. -/
structure Whole (s : Links) (todo : List ℕ) : Prop extends Ready s todo where
  busy : ∀ ring ∈ s.rbList, ring.Busy
  none_kept : ∀ item ∈ s.elList.items, item.keptCtx = false

section One

variable {item : ElementItem} {todo : List ℕ}

theorem Whole.hostItem_none (h : Whole s (item.el :: todo)) (hi : item ∈ s.elList.items) :
    hostItem item.el s.rbList = none := by
  by_contra hne
  obtain ⟨ring, hring⟩ := Option.ne_none_iff_exists'.mp hne
  have hmem := hostItem_mem hring
  exact h.toReady.idle hi (h.none_kept item hi) ring hmem (h.busy ring hmem) (hostItem_host hring)

theorem Taken.whole {cur : Option ℕ} (ht : Taken s item cur t) (h : Whole s (item.el :: todo))
    (hlist : s'.elList = t.elList) (hready : Ready s' todo)
    (hbusy : ∀ ring ∈ s'.rbList, ring.Busy) : Whole s' todo where
  toReady := hready
  busy := hbusy
  none_kept item' hi' := by
    rw [hlist, ht.elList, ElList.mem_setFlags] at hi'
    obtain ⟨item₀, hi₀, rfl⟩ := hi'
    split_ifs
    · rfl
    · exact h.none_kept item₀ hi₀

/-- One round of the loop of `audio_pipeline_link`. -/
theorem pipelineRbLinked_whole (h : Whole s (item.el :: todo)) (hi : item ∈ s.elList.items)
    (hnot : item.el ∉ todo) (first last : Bool) :
    Whole ((s.setFlags item.el (fun _ => true) fun _ => false).pipelineRbLinked item.el first
      last).2 todo := by
  have hnone := h.hostItem_none hi
  have hkept : item.keptCtx ≠ true := by simp [h.none_kept item hi]
  -- without a ring buffer
  have hfree : ∀ s' : Links, (∀ e, (s'.els e).output = (s.els e).output) →
      s'.elList = s.elList.setFlags item.el (fun _ => true) (fun _ => false) →
      s'.rbList = s.rbList → s'.nextRb = s.nextRb → s'.destroyed = s.destroyed →
      s'.rings = s.rings → Whole s' todo := by
    intro s' hout hlist hrb hn hd hr
    have ht : Taken s item none s' :=
      ⟨hout, hlist, hd, by
        rw [hrb]
        exact ⟨hnone, fun _ _ _ hr _ => hr, fun _ hi _ => Or.inl hi⟩,
        Or.inl ⟨by rw [ringbufs, hrb, ringbufs], hn⟩, fun r _ _ => by rw [hr],
        fun hk => absurd hk hkept, fun _ _ _ hc => absurd hc (by simp)⟩
    have hready := ht.ready h.toReady hi hnot rfl rfl rfl rfl (fun e _ => hout e) (Or.inl (hout _))
    exact ht.whole h rfl hready (by rw [hrb]; exact h.busy)
  unfold pipelineRbLinked
  cases last with
  | true =>
    rw [if_pos rfl]
    exact hfree _ (fun e => setInput_output _ _ e _) rfl rfl rfl rfl rfl
  | false =>
    rw [if_neg (by decide)]
    obtain ⟨s₁, hs₁, hout, hlist, hrb, hn, hd, hr⟩ : ∃ s₁,
        (if first then s.setFlags item.el (fun _ => true) fun _ => false
          else (s.setFlags item.el (fun _ => true) fun _ => false).audioElementSetInputRingbuf
            item.el s.linkedRb) = s₁ ∧ (∀ e, (s₁.els e).output = (s.els e).output) ∧
          s₁.elList = s.elList.setFlags item.el (fun _ => true) (fun _ => false) ∧
          s₁.rbList = s.rbList ∧ s₁.nextRb = s.nextRb ∧ s₁.destroyed = s.destroyed ∧
          s₁.rings = s.rings := by
      cases first with
      | true => exact ⟨_, rfl, fun _ => rfl, rfl, rfl, rfl, rfl, rfl⟩
      | false => exact ⟨_, rfl, fun e => setInput_output _ _ e _, rfl, rfl, rfl, rfl, rfl⟩
    have hline : (s.setFlags item.el (fun _ => true) fun _ => false).linkedRb = s.linkedRb := rfl
    rw [hline, hs₁]
    dsimp only
    rcases createRing_cases s₁ item.el with ⟨memory, hc⟩ | ⟨memory, hc⟩
    · rw [hc]
      exact hfree _ hout hlist hrb hn hd hr
    · rw [hc]
      have hne : ∀ r ∈ s.ringbufs, r ≠ s.nextRb :=
        fun r hr heq => Nat.lt_irrefl _ (heq ▸ (h.live r hr).1)
      dsimp only
      set t : Links := { s₁ with
        memory := memory
        rings := Function.update s₁.rings s₁.nextRb (Ringbuf.empty (s₁.els item.el).outRbSize.toNat)
        nextRb := s₁.nextRb + 1
        rbList := s₁.rbList ++ [⟨s₁.nextRb, some item.el, true, false⟩] } with htdef
      have hrbt : t.rbList = s.rbList ++ [⟨s.nextRb, some item.el, true, false⟩] := by
        rw [htdef, hrb, hn]
      have ht : Taken s item (some s.nextRb) t := by
        refine ⟨hout, hlist, hd, ?_, Or.inr ⟨rfl, ?_, ?_⟩, fun r hr' _ => ?_,
          fun hk => absurd hk hkept, fun _ r hr' hc => ?_⟩
        · rw [hrbt]
          exact append_assigns hnone s.nextRb
        · rw [ringbufs, hrbt, List.map_append]
          rfl
        · rw [htdef, hn]
        · show Function.update s₁.rings s₁.nextRb _ r = s.rings r
          rw [hn, Function.update_of_ne (hne r hr'), hr]
        · exact absurd (Option.some.inj hc).symm (hne r hr')
      refine ht.whole h rfl ?_ fun ring hring => ?_
      · refine ht.ready h.toReady hi hnot rfl rfl rfl rfl (fun e he => ?_) (Or.inr ⟨_, rfl, ?_⟩)
        · rw [setOutput_output_ne he]
          exact hout e
        · rw [hn]
          exact setOutput_output_self _ _ _
      · change ring ∈ t.rbList at hring
        rw [hrbt] at hring
        rcases List.mem_append.mp hring with hring | hring
        · exact h.busy ring hring
        · rw [List.mem_singleton.mp hring]
          exact Or.inl rfl

end One

theorem sameNames_pipelineRbLinked (s : Links) (el : ℕ) (first last : Bool) :
    SameNames s (s.pipelineRbLinked el first last).2 := by
  have hin : SameNames s (s.audioElementSetInputRingbuf el s.linkedRb) :=
    @sameNames_setEl s el (fun e => { e with input := e.input.setRingbuf s.linkedRb })
      fun _ => ⟨rfl, rfl⟩
  unfold pipelineRbLinked
  cases last with
  | true => exact hin
  | false =>
    rw [if_neg (by decide)]
    have hs₁ : SameNames s (if first then s else s.audioElementSetInputRingbuf el s.linkedRb) := by
      cases first with
      | true => exact ⟨rfl, fun _ => rfl, fun _ => rfl⟩
      | false => exact hin
    generalize (if first then s else s.audioElementSetInputRingbuf el s.linkedRb) = s₁ at hs₁ ⊢
    dsimp only
    rcases createRing_cases s₁ el with ⟨memory, hc⟩ | ⟨memory, hc⟩
    · rw [hc]
      exact ⟨hs₁.els, hs₁.tag, hs₁.size⟩
    · rw [hc]
      have hout := @sameNames_setEl { s₁ with linkedRb := some s₁.nextRb } el
        (fun e => { e with output := e.output.setRingbuf (some s₁.nextRb) }) fun _ => ⟨rfl, rfl⟩
      have hall := hs₁.trans (⟨rfl, fun _ => rfl, fun _ => rfl⟩ :
        SameNames s₁ { s₁ with linkedRb := some s₁.nextRb }) |>.trans hout
      exact ⟨hall.els, hall.tag, hall.size⟩

/-- Linking different elements. -/
theorem linkLoop_whole (hf : Lookup find) {ks : List κ} {first : Bool}
    (h : Whole s (named find s ks)) (hd : (named find s ks).Nodup) :
    Tied (linkLoop find s first ks).2 := by
  induction ks generalizing s first with
  | nil => exact h.toTied.of_eq (fun _ => rfl) rfl rfl rfl rfl
  | cons k ks ih =>
    rw [linkLoop]
    cases hk : find s k with
    | none => exact h.toTied
    | some item =>
      have hcons : named find s (k :: ks) = item.el :: named find s ks := by
        rw [named, List.filterMap_cons, hk]
        rfl
      rw [hcons] at h hd
      obtain ⟨hnot, hd⟩ := List.nodup_cons.mp hd
      have hwhole := pipelineRbLinked_whole h (hf.mem hk) hnot first ks.isEmpty
      have hnames := (sameNames_setFlags s item.el (fun _ => true) fun _ => false).trans
        (sameNames_pipelineRbLinked _ item.el first ks.isEmpty)
      dsimp only
      rw [← named_same hf hnames ks] at hwhole hd
      split_ifs
      · exact hwhole.toTied
      · exact ih hwhole hd

/-! ### Rounds -/

/-- A pipeline that nothing has been linked in, or that has been unlinked. -/
structure Fresh (s : Links) : Prop where
  linked : s.linked = false
  rbList : s.rbList = []
  kept : ∀ item ∈ s.elList.items, item.keptCtx = false
  held : ∀ e r, (s.els e).output = .rb (some r) → r < s.nextRb
  created : ∀ r ∈ s.destroyed, r < s.nextRb

theorem Fresh.whole (h : Fresh s) (todo : List ℕ) : Whole s todo := by
  have hno : ∀ ring, ring ∉ s.rbList := by
    intro ring hr
    rw [h.rbList] at hr
    exact absurd hr (by simp)
  have hnone : ∀ r, r ∉ s.ringbufs := by
    intro r hr
    obtain ⟨ring, hring, -⟩ := List.mem_map.mp hr
    exact hno ring hring
  refine ⟨⟨⟨by simp [ringbufs, h.rbList], fun r hr => absurd hr (hnone r), h.created, h.held,
    fun item hi _ => h.kept item hi, fun e r _ hr => absurd hr (hnone r), fun item hi hk => ?_,
    fun ring hr => absurd hr (hno ring)⟩, fun ring hr => absurd hr (hno ring)⟩,
    fun ring hr => absurd hr (hno ring), h.kept⟩
  rw [h.kept item hi] at hk
  exact absurd hk (by decide)

/-- A step of the elements. -/
def Op.IsElement : Op → Prop
  | .elState _ _ => True
  | .io _ _ => True
  | _ => False

/-- The elements run. -/
def Runs : Links → Links → Prop := Lts.Reach step fun _ op => op.IsElement

/-- The elements change neither the lists nor what they are linked to. -/
theorem Runs.same (h : Runs s t) :
    (∀ e, (t.els e).output = (s.els e).output) ∧ t.elList = s.elList ∧ t.rbList = s.rbList ∧
      t.nextRb = s.nextRb ∧ t.destroyed = s.destroyed ∧ t.linked = s.linked := by
  have hreach : Lts.Reach step (fun _ op => op.IsElement) s t := h
  refine hreach.invariant (I := fun t => (∀ e, (t.els e).output = (s.els e).output) ∧
    t.elList = s.elList ∧ t.rbList = s.rbList ∧ t.nextRb = s.nextRb ∧ t.destroyed = s.destroyed ∧
      t.linked = s.linked) ⟨fun _ => rfl, rfl, rfl, rfl, rfl, rfl⟩ ?_
  rintro u op u' ⟨hout, hl, hrb, hn, hd, hlinked⟩ hop hstep
  obtain rfl := Option.some.inj hstep
  cases op with
  | elState el state =>
    refine ⟨fun e => ?_, hl, hrb, hn, hd, hlinked⟩
    rw [← hout]
    by_cases he : e = el
    · subst he
      simp [call, setEl]
    · simp [call, setEl, he]
  | io rb ring => exact ⟨hout, hl, hrb, hn, hd, hlinked⟩
  | _ => exact hop.elim

theorem Tied.runs (h : Tied s) (hr : Runs s t) : Tied t := by
  obtain ⟨hout, hl, hrb, hn, hd, -⟩ := hr.same
  exact h.of_eq hout hl hrb hn hd

/-- `audio_pipeline_link`, then any number of rounds of `audio_pipeline_breakup_elements` and
`audio_pipeline_relink`, of lists that name no element twice.  The elements run meanwhile. -/
inductive Rounds : Links → Prop
  | link {s : Links} {linkTag : List CString} (hs : Fresh s.audioPipelineUnlink)
    (hd : (named getElItemByTag s.audioPipelineUnlink linkTag).Nodup) :
    Rounds (s.audioPipelineLink linkTag).2
  | round {s t : Links} {linkTag : List CString} {keptCtxEl : Option ℕ} (h : Rounds s)
    (ht : Runs (s.audioPipelineBreakupElements keptCtxEl).2 t)
    (hd : (named getElItemByTag t linkTag).Nodup) : Rounds (t.audioPipelineRelink linkTag).2
  | run {s t : Links} (h : Rounds s) (ht : Runs s t) : Rounds t

theorem Rounds.tied (h : Rounds s) : Tied s := by
  induction h with
  | link hs hd => exact linkLoop_whole lookup_tag (hs.whole _) hd
  | @round s t linkTag keptCtxEl _ ht hd ih =>
    obtain ⟨htied, hbroken, hl, -⟩ := breakup_tied ih keptCtxEl rfl
    obtain ⟨-, -, hrb, -, -, hlinked⟩ := ht.same
    have hbroken' : Broken t := by
      intro ring hr
      exact hbroken ring (hrb ▸ hr)
    rw [audioPipelineRelink, if_neg (by rw [hlinked, hl]; decide)]
    exact relinkLoop_tied lookup_tag ((htied.runs ht).ready hbroken' _) hd
  | run _ ht ih => exact ih.runs ht

/-- **Relinking rebuilds the chain**: of a pipeline that has been linked and broken up, relinked
and broken up any number of times, different elements are chained, if the ring buffers that are
missing can be created.  The kept elements have the ring buffers they had before breaking up, which
neither that nor relinking has touched. -/
theorem relink_rebuilds (h : Rounds s) {keptCtxEl : Option ℕ}
    (ht : Runs (s.audioPipelineBreakupElements keptCtxEl).2 t) {linkTag : List CString}
    {es : List ℕ} (hn : Names getElItemByTag t linkTag es) (hd : es.Nodup) (h2 : 2 ≤ es.length)
    (hc : relinkCreates getElItemByTag (fun i => i = 0) t 0 linkTag) :
    (t.audioPipelineRelink linkTag).1 = ESP_OK ∧
      Rebuilt t (t.audioPipelineRelink linkTag).2 es ∧
      ∀ item ∈ t.elList.items, item.keptCtx = true →
        ∃ r, (s.els item.el).output = .rb (some r) ∧ (t.els item.el).output = .rb (some r) ∧
          (s.audioPipelineBreakupElements keptCtxEl).2.rings r = s.rings r := by
  obtain ⟨htied, hbroken, hl, hrings⟩ := breakup_tied h.tied keptCtxEl rfl
  obtain ⟨hout, hlist, hrb, -, -, hlinked⟩ := ht.same
  have hbroken' : Broken t := by
    intro ring hr
    exact hbroken ring (hrb ▸ hr)
  have hne : es ≠ [] := by
    rintro rfl
    exact absurd h2 (by decide)
  have hlater : ∀ j : ℕ, 0 < j → decide (j = 0) = false :=
    fun j hj => decide_eq_false (Nat.ne_of_gt hj)
  obtain ⟨hok, hrelinked⟩ := relinkLoop_relinked lookup_tag hn hne hd
    ((htied.runs ht).ready hbroken' es) hlater hc
  rw [audioPipelineRelink, if_neg (by rw [hlinked, hl]; decide)]
  refine ⟨hok, hrelinked.toRebuilt, fun item hi hk => ?_⟩
  obtain ⟨ring, hring, hkr, ho⟩ := htied.keptEl item (hlist ▸ hi) hk
  exact ⟨ring.rb, (breakup_fades s keptCtxEl).output _ _ ho, by rw [hout]; exact ho,
    hrings ring (hostItem_mem hring) hkr⟩

theorem pair_fresh : Fresh pair where
  linked := rfl
  rbList := rfl
  kept := by decide
  held e r h := by
    have hout : (pair.els e).output = .rb none := by
      rcases e with _ | _ | _ | e <;> rfl
    rw [hout] at h
    exact absurd h (by simp)
  created := by decide

/-- The first of the two elements runs while the pipeline is broken up, and keeps its ring
buffer. -/
theorem relink_rebuilds_pair :
    let s := (pairLinked.call (.elState 1 .running)).2
    let t := (s.audioPipelineBreakupElements (some 1)).2
    let r := t.audioPipelineRelink [['a'], ['b']]
    (⟨1, false, true⟩ : ElementItem) ∈ t.elList.items ∧ r.1 = ESP_OK ∧ Rebuilt t r.2 [1, 2] := by
  have hunlink : pair.audioPipelineUnlink = pair := unlink_of_not_linked rfl
  have hlink : Rounds pairLinked :=
    .link (by rw [hunlink]; exact pair_fresh) (by rw [hunlink]; decide)
  have hrun : Runs pairLinked (pairLinked.call (.elState 1 .running)).2 :=
    Lts.Reach.refl.tail (l := .elState 1 .running) trivial rfl
  obtain ⟨hok, hrebuilt, -⟩ := @relink_rebuilds _ _ (.run hlink hrun) (some 1) Lts.Reach.refl
    [['a'], ['b']] [1, 2] (.cons (by decide) (.cons (by decide) .nil)) (by decide) (by decide)
    ⟨rfl, rfl, trivial⟩
  exact ⟨by decide, hok, hrebuilt⟩

/-- `pair`, and an element whose tag only differs in case. -/
def namesakes : Links := (pair.audioPipelineRegister 3 (some ['A'])).2

/-- Different tags may belong to one element, which then writes to one ring buffer and reads from
another.  A list that names an element twice leaves an old ring buffer under its name, and so does
linking a pipeline that is broken up: the element is kept with one ring buffer, and relinked with
another one. -/
theorem relink_confuses :
    (let t := ((namesakes.audioPipelineLink [['a'], ['b']]).2.audioPipelineBreakupElements none).2
      let r := t.audioPipelineRelink [['a'], ['A'], ['b']]
      (t.elList.items.map fun item => (t.els item.el).tag) = [some ['a'], some ['b'], some ['A']] ∧
        relinkCreates getElItemByTag (fun i => i = 0) t 0 [['a'], ['A'], ['b']] ∧
        Names getElItemByTag t [['a'], ['A'], ['b']] [1, 1, 2] ∧ r.1 = ESP_OK ∧
        (r.2.els 1).output ≠ (r.2.els 1).input) ∧
    (let s := ((namesakes.audioPipelineLink [['a'], ['A'], ['b']]).2.call (.elState 1 .running)).2
      let t := (s.audioPipelineBreakupElements (some 1)).2
      let r := t.audioPipelineRelink [['a'], ['b']]
      (⟨1, false, true⟩ : ElementItem) ∈ t.elList.items ∧ (t.els 1).output = .rb (some 1) ∧
        r.1 = ESP_OK ∧ (r.2.els 1).output = .rb (some 0)) ∧
    (let s := (((pairLinked.call (.elState 1 .running)).2.audioPipelineBreakupElements
        (some 1)).2.audioPipelineLink [['a'], ['b']]).2
      let t := (s.audioPipelineBreakupElements (some 1)).2
      let r := t.audioPipelineRelink [['a'], ['b']]
      (⟨1, false, true⟩ : ElementItem) ∈ t.elList.items ∧ (t.els 1).output = .rb (some 1) ∧
        r.1 = ESP_OK ∧ (r.2.els 1).output = .rb (some 0)) := by
  refine ⟨⟨by decide, ⟨rfl, rfl, rfl, trivial⟩, ?_, rfl, by decide⟩, ?_, ?_⟩
  · exact .cons (by decide) (.cons (by decide) (.cons (by decide) .nil))
  · exact ⟨by decide, by decide, rfl, by decide⟩
  · exact ⟨by decide, by decide, rfl, by decide⟩

end Links

end AudioPipeline
