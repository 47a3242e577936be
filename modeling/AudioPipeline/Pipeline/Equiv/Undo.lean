import AudioPipeline.Pipeline.Equiv.Dangling

/-!
## Unlinking undoes linking

`audio_pipeline_unlink` sets both sides of the elements it finds (`Cut`) to `NULL`, which takes a
ring buffer away and leaves a callback alone (`unlink_els`), and clears the flags of the linked
items (`unlink_items`).

`link_unlink`: after `audio_pipeline_link` on a pipeline whose elements have no ring buffers, that
gives every element back its two sides, and destroys the ring buffers of the link.  The flags are
cleared rather than restored: `audio_pipeline_register_more` marks an element as linked before any
link, and the mark is lost (`unlink_loses_mark`).
-/

namespace AudioPipeline

/-! ### One element -/

/-- The element with both of its sides set to `NULL`. -/
def LinkEl.cleared (e : LinkEl) : LinkEl :=
  { e with input := e.input.setRingbuf none, output := e.output.setRingbuf none }

theorem Io.setRingbuf_twice (x : Io) : (x.setRingbuf none).setRingbuf none = x.setRingbuf none := by
  cases x <;> rfl

/-- Setting a side that has no ring buffer to `NULL`. -/
theorem Io.setRingbuf_bare {x : Io} (h : x.ringbuf = none) : x.setRingbuf none = x := by
  cases x with
  | rb handle =>
    obtain rfl : handle = none := h
    rfl
  | cb fn => rfl

theorem LinkEl.cleared_twice (e : LinkEl) : e.cleared.cleared = e.cleared := by
  simp only [LinkEl.cleared, Io.setRingbuf_twice]

/-- The element has no ring buffer on either side. -/
def LinkEl.Free (e : LinkEl) : Prop := e.input.ringbuf = none ∧ e.output.ringbuf = none

instance (e : LinkEl) : Decidable e.Free := inferInstanceAs (Decidable (_ ∧ _))

theorem LinkEl.Free.cleared {e : LinkEl} (h : e.Free) : e.cleared = e := by
  rw [LinkEl.cleared, Io.setRingbuf_bare h.1, Io.setRingbuf_bare h.2]

/-- An item as `audio_pipeline_unlink` leaves it. -/
def ElementItem.unlinked (item : ElementItem) : ElementItem :=
  { item with linked := false, keptCtx := false }

namespace Links

variable {s s' : Links}

theorem detach_els (s : Links) (el e : ℕ) :
    (s.detach el).els e = if e = el then (s.els e).cleared else s.els e := by
  split_ifs with he
  · subst he
    simp [detach, audioElementSetInputRingbuf, audioElementSetOutputRingbuf, setEl, LinkEl.cleared]
  · simp [detach, audioElementSetInputRingbuf, audioElementSetOutputRingbuf, setEl, he]

/-! ### The two loops -/

/-- The elements of the linked items. -/
def linkedEls (items : List ElementItem) : List ℕ :=
  (items.filter ElementItem.linked).map ElementItem.el

theorem mem_linkedEls {items : List ElementItem} {e : ℕ} :
    e ∈ linkedEls items ↔ ∃ item ∈ items, item.linked = true ∧ item.el = e := by
  simp [linkedEls, and_assoc]

/-- The loop over `el_list`, on the elements. -/
theorem unlinkElements_els (items : List ElementItem) (s : Links) (e : ℕ) :
    (s.unlinkElements items).els e =
      if e ∈ linkedEls items then (s.els e).cleared else s.els e := by
  induction items generalizing s with
  | nil => rfl
  | cons item items ih =>
    rw [unlinkElements]
    by_cases hl : item.linked = true
    · have hmem : e ∈ linkedEls (item :: items) ↔ e = item.el ∨ e ∈ linkedEls items := by
        simp [linkedEls, hl]
      rw [if_pos hl, ih, detach_els]
      by_cases he : e = item.el
      · -- the element may stand in the list again
        simp only [hmem, if_pos he, if_pos (Or.inl he), LinkEl.cleared_twice, ite_self]
        rfl
      · simp only [hmem, he, if_false, false_or]
        rfl
    · have hmem : e ∈ linkedEls (item :: items) ↔ e ∈ linkedEls items := by
        simp [linkedEls, hl]
      rw [if_neg hl, ih]
      simp only [hmem]

/-- The loop over `el_list`, on the list. -/
theorem unlinkElements_items (items : List ElementItem) (s : Links) :
    (s.unlinkElements items).elList.items =
      s.elList.items.map fun i => if i.el ∈ linkedEls items then i.unlinked else i := by
  induction items generalizing s with
  | nil => exact (List.map_id' s.elList.items).symm
  | cons item items ih =>
    rw [unlinkElements]
    by_cases hl : item.linked = true
    · rw [if_pos hl, ih]
      show (s.elList.items.map _).map _ = _
      rw [List.map_map]
      refine List.map_congr_left fun i _ => ?_
      have hmem : i.el ∈ linkedEls (item :: items) ↔ i.el = item.el ∨ i.el ∈ linkedEls items := by
        simp [linkedEls, hl]
      simp only [Function.comp_apply, hmem]
      by_cases he : i.el = item.el
      · rw [if_pos he, if_pos (Or.inl he)]
        -- the flags of an item that stands in the list again are cleared again
        split_ifs <;> rfl
      · rw [if_neg he]
        simp only [he, false_or]
    · have hmem : ∀ i : ElementItem, i.el ∈ linkedEls (item :: items) ↔ i.el ∈ linkedEls items := by
        simp [linkedEls, hl]
      rw [if_neg hl, ih]
      simp only [hmem]

/-- The loop over `rb_list`, on the elements. -/
theorem unlinkRingbufs_els (items : List RingbufItem) (s : Links) (e : ℕ) :
    (s.unlinkRingbufs items).els e =
      if some e ∈ items.map RingbufItem.hostEl then (s.els e).cleared else s.els e := by
  induction items generalizing s with
  | nil => rfl
  | cons item items ih =>
    rw [unlinkRingbufs, List.map_cons]
    cases hhost : item.hostEl with
    | none =>
      rw [ih]
      simp
    | some hostEl =>
      rw [ih]
      show (if _ then ((s.detach hostEl).els e).cleared else (s.detach hostEl).els e) = _
      rw [detach_els]
      have hmem : some e ∈ some hostEl :: items.map RingbufItem.hostEl ↔
          e = hostEl ∨ some e ∈ items.map RingbufItem.hostEl := by
        simp
      by_cases he : e = hostEl
      · simp only [hmem, if_pos he, if_pos (Or.inl he), LinkEl.cleared_twice, ite_self]
      · simp only [hmem, he, if_false, false_or]

theorem unlinkRingbufs_elList (items : List RingbufItem) (s : Links) :
    (s.unlinkRingbufs items).elList = s.elList := by
  induction items generalizing s with
  | nil => rfl
  | cons item items ih =>
    rw [unlinkRingbufs, ih]
    cases item.hostEl <;> rfl

/-! ### `audio_pipeline_unlink` -/

/-- Unlinking sets both sides of the element to `NULL`. -/
def Cut (s : Links) (e : ℕ) : Prop :=
  e ∈ linkedEls s.elList.items ∨ some e ∈ s.rbList.map RingbufItem.hostEl

instance (s : Links) (e : ℕ) : Decidable (s.Cut e) := inferInstanceAs (Decidable (_ ∨ _))

/-- What unlinking a linked pipeline does to the elements. -/
theorem unlink_els (h : s.linked = true) (e : ℕ) :
    s.audioPipelineUnlink.els e = if s.Cut e then (s.els e).cleared else s.els e := by
  obtain ⟨events, listener, hrem⟩ := s.removeListener_eq
  rw [audioPipelineUnlink, if_pos h, hrem]
  show (unlinkRingbufs _ (unlinkElements _ s.elList.items).rbList).els e = _
  rw [unlinkRingbufs_els, unlinkElements_els, (unlinkElements_spec _ _).2.1]
  show (if some e ∈ s.rbList.map RingbufItem.hostEl then LinkEl.cleared (if _ then _ else s.els e)
    else if _ then _ else s.els e) = _
  by_cases hl : e ∈ linkedEls s.elList.items
  · have hcut : s.Cut e := Or.inl hl
    simp only [if_pos hl, if_pos hcut, LinkEl.cleared_twice, ite_self]
  · have hcut : s.Cut e ↔ some e ∈ s.rbList.map RingbufItem.hostEl := by simp [Cut, hl]
    rw [if_neg hl]
    simp only [hcut]

/-- What it does to the flags. -/
theorem unlink_items (h : s.linked = true) :
    s.audioPipelineUnlink.elList.items =
      s.elList.items.map fun item => if item.linked = true then item.unlinked else item := by
  obtain ⟨events, listener, hrem⟩ := s.removeListener_eq
  rw [audioPipelineUnlink, if_pos h, hrem]
  show (unlinkRingbufs _ _).elList.items = _
  rw [unlinkRingbufs_elList, unlinkElements_items]
  refine List.map_congr_left fun item hi => ?_
  -- an item of the list is linked if some item of its element is
  have hlinked : item.el ∈ linkedEls s.elList.items ↔ item.linked = true := by
    rw [mem_linkedEls]
    constructor
    · rintro ⟨item', hi', hl, hel⟩
      rwa [List.inj_on_of_nodup_map s.elList.nodup hi' hi hel] at hl
    · exact fun hl => ⟨item, hi, hl, rfl⟩
  simp only [hlinked]

/-- The ring buffers of `rb_list` are destroyed, in this order. -/
theorem unlink_destroyed (h : s.linked = true) :
    s.audioPipelineUnlink.destroyed = s.ringbufs.reverse ++ s.destroyed := by
  obtain ⟨events, listener, hrem⟩ := s.removeListener_eq
  rw [audioPipelineUnlink, if_pos h, hrem]
  show (unlinkRingbufs _ (unlinkElements _ s.elList.items).rbList).destroyed = _
  obtain ⟨hfades, hrb, -⟩ := unlinkElements_spec s.elList.items
    { s with events := events, listener := listener }
  rw [(unlinkRingbufs_spec _ _).2.2.1, hrb, hfades.destroyed]
  rfl

theorem unlink_ends (h : s.linked = true) :
    s.audioPipelineUnlink.rbList = [] ∧ s.audioPipelineUnlink.linked = false := by
  rw [audioPipelineUnlink, if_pos h]
  exact ⟨rfl, rfl⟩

/-! ### After a link -/

theorem Wired.ringbufs {inp : Option ℕ} {es : List ℕ} (h : Wired s s' inp es) :
    s'.ringbufs = s.ringbufs ++ List.range' s.nextRb (es.length - 1) := by
  have hnew : (es.dropLast.mapIdx fun i e =>
      (⟨s.nextRb + i, some e, true, false⟩ : RingbufItem)).map RingbufItem.rb =
      List.range' s.nextRb (es.length - 1) := by
    refine List.ext_getElem (by simp) fun i hi hi' => ?_
    simp
  rw [Links.ringbufs, h.rbList, List.map_append, hnew]
  rfl

/-- The hosts after a link: those before, and all the elements but the last. -/
theorem Wired.hosts {inp : Option ℕ} {es : List ℕ} (h : Wired s s' inp es) {e : ℕ}
    (he : some e ∈ s'.rbList.map RingbufItem.hostEl) :
    some e ∈ s.rbList.map RingbufItem.hostEl ∨ e ∈ es := by
  rw [h.rbList, List.map_append, List.mem_append] at he
  refine he.imp id fun he => ?_
  obtain ⟨item, hi, hhost⟩ := List.mem_map.mp he
  obtain ⟨i, hlt, rfl⟩ := List.mem_mapIdx.mp hi
  obtain rfl := Option.some.inj hhost
  exact List.mem_of_mem_dropLast (List.getElem_mem hlt)

/-- Linking writes only the two sides of an element. -/
theorem wire_sides : ∀ (es : List ℕ) (s : Links) (inp : Option ℕ) (e : ℕ),
    ∃ input output, (s.wire inp es).els e = { s.els e with input := input, output := output }
  | [], s, _, e => ⟨(s.els e).input, (s.els e).output, rfl⟩
  | [el], s, inp, e => by
    by_cases he : e = el
    · subst he
      exact ⟨(withInput (s.els e) inp).input, (s.els e).output, by simp [wire, withInput]⟩
    · exact ⟨(s.els e).input, (s.els e).output, by simp [wire, he]⟩
  | el :: el' :: es, s, inp, e => by
    obtain ⟨input, output, h⟩ := wire_sides (el' :: es) (s.wireOne inp el) (some s.nextRb) e
    refine ⟨input, output, ?_⟩
    rw [wire, h]
    by_cases he : e = el
    · subst he
      simp [wireOne, withInput]
    · simp [wireOne, he]

theorem wire_destroyed : ∀ (es : List ℕ) (s : Links) (inp : Option ℕ),
    (s.wire inp es).destroyed = s.destroyed
  | [], _, _ => rfl
  | [_], _, _ => rfl
  | el :: el' :: es, s, inp => wire_destroyed (el' :: es) (s.wireOne inp el) (some s.nextRb)

/-- The elements of the list, in the order of the link: but for the ends, each has a side that
reads the ring buffer before it and one that writes the ring buffer after it. -/
theorem Wired.cleared {es : List ℕ} (h : Wired s s' none es) (h2 : 2 ≤ es.length)
    (hsides : ∀ e, ∃ input output, s'.els e = { s.els e with input := input, output := output })
    (hfree : ∀ e ∈ es, (s.els e).Free) (hin : ∀ e ∈ es.tail, ∃ rb, (s.els e).input = .rb rb)
    (hout : ∀ e ∈ es.dropLast, ∃ rb, (s.els e).output = .rb rb) {e : ℕ} (he : e ∈ es) :
    (s'.els e).cleared = s.els e := by
  obtain ⟨i, hi, rfl⟩ := List.getElem_of_mem he
  obtain ⟨hfin, hfout⟩ := hfree es[i] he
  have hat : es[i]? = some es[i] := List.getElem?_eq_getElem hi
  have hinput : (s'.els es[i]).input.setRingbuf none = (s.els es[i]).input := by
    by_cases h0 : i = 0
    · subst h0
      rw [h.head es[0] (by rw [List.head?_eq_getElem?]; exact hat)]
      exact Io.setRingbuf_bare hfin
    · -- the element before it writes the ring buffer that it reads
      have hprev : es[i - 1]? = some es[i - 1] := List.getElem?_eq_getElem (by omega)
      have hat' : es[i - 1 + 1]? = some es[i] := by
        rw [Nat.sub_add_cancel (by omega)]
        exact hat
      have hnext := (h.next (i - 1) es[i - 1] es[i] hprev hat').2
      have htail : es[i] ∈ es.tail := by
        rw [List.mem_iff_getElem?]
        exact ⟨i - 1, by rw [List.getElem?_tail]; exact hat'⟩
      obtain ⟨rb, hrb⟩ := hin es[i] htail
      rw [hrb] at hfin ⊢
      obtain rfl : rb = none := hfin
      rw [hnext]
      rfl
  have houtput : (s'.els es[i]).output.setRingbuf none = (s.els es[i]).output := by
    by_cases hl : i + 1 = es.length
    · rw [h.last es[i] (by rw [List.getLast?_eq_getElem?, ← hl]; exact hat)]
      exact Io.setRingbuf_bare hfout
    · have hlt : i + 1 < es.length := by omega
      have hnext := (h.next i es[i] es[i + 1] hat (List.getElem?_eq_getElem hlt)).1
      have hdrop : es[i] ∈ es.dropLast := by
        rw [List.mem_iff_getElem]
        exact ⟨i, by rw [List.length_dropLast]; omega, List.getElem_dropLast _⟩
      obtain ⟨rb, hrb⟩ := hout es[i] hdrop
      rw [hrb] at hfout ⊢
      obtain rfl : rb = none := hfout
      rw [hnext]
      rfl
  obtain ⟨input, output, hside⟩ := hsides es[i]
  rw [hside] at hinput houtput ⊢
  simp only at hinput houtput
  rw [LinkEl.cleared]
  simp only [hinput, houtput]

/-- **Unlinking undoes linking**, up to the flags: the elements of the pipeline are as before the
link, and so are the others unless `rb_list` still named them as hosts; the flags of the items that
were linked, by this call or before, are clear, and the other items are as before; the pipeline is
not linked and `rb_list` is empty; the ring buffers of the link are destroyed, each once, after
those that were left in `rb_list`; and unlinking again changes nothing. -/
theorem link_unlink (s : Links) (hlinked : s.linked = false) {tags : List CString} {es : List ℕ}
    (hn : Names getElItemByTag s tags es) (hd : es.Nodup) (h2 : 2 ≤ es.length)
    (hfree : ∀ e, s.elList.has e = true → (s.els e).Free)
    (hin : ∀ e ∈ es.tail, ∃ rb, (s.els e).input = .rb rb)
    (hout : ∀ e ∈ es.dropLast, ∃ rb, (s.els e).output = .rb rb)
    (hok : (s.audioPipelineLink tags).1 = ESP_OK) :
    ∃ t u, s.call (.link tags) = (ESP_OK, t) ∧ t.call .unlink = (ESP_OK, u) ∧
      (∀ e, s.elList.has e = true ∨ some e ∉ s.rbList.map RingbufItem.hostEl →
        u.els e = s.els e) ∧
      (u.elList.items = s.elList.items.map fun item =>
        if item.linked = true ∨ item.el ∈ es then item.unlinked else item) ∧
      u.linked = s.linked ∧ u.rbList = [] ∧
      t.ringbufs = s.ringbufs ++ List.range' s.nextRb (es.length - 1) ∧
      t.nextRb = s.nextRb + (es.length - 1) ∧
      u.destroyed = (List.range' s.nextRb (es.length - 1)).reverse ++ s.ringbufs.reverse ++
        s.destroyed ∧
      u.call .unlink = (ESP_OK, u) := by
  have hne : es ≠ [] := by
    rintro rfl
    simp at h2
  -- nothing is linked, so linking is the loop over the tags
  have hlink : s.audioPipelineLink tags = linkLoop getElItemByTag s true tags := by
    rw [audioPipelineLink, unlink_of_not_linked hlinked]
  have hfirst : if true then 2 ≤ es.length else s.linkedRb.isSome := by simpa using h2
  have hcore : (s.audioPipelineLink tags).2.core = (s.wire none es).core := by
    rw [hlink] at hok ⊢
    exact linkLoop_wire lookup_tag hn hfirst hok
  generalize ht : (s.audioPipelineLink tags).2 = t at hcore
  have hw : Wired s t none es := (wired s none hne hd).core hcore
  -- the link changes ports only, and those of its own elements
  have hels : t.els = (s.wire none es).els := show t.core.els = _ by rw [hcore]; rfl
  have hsides : ∀ e, ∃ input output, t.els e = { s.els e with input := input, output := output } :=
    fun e => by rw [hels]; exact wire_sides es s none e
  have hreg : ∀ e ∈ es, (s.els e).Free := fun e he => hfree e (hn.registered lookup_tag he)
  have hl : t.linked = true := hw.linked
  obtain ⟨hrb, hends⟩ := unlink_ends hl
  refine ⟨t, t.audioPipelineUnlink, ?_, rfl, fun e he => ?_, ?_, hends.trans hlinked.symm, hrb,
    hw.ringbufs, hw.nextRb, ?_, ?_⟩
  · show s.audioPipelineLink tags = _
    rw [← hok, ← ht]
  · rw [unlink_els hl]
    by_cases hmem : e ∈ es
    · have hcleared := hw.cleared h2 hsides hreg hin hout hmem
      have hcut : t.Cut e := by
        left
        rw [mem_linkedEls]
        obtain ⟨item, hi, rfl⟩ :=
          List.mem_map.mp (of_decide_eq_true (hn.registered lookup_tag hmem))
        refine ⟨{ item with linked := true, keptCtx := false }, ?_, rfl, rfl⟩
        rw [hw.flags]
        exact List.mem_map.mpr ⟨item, hi, if_pos hmem⟩
      rw [if_pos hcut, hcleared]
    · rw [hw.frame e hmem]
      split_ifs with hcut
      · -- an element outside the list that unlinking finds is one of the pipeline
        refine LinkEl.Free.cleared (hfree e ?_)
        rcases hcut with hcut | hcut
        · obtain ⟨item, hi, -, rfl⟩ := mem_linkedEls.mp hcut
          have hkeep : t.elList.items.map ElementItem.el = s.elList.items.map ElementItem.el := by
            rw [hw.flags, List.map_map]
            refine List.map_congr_left fun item _ => ?_
            simp only [Function.comp_apply]
            split_ifs <;> rfl
          refine decide_eq_true ?_
          rw [← hkeep]
          exact List.mem_map_of_mem hi
        · rcases hw.hosts hcut with hhost | hin
          · rcases he with he | he
            · exact he
            · exact absurd hhost he
          · exact absurd hin hmem
      · rfl
  · rw [unlink_items hl, hw.flags, List.map_map]
    refine List.map_congr_left fun item _ => ?_
    simp only [Function.comp_apply]
    by_cases hmem : item.el ∈ es
    · simp [hmem, ElementItem.unlinked]
    · simp [hmem]
  · rw [unlink_destroyed hl, hw.ringbufs, List.reverse_append]
    have hdest : t.destroyed = s.destroyed := by
      have hwire := wire_destroyed es s none
      show t.core.destroyed = _
      rw [hcore]
      exact hwire
    rw [hdest]
  · show (ESP_OK, t.audioPipelineUnlink.audioPipelineUnlink) = _
    rw [unlink_of_not_linked hends]

/-- No element of the pair has a callback or a ring buffer. -/
theorem pair_sides (e : ℕ) : (pair.els e).input = .rb none ∧ (pair.els e).output = .rb none := by
  rcases e with _ | _ | _ | e
  · exact ⟨rfl, rfl⟩
  · exact ⟨rfl, rfl⟩
  · exact ⟨rfl, rfl⟩
  · exact ⟨rfl, rfl⟩

theorem pair_free (e : ℕ) : (pair.els e).Free := by
  obtain ⟨hin, hout⟩ := pair_sides e
  rw [LinkEl.Free, hin, hout]
  exact ⟨rfl, rfl⟩

/-- Two elements that read and write no ring buffer are linked and unlinked. -/
theorem link_unlink_pair :
    ∃ t u, pair.call (.link [['a'], ['b']]) = (ESP_OK, t) ∧ t.call .unlink = (ESP_OK, u) ∧
      (t.els 1).output = .rb (some 0) ∧ (t.els 2).input = .rb (some 0) ∧
      u.els 1 = pair.els 1 ∧ u.els 2 = pair.els 2 ∧ u.elList.items = pair.elList.items ∧
      u.destroyed = [0] := by
  obtain ⟨t, u, ht, hu, hels, hitems, -, -, -, -, hdest, -⟩ := link_unlink pair rfl pair_names
    (by decide) (by decide) (fun e _ => pair_free e) (fun e _ => ⟨none, (pair_sides e).1⟩)
    (fun e _ => ⟨none, (pair_sides e).2⟩) (by decide)
  have ht' : t = (pair.call (.link [['a'], ['b']])).2 := by rw [ht]
  refine ⟨t, u, ht, hu, ?_, ?_, hels 1 (Or.inl (by decide)), hels 2 (Or.inl (by decide)), ?_, ?_⟩
  · rw [ht']
    decide
  · rw [ht']
    decide
  · rw [hitems]
    decide
  · rw [hdest]
    decide

/-- The pair, and element `3`, registered by `audio_pipeline_register_more`. -/
def pairMore : Links := (pair.audioPipelineRegisterMore [3]).2

/-- Element `3` is marked as linked before the pair is linked, and not after the pair is unlinked,
though it has no ring buffer and is not named in the link. -/
theorem unlink_loses_mark :
    pairMore.linked = false ∧ Names getElItemByTag pairMore [['a'], ['b']] [1, 2] ∧
      (∀ e, (pairMore.els e).input = .rb none ∧ (pairMore.els e).output = .rb none) ∧
      ∃ t u, pairMore.call (.link [['a'], ['b']]) = (ESP_OK, t) ∧
        t.call .unlink = (ESP_OK, u) ∧
        (⟨3, true, false⟩ : ElementItem) ∈ pairMore.elList.items ∧
        (⟨3, true, false⟩ : ElementItem) ∉ u.elList.items ∧
        (⟨3, false, false⟩ : ElementItem) ∈ u.elList.items := by
  refine ⟨rfl, .cons (by decide) (.cons (by decide) .nil), pair_sides, ?_⟩
  have hok : (pairMore.call (.link [['a'], ['b']])).1 = ESP_OK := by decide
  refine ⟨_, _, by rw [← hok], rfl, by decide, by decide, by decide⟩

end Links

end AudioPipeline
