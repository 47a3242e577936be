import AudioPipeline.Pipeline.Equiv.Dangling

/-!
## The marks of `rb_list`

`audio_pipeline_el_item_link` finds the ring buffer kept for an element under the element's name
(`host_el`), and a free one by its marks; the names of ring buffers that are no longer in use are
cleared while it looks.

* `Assigns`: what the two searches, and creating a ring buffer, do to the list.
* `Tied`: a ring buffer of the list that an element writes to is the first one under its name.
* `breakup_tied`: breaking up keeps that, and afterwards every ring buffer that is in use is kept.
-/

namespace AudioPipeline

/-- The ring buffer is in use, or kept. -/
def RingbufItem.Busy (item : RingbufItem) : Prop := item.linked = true ∨ item.keptCtx = true

instance (item : RingbufItem) : Decidable item.Busy := inferInstanceAs (Decidable (_ ∨ _))

namespace ElList

variable {l : ElList} {el : ℕ} {linked keptCtx : Bool → Bool}

theorem eq_of_el {a b : ElementItem} (ha : a ∈ l.items) (hb : b ∈ l.items)
    (h : a.el = b.el) : a = b := List.inj_on_of_nodup_map l.nodup ha hb h

theorem mem_setFlags_ne {item : ElementItem}
    (h : item.el ≠ el) : item ∈ (l.setFlags el linked keptCtx).items ↔ item ∈ l.items := by
  rw [mem_setFlags]
  constructor
  · rintro ⟨item₀, hi, rfl⟩
    split_ifs at h ⊢ with he
    · exact absurd he h
    · exact hi
  · intro hi
    exact ⟨item, hi, by rw [if_neg h]⟩

/-- The item of the element itself. -/
theorem mem_setFlags_self {item : ElementItem}
    (hi : item ∈ l.items) {item' : ElementItem} (h : item'.el = item.el) :
    item' ∈ (l.setFlags item.el linked keptCtx).items ↔
      item' = { item with linked := linked item.linked, keptCtx := keptCtx item.keptCtx } := by
  rw [mem_setFlags]
  constructor
  · rintro ⟨item₀, hi₀, rfl⟩
    have hel : item₀.el = item.el := by
      split_ifs at h with he
      · exact he
      · exact h
    rw [if_pos hel, eq_of_el hi₀ hi hel]
  · rintro rfl
    exact ⟨item, hi, by rw [if_pos rfl]⟩

end ElList

namespace Links

variable {s s' t : Links} {el : ℕ} {items items' : List RingbufItem} {o : Option ℕ}

/-! ### Searching -/

/-- The first item under the name of the element. -/
def hostItem (el : ℕ) (items : List RingbufItem) : Option RingbufItem :=
  items.find? fun item => item.hostEl = some el

theorem hostItem_cons_self {item : RingbufItem} (h : item.hostEl = some el) :
    hostItem el (item :: items) = some item := by
  simp [hostItem, h]

theorem hostItem_cons_ne {item : RingbufItem} (h : item.hostEl ≠ some el) :
    hostItem el (item :: items) = hostItem el items := by
  simp [hostItem, h]

theorem hostItem_host {item : RingbufItem} (h : hostItem el items = some item) :
    item.hostEl = some el := by
  simpa using List.find?_some h

theorem hostItem_mem {item : RingbufItem} (h : hostItem el items = some item) : item ∈ items :=
  List.mem_of_find?_eq_some h

/-- The element is given the ring buffer `o`, which is the first one under its name from then on;
for the others, only ring buffers that are neither in use nor kept change. -/
structure Assigns (el : ℕ) (items : List RingbufItem) (o : Option ℕ)
    (items' : List RingbufItem) : Prop where
  mine : hostItem el items' = o.map fun rb => ⟨rb, some el, true, false⟩
  others : ∀ e item, e ≠ el → hostItem e items = some item → item.Busy →
    hostItem e items' = some item
  mem : ∀ item ∈ items', item.Busy →
    item ∈ items ∨ o = some item.rb ∧ item.hostEl = some el ∧ item.keptCtx = false

/-- The search for a free ring buffer, if the element has none. -/
theorem takeFree_assigns (h : ∀ item ∈ items, item.Busy → item.hostEl ≠ some el) :
    Assigns el items (takeFree el items).1 (takeFree el items).2 := by
  induction items with
  | nil =>
    exact ⟨rfl, fun e item _ h => absurd h (by simp [hostItem]),
      fun item h => absurd h (by simp [takeFree])⟩
  | cons item items ih =>
    have htail := ih fun i hi => h i (List.mem_cons_of_mem _ hi)
    rw [takeFree]
    split_ifs with hidle hhost
    · -- a free one
      refine ⟨hostItem_cons_self rfl, fun e i he hi hbusy => ?_, fun i hi hbusy => ?_⟩
      · rw [hostItem_cons_ne (by simp [hhost])] at hi
        rw [hostItem_cons_ne (by simpa using Ne.symm he)]
        exact hi
      · rcases List.mem_cons.mp hi with rfl | hi
        · exact Or.inr ⟨rfl, rfl, rfl⟩
        · exact Or.inl (List.mem_cons_of_mem _ hi)
    · -- one that loses its host
      have hnot : ¬item.Busy := by
        rintro (h | h)
        · rw [hidle.1] at h
          exact absurd h (by decide)
        · rw [hidle.2] at h
          exact absurd h (by decide)
      refine ⟨?_, fun e i he hi hbusy => ?_, fun i hi hbusy => ?_⟩
      · rw [hostItem_cons_ne (by simp)]
        exact htail.mine
      · rw [hostItem_cons_ne (by simp)]
        by_cases hie : item.hostEl = some e
        · obtain rfl : item = i := by simpa [hostItem_cons_self hie] using hi
          exact absurd hbusy hnot
        · rw [hostItem_cons_ne hie] at hi
          exact htail.others e i he hi hbusy
      · rcases List.mem_cons.mp hi with rfl | hi
        · exact absurd hbusy hnot
        · exact (htail.mem i hi hbusy).imp_left (List.mem_cons_of_mem _)
    · -- one in use or kept, of another element
      have hbusy₀ : item.Busy := by
        by_contra hno
        simp only [RingbufItem.Busy, not_or, Bool.not_eq_true] at hno
        exact hidle hno
      have hne₀ : item.hostEl ≠ some el := h item (by simp) hbusy₀
      refine ⟨?_, fun e i he hi hbusy => ?_, fun i hi hbusy => ?_⟩
      · rw [hostItem_cons_ne hne₀]
        exact htail.mine
      · by_cases hie : item.hostEl = some e
        · rw [hostItem_cons_self hie] at hi ⊢
          exact hi
        · rw [hostItem_cons_ne hie] at hi ⊢
          exact htail.others e i he hi hbusy
      · rcases List.mem_cons.mp hi with rfl | hi
        · exact Or.inl List.mem_cons_self
        · exact (htail.mem i hi hbusy).imp_left (List.mem_cons_of_mem _)

/-- The search for the ring buffer kept for the element. -/
theorem takeKept_assigns {item : RingbufItem} (h : hostItem el items = some item) :
    (takeKept el items).1 = some item.rb ∧
      Assigns el items (some item.rb) (takeKept el items).2 := by
  induction items with
  | nil => exact absurd h (by simp [hostItem])
  | cons first items ih =>
    rw [takeKept]
    split_ifs with hhost
    · obtain rfl : first = item := by simpa [hostItem_cons_self hhost] using h
      refine ⟨rfl, hostItem_cons_self rfl, fun e i he hi hbusy => ?_, fun i hi hbusy => ?_⟩
      · have hne : ¬(some el = some e) := by simpa using Ne.symm he
        rw [hostItem_cons_ne (by rw [hhost]; exact hne)] at hi
        rw [hostItem_cons_ne hne]
        exact hi
      · rcases List.mem_cons.mp hi with rfl | hi
        · exact Or.inr ⟨rfl, rfl, rfl⟩
        · exact Or.inl (List.mem_cons_of_mem _ hi)
    · rw [hostItem_cons_ne hhost] at h
      obtain ⟨hfound, htail⟩ := ih h
      refine ⟨hfound, ?_, fun e i he hi hbusy => ?_, fun i hi hbusy => ?_⟩
      · rw [hostItem_cons_ne hhost]
        exact htail.mine
      · by_cases hie : first.hostEl = some e
        · rw [hostItem_cons_self hie] at hi ⊢
          exact hi
        · rw [hostItem_cons_ne hie] at hi ⊢
          exact htail.others e i he hi hbusy
      · rcases List.mem_cons.mp hi with rfl | hi
        · exact Or.inl List.mem_cons_self
        · exact (htail.mem i hi hbusy).imp_left (List.mem_cons_of_mem _)

/-- A new ring buffer, if there is none under the name of the element. -/
theorem append_assigns (h : hostItem el items = none) (rb : ℕ) :
    Assigns el items (some rb) (items ++ [⟨rb, some el, true, false⟩]) where
  mine := by
    unfold hostItem at h ⊢
    rw [List.find?_append, h]
    simp
  others e item he hi _ := by
    unfold hostItem at hi ⊢
    rw [List.find?_append, hi]
    rfl
  mem item hi _ := by
    rcases List.mem_append.mp hi with hi | hi
    · exact Or.inl hi
    · rw [List.mem_singleton.mp hi]
      exact Or.inr ⟨rfl, rfl, rfl⟩

/-- A search that finds nothing, and then `o`. -/
theorem Assigns.trans {items'' : List RingbufItem} (h : Assigns el items none items')
    (h' : Assigns el items' o items'') : Assigns el items o items'' where
  mine := h'.mine
  others e item he hi hbusy := h'.others e item he (h.others e item he hi hbusy) hbusy
  mem item hi hbusy := by
    rcases h'.mem item hi hbusy with hi | hnew
    · rcases h.mem item hi hbusy with hi | ⟨hnone, -⟩
      · exact Or.inl hi
      · exact absurd hnone (by simp)
    · exact Or.inr hnew

/-! ### The names of the ring buffers in use -/

/-- A ring buffer of `rb_list` that an element writes to is the first one under its name, and in use
or kept; the element is linked or kept.  The kept elements are the hosts of the kept ring
buffers. -/
structure Tied (s : Links) : Prop where
  nodup : s.ringbufs.Nodup
  live : ∀ r ∈ s.ringbufs, s.Live r
  created : ∀ r ∈ s.destroyed, r < s.nextRb
  held : ∀ e r, (s.els e).output = .rb (some r) → r < s.nextRb
  excl : ∀ item ∈ s.elList.items, item.linked = true → item.keptCtx = false
  out : ∀ e r, (s.els e).output = .rb (some r) → r ∈ s.ringbufs →
    (∃ ring, hostItem e s.rbList = some ring ∧ ring.rb = r ∧ ring.Busy) ∧
      ∃ item ∈ s.elList.items, item.el = e ∧ (item.linked = true ∨ item.keptCtx = true)
  keptEl : ∀ item ∈ s.elList.items, item.keptCtx = true →
    ∃ ring, hostItem item.el s.rbList = some ring ∧ ring.keptCtx = true ∧
      (s.els item.el).output = .rb (some ring.rb)
  keptRb : ∀ ring ∈ s.rbList, ring.keptCtx = true →
    ∃ item ∈ s.elList.items, item.keptCtx = true ∧ ring.hostEl = some item.el ∧
      (s.els item.el).output = .rb (some ring.rb)

theorem Tied.ring_eq (h : Tied s) {a b : RingbufItem} (ha : a ∈ s.rbList) (hb : b ∈ s.rbList)
    (hr : a.rb = b.rb) : a = b := List.inj_on_of_nodup_map h.nodup ha hb hr

/-- The ring buffer that an element writes to has the element's name. -/
theorem Tied.host (h : Tied s) {e : ℕ} {ring : RingbufItem} (hring : ring ∈ s.rbList)
    (ho : (s.els e).output = .rb (some ring.rb)) : hostItem e s.rbList = some ring := by
  obtain ⟨⟨ring', hhost, hrb, -⟩, -⟩ := h.out e ring.rb ho (List.mem_map_of_mem hring)
  rw [hhost, h.ring_eq (hostItem_mem hhost) hring hrb]

/-- A state in which the same is written. -/
theorem Tied.of_eq (h : Tied s) (hout : ∀ e, (s'.els e).output = (s.els e).output)
    (hlist : s'.elList = s.elList) (hrb : s'.rbList = s.rbList) (hn : s'.nextRb = s.nextRb)
    (hd : s'.destroyed = s.destroyed) : Tied s' where
  nodup := by rw [ringbufs, hrb]; exact h.nodup
  live r hr := by
    rw [ringbufs, hrb] at hr
    rw [Live, hn, hd]
    exact h.live r hr
  created := by rw [hn, hd]; exact h.created
  held := by simp only [hout, hn]; exact h.held
  excl := by rw [hlist]; exact h.excl
  out := by simp only [hout, ringbufs, hrb, hlist]; exact h.out
  keptEl := by simp only [hout, hrb, hlist]; exact h.keptEl
  keptRb := by simp only [hout, hrb, hlist]; exact h.keptRb

/-! ### Breaking up one element -/

/-- One linked element is broken off: it writes to no ring buffer of the list any more, or to one
that is kept now. -/
structure BreaksOff (s : Links) (el : ℕ) (s' : Links) : Prop where
  tied : Tied s'
  ringbufs : s'.ringbufs = s.ringbufs
  output : ∀ e, e ≠ el → (s'.els e).output = (s.els e).output
  mine : ∀ r, (s'.els el).output = .rb (some r) → r ∈ s.ringbufs →
    ∃ ring, hostItem el s'.rbList = some ring ∧ ring.keptCtx = true
  others : ∀ e ring, e ≠ el → hostItem e s.rbList = some ring → ring.keptCtx = true →
    ∃ ring', hostItem e s'.rbList = some ring' ∧ ring'.keptCtx = true
  items : ∀ item ∈ s.elList.items, item.el ≠ el → item ∈ s'.elList.items

/-- An element that is not kept gives up its output; its ring buffer may be given up with it, if it
is the first one of the list. -/
theorem Tied.drop (h : Tied s) {item : ElementItem} (hi : item ∈ s.elList.items)
    (hkept : item.keptCtx = false) (linked : Bool → Bool)
    (hout : ∀ e, e ≠ item.el → (s'.els e).output = (s.els e).output)
    (hmine : ∀ r, (s'.els item.el).output = .rb (some r) →
      (s.els item.el).output = .rb (some r) ∧ r ∉ s.ringbufs)
    (hlist : s'.elList = s.elList.setFlags item.el linked fun _ => false)
    (hrb : s'.rbList = s.rbList ∨ ∃ ring rest, s.rbList = ring :: rest ∧
      s'.rbList = { ring with keptCtx := false, linked := false, hostEl := none } :: rest ∧
        (s.els item.el).output = .rb (some ring.rb))
    (hn : s'.nextRb = s.nextRb) (hd : s'.destroyed = s.destroyed) : BreaksOff s item.el s' := by
  have hrings : s'.ringbufs = s.ringbufs := by
    rcases hrb with hrb | ⟨ring, rest, h₁, h₂, -⟩
    · rw [ringbufs, hrb, ringbufs]
    · rw [ringbufs, h₂, ringbufs, h₁]
      rfl
  -- the other elements find the same ring buffers
  have hhost : ∀ e, e ≠ item.el → hostItem e s'.rbList = hostItem e s.rbList := by
    intro e he
    rcases hrb with hrb | ⟨ring, rest, h₁, h₂, ho⟩
    · rw [hrb]
    · have hring := hostItem_host (h.host (by rw [h₁]; exact List.mem_cons_self) ho)
      rw [h₁, h₂, hostItem_cons_ne (by simp), hostItem_cons_ne]
      rw [hring]
      simpa using Ne.symm he
  have hmem : ∀ ring ∈ s'.rbList, ring.keptCtx = true → ring ∈ s.rbList := by
    intro ring hr hk
    rcases hrb with hrb | ⟨ring', rest, h₁, h₂, -⟩
    · rwa [hrb] at hr
    · rw [h₂] at hr
      rcases List.mem_cons.mp hr with rfl | hr
      · simp at hk
      · rw [h₁]
        exact List.mem_cons_of_mem _ hr
  have hself : ∀ item' ∈ s'.elList.items, item'.el = item.el → item'.keptCtx = false := by
    intro item' hi' he
    rw [hlist, ElList.mem_setFlags_self hi he] at hi'
    rw [hi']
  have hne : ∀ item' ∈ s'.elList.items, item'.keptCtx = true →
      item'.el ≠ item.el ∧ item' ∈ s.elList.items := by
    intro item' hi' hk
    have he : item'.el ≠ item.el := fun he => by simp [hself item' hi' he] at hk
    rw [hlist, ElList.mem_setFlags_ne he] at hi'
    exact ⟨he, hi'⟩
  have hkeep : ∀ item' ∈ s.elList.items, item'.el ≠ item.el → item' ∈ s'.elList.items := by
    intro item' hi' he
    rw [hlist, ElList.mem_setFlags_ne he]
    exact hi'
  have htied : Tied s' := by
    refine ⟨by rw [hrings]; exact h.nodup, ?_, by rw [hn, hd]; exact h.created, ?_, ?_, ?_, ?_, ?_⟩
    · intro r hr
      rw [Live, hn, hd]
      exact h.live r (hrings ▸ hr)
    · intro e r ho
      rw [hn]
      by_cases he : e = item.el
      · subst he
        exact h.held _ r (hmine r ho).1
      · exact h.held e r (by rw [← hout e he]; exact ho)
    · intro item' hi' hl
      by_cases he : item'.el = item.el
      · exact hself item' hi' he
      · rw [hlist, ElList.mem_setFlags_ne he] at hi'
        exact h.excl item' hi' hl
    · intro e r ho hr
      rw [hrings] at hr
      by_cases he : e = item.el
      · subst he
        exact absurd hr (hmine r ho).2
      · rw [hout e he] at ho
        obtain ⟨hring, item', hi', hel, hflag⟩ := h.out e r ho hr
        rw [hhost e he]
        exact ⟨hring, item', hkeep item' hi' (by rw [hel]; exact he), hel, hflag⟩
    · intro item' hi' hk
      obtain ⟨he, hi'⟩ := hne item' hi' hk
      rw [hhost _ he, hout _ he]
      exact h.keptEl item' hi' hk
    · intro ring hr hk
      obtain ⟨item', hi', hk', hh, ho⟩ := h.keptRb ring (hmem ring hr hk) hk
      have he : item'.el ≠ item.el := by
        intro he
        rw [ElList.eq_of_el hi' hi he, hkept] at hk'
        exact absurd hk' (by decide)
      exact ⟨item', hkeep item' hi' he, hk', hh, by rw [hout _ he]; exact ho⟩
  exact ⟨htied, hrings, hout, fun r ho hr => absurd hr (hmine r ho).2,
    fun e ring he hr hk => ⟨ring, by rw [hhost e he]; exact hr, hk⟩, hkeep⟩

/-- The items are rewritten, but not their names. -/
theorem hostItem_map {f : RingbufItem → RingbufItem} (hf : ∀ item, (f item).hostEl = item.hostEl)
    (el : ℕ) (items : List RingbufItem) :
    hostItem el (items.map f) = (hostItem el items).map f := by
  unfold hostItem
  rw [List.find?_map]
  congr 2
  funext item
  rw [Function.comp_apply, hf]

theorem markKept_eq_map {rb : ℕ} (h : (items.map RingbufItem.rb).Nodup) :
    markKept rb items =
      items.map fun item => if item.rb = rb then { item with keptCtx := true } else item := by
  induction items with
  | nil => rfl
  | cons item items ih =>
    rw [List.map_cons, List.nodup_cons] at h
    rw [markKept, List.map_cons]
    split_ifs with hrb
    · congr 1
      -- the others are not this ring buffer
      have hother : ∀ i ∈ items, (if i.rb = rb then { i with keptCtx := true } else i) = i := by
        intro i hi
        rw [if_neg]
        intro heq
        exact h.1 (by rw [hrb, ← heq]; exact List.mem_map_of_mem hi)
      rw [List.map_congr_left hother, List.map_id']
    · rw [ih h.2]

/-- A linked element is kept with its output. -/
theorem Tied.mark (h : Tied s) {item : ElementItem} (hi : item ∈ s.elList.items)
    {ring : RingbufItem}
    (hring : ring ∈ s.rbList) (ho : (s.els item.el).output = .rb (some ring.rb))
    (hels : ∀ e, (s'.els e).output = (s.els e).output)
    (hlist : s'.elList = s.elList.setFlags item.el (fun _ => false) fun _ => true)
    (hrb : s'.rbList = markKept ring.rb s.rbList) (hn : s'.nextRb = s.nextRb)
    (hd : s'.destroyed = s.destroyed) : BreaksOff s item.el s' := by
  rw [markKept_eq_map h.nodup] at hrb
  -- only `kept_ctx` of the item of the output changes
  set f : RingbufItem → RingbufItem :=
    fun i => if i.rb = ring.rb then { i with keptCtx := true } else i with hf
  have hfrb : ∀ i, (f i).rb = i.rb := by
    intro i
    simp only [hf]
    split_ifs <;> rfl
  have hfhost : ∀ i, (f i).hostEl = i.hostEl := by
    intro i
    simp only [hf]
    split_ifs <;> rfl
  have hfkept : ∀ i, i.keptCtx = true → (f i).keptCtx = true := by
    intro i hk
    simp only [hf]
    split_ifs
    · rfl
    · exact hk
  have hflinked : ∀ i, (f i).linked = i.linked := by
    intro i
    simp only [hf]
    split_ifs <;> rfl
  -- so the ring buffers are the same, and each element hosts the same one
  have hrings : s'.ringbufs = s.ringbufs := by
    rw [ringbufs, hrb, List.map_map, ringbufs]
    exact List.map_congr_left fun i _ => hfrb i
  have hhost : ∀ e, hostItem e s'.rbList = (hostItem e s.rbList).map f := by
    intro e
    rw [hrb, hostItem_map hfhost]
  have hmine : hostItem item.el s'.rbList = some { ring with keptCtx := true } := by
    rw [hhost, h.host hring ho, Option.map_some]
    simp [hf]
  have hself : (⟨item.el, false, true⟩ : ElementItem) ∈ s'.elList.items := by
    rw [hlist]
    exact (@ElList.mem_setFlags_self _ (fun _ => false) (fun _ => true) item hi
      ⟨item.el, false, true⟩ rfl).mpr rfl
  have hkeep : ∀ item' ∈ s.elList.items, item'.el ≠ item.el → item' ∈ s'.elList.items := by
    intro item' hi' he
    rw [hlist, ElList.mem_setFlags_ne he]
    exact hi'
  -- what ties elements and items together, for the element and for the others
  have htied : Tied s' := by
    refine ⟨by rw [hrings]; exact h.nodup, ?_, by rw [hn, hd]; exact h.created, ?_, ?_, ?_, ?_, ?_⟩
    · intro r hr
      rw [Live, hn, hd]
      exact h.live r (hrings ▸ hr)
    · simp only [hels, hn]
      exact h.held
    · intro item' hi' hl
      by_cases he : item'.el = item.el
      · rw [hlist, ElList.mem_setFlags_self hi he] at hi'
        rw [hi'] at hl
        exact absurd hl (by simp)
      · rw [hlist, ElList.mem_setFlags_ne he] at hi'
        exact h.excl item' hi' hl
    · intro e r ho' hr
      rw [hels] at ho'
      rw [hrings] at hr
      obtain ⟨⟨ring', hring', hrb', hbusy⟩, item', hi', hel, hflag⟩ := h.out e r ho' hr
      refine ⟨⟨f ring', by rw [hhost, hring', Option.map_some], (hfrb ring').trans hrb', ?_⟩, ?_⟩
      · exact hbusy.imp (fun hl => (hflinked ring').trans hl) (hfkept ring')
      · by_cases he : e = item.el
        · exact ⟨_, hself, he.symm, Or.inr rfl⟩
        · exact ⟨item', hkeep item' hi' (by rw [hel]; exact he), hel, hflag⟩
    · intro item' hi' hk
      rw [hels]
      by_cases he : item'.el = item.el
      · rw [he]
        exact ⟨_, hmine, rfl, ho⟩
      · rw [hlist, ElList.mem_setFlags_ne he] at hi'
        obtain ⟨ring', hring', hk', ho'⟩ := h.keptEl item' hi' hk
        exact ⟨f ring', by rw [hhost, hring', Option.map_some], hfkept ring' hk',
          by rw [hfrb]; exact ho'⟩
    · intro ring' hr' hk'
      rw [hrb] at hr'
      obtain ⟨i, hi₀, rfl⟩ := List.mem_map.mp hr'
      rw [hfhost, hfrb]
      simp only [hels]
      by_cases heq : i.rb = ring.rb
      · obtain rfl := h.ring_eq hi₀ hring heq
        exact ⟨_, hself, rfl, hostItem_host (h.host hring ho), ho⟩
      · have hk : i.keptCtx = true := by simpa [hf, heq] using hk'
        obtain ⟨item', hi', hkept, hh, ho'⟩ := h.keptRb i hi₀ hk
        have he : item'.el ≠ item.el := by
          intro he
          rw [he, ho] at ho'
          exact heq (by simpa using ho'.symm)
        exact ⟨item', hkeep item' hi' he, hkept, hh, ho'⟩
  refine ⟨htied, hrings, fun e _ => hels e, fun r _ _ => ⟨_, hmine, rfl⟩, fun e ring' _ hr hk => ?_,
    hkeep⟩
  exact ⟨f ring', by rw [hhost, hr, Option.map_some], hfkept ring' hk⟩

/-! ### Breaking up -/

theorem ringbuf_eq_some {x : Io} {r : ℕ} : x.ringbuf = some r ↔ x = .rb (some r) := by
  cases x <;> simp [Io.ringbuf]

/-- What `release` does: nothing, if there is no ring buffer at all; the flags are cleared, if the
element has no output; the first ring buffer is given up with it; otherwise the output only. -/
theorem release_cases (s : Links) (el : ℕ) (items : List RingbufItem) :
    (items = [] ∧ s.release el items = (s, [])) ∨
      ((s.els el).output.ringbuf = none ∧ s.release el items =
        ((s.setFlags el (fun _ => false) fun _ => false).audioElementSetInputRingbuf el none,
          items)) ∨
      (∃ ring rest, items = ring :: rest ∧ (s.els el).output.ringbuf = some ring.rb ∧
        s.release el items = ((s.setFlags el (fun _ => false) fun _ => false).detach el,
          { ring with keptCtx := false, linked := false, hostEl := none } :: rest)) ∨
      ((s.els el).output.ringbuf ≠ none ∧ (s.release el items).2 = items ∧
        ((s.release el items).1 = s.detach el ∨ (s.release el items).1 =
          ((s.detach el).setFlags el (fun _ => false) fun _ => false).audioElementSetInputRingbuf el
            none)) := by
  rcases items with _ | ⟨ring, rest⟩
  · exact Or.inl ⟨rfl, rfl⟩
  · right
    rw [release]
    split
    · next h => exact Or.inl ⟨h, rfl⟩
    · next rb h =>
      split_ifs with hrb
      · exact Or.inr (Or.inl ⟨ring, rest, rfl, by rw [h, hrb], rfl⟩)
      · refine Or.inr (Or.inr ⟨by rw [h]; exact Option.some_ne_none rb, ?_⟩)
        -- the element has no output any more
        have hnone : ((s.detach el).els el).output.ringbuf = none := by
          simp only [detach, audioElementSetInputRingbuf, audioElementSetOutputRingbuf, setEl,
            Function.update_self]
          cases (s.els el).output <;> rfl
        rcases rest with _ | ⟨ring', rest⟩
        · exact ⟨rfl, Or.inl rfl⟩
        · rw [release, hnone]
          exact ⟨rfl, Or.inr rfl⟩

theorem setFlags_id {l : ElList} {item : ElementItem} (hi : item ∈ l.items)
    (hkept : item.keptCtx = false) : l.setFlags item.el id (fun _ => false) = l := by
  have hid : l.setFlags item.el id (fun _ => false) = l.setFlags item.el id id := by
    refine l.setFlags_congr item.el fun i hmem he => ⟨rfl, ?_⟩
    rw [ElList.eq_of_el hmem hi he, hkept]
    rfl
  rw [hid]
  ext1
  simp only [ElList.setFlags]
  refine (List.map_congr_left fun i _ => ?_).trans (List.map_id' l.items)
  split_ifs <;> rfl

@[simp] theorem setInput_output (s : Links) (el e : ℕ) (rb : Option ℕ) :
    ((s.audioElementSetInputRingbuf el rb).els e).output = (s.els e).output := by
  by_cases he : e = el
  · subst he
    simp [audioElementSetInputRingbuf, setEl]
  · simp [audioElementSetInputRingbuf, setEl, he]

theorem setOutput_output_ne {e : ℕ} (he : e ≠ el) (s : Links) (rb : Option ℕ) :
    ((s.audioElementSetOutputRingbuf el rb).els e).output = (s.els e).output := by
  simp [audioElementSetOutputRingbuf, setEl, he]

theorem setOutput_none_ne (s : Links) (el r : ℕ) :
    ((s.audioElementSetOutputRingbuf el none).els el).output ≠ .rb (some r) := by
  intro h
  simp only [audioElementSetOutputRingbuf, setEl, Function.update_self] at h
  cases hx : (s.els el).output <;> simp [hx, Io.setRingbuf] at h

/-- An element that is not kept is released. -/
theorem release_breaksOff (h : Tied s) {item : ElementItem} (hi : item ∈ s.elList.items)
    (hl : item.linked = true) :
    BreaksOff s item.el
      { ((s.audioElementResetState item.el).release item.el s.rbList).1 with
        rbList := ((s.audioElementResetState item.el).release item.el s.rbList).2 } := by
  have hkept : item.keptCtx = false := h.excl item hi hl
  have hreset : ∀ e, ((s.audioElementResetState item.el).els e).output = (s.els e).output := by
    intro e
    by_cases he : e = item.el
    · subst he
      simp [audioElementResetState, setEl]
    · simp [audioElementResetState, setEl, he]
  have hid : s.elList = s.elList.setFlags item.el id fun _ => false := (setFlags_id hi hkept).symm
  rcases release_cases (s.audioElementResetState item.el) item.el s.rbList with
    ⟨hnil, hr⟩ | ⟨hnone, hr⟩ | ⟨ring, rest, hcons, hsome, hr⟩ | ⟨hsome, hr, hr'⟩
  · rw [hr]
    refine h.drop hi hkept id (fun e _ => hreset e) (fun r ho => ⟨by rwa [hreset] at ho, ?_⟩) hid
      (Or.inl hnil.symm) rfl rfl
    simp [ringbufs, hnil]
  · rw [hr]
    have hout : ∀ e, ((((s.audioElementResetState item.el).setFlags item.el (fun _ => false) fun _ =>
        false).audioElementSetInputRingbuf item.el none).els e).output = (s.els e).output := by
      intro e
      rw [setInput_output]
      exact hreset e
    refine h.drop hi hkept (fun _ => false) (fun e _ => hout e) (fun r ho => ?_) rfl
      (Or.inl rfl) rfl
      rfl
    -- it has no output
    have ho' : (s.els item.el).output = .rb (some r) := by rw [← hout]; exact ho
    rw [hreset, ho'] at hnone
    exact absurd hnone (by simp [Io.ringbuf])
  · rw [hr]
    rw [hreset] at hsome
    refine h.drop hi hkept (fun _ => false) (fun e he => ?_) (fun r ho => ?_) rfl
      (Or.inr ⟨ring, rest, hcons, rfl, ringbuf_eq_some.mp hsome⟩) rfl rfl
    · show (((Links.detach _ _).els e).output = _)
      rw [detach, setInput_output, setOutput_output_ne he]
      exact hreset e
    · change ((Links.detach _ _).els item.el).output = _ at ho
      rw [detach, setInput_output] at ho
      exact absurd ho (setOutput_none_ne _ item.el r)
  · have hdetach : ∀ e,
        (((s.audioElementResetState item.el).release item.el s.rbList).1.els e).output
        = (((s.audioElementResetState item.el).detach item.el).els e).output := by
      intro e
      rcases hr' with hr' | hr'
      · rw [hr']
      · rw [hr', setInput_output]
        rfl
    have hlist : ∃ linked, ((s.audioElementResetState item.el).release item.el s.rbList).1.elList =
        s.elList.setFlags item.el linked fun _ => false := by
      rcases hr' with hr' | hr'
      · exact ⟨id, by rw [hr']; exact hid⟩
      · exact ⟨fun _ => false, by rw [hr']; rfl⟩
    obtain ⟨linked, hlist⟩ := hlist
    have hrest : ((s.audioElementResetState item.el).release item.el s.rbList).1.nextRb = s.nextRb ∧
        ((s.audioElementResetState item.el).release item.el s.rbList).1.destroyed =
          s.destroyed := by
      rcases hr' with hr' | hr' <;> rw [hr'] <;> exact ⟨rfl, rfl⟩
    refine h.drop hi hkept linked (fun e he => ?_) (fun r ho => ?_) hlist
      (Or.inl hr) hrest.1 hrest.2
    · refine (hdetach e).trans ?_
      rw [detach, setInput_output, setOutput_output_ne he, hreset]
    · have ho' := (hdetach item.el).symm.trans ho
      rw [detach, setInput_output] at ho'
      exact absurd ho' (setOutput_none_ne _ item.el r)

/-- An element that may be kept: it is broken off, unless its output is not in the list. -/
theorem keep_breaksOff (h : Tied s) {item : ElementItem} (hi : item ∈ s.elList.items)
    (hl : item.linked = true) :
    match s.keep item.el with
    | none => ∀ r, (s.els item.el).output = .rb (some r) → r ∉ s.ringbufs
    | some s' => BreaksOff s item.el s' := by
  have hkept : item.keptCtx = false := h.excl item hi hl
  unfold keep
  cases ho : (s.els item.el).output.ringbuf with
  | none =>
    intro r hr
    rw [hr] at ho
    exact absurd ho (by simp [Io.ringbuf])
  | some rb =>
    have hout := ringbuf_eq_some.mp ho
    dsimp only
    split_ifs with hmem hrun
    · obtain ⟨ring, hring, rfl⟩ := List.mem_map.mp hmem
      exact h.mark hi hring hout (fun e => setInput_output _ _ _ _) rfl rfl rfl rfl
    · -- neither running nor paused: it loses its output
      have hcongr : s.elList.setFlags item.el (fun _ => false) id =
          s.elList.setFlags item.el (fun _ => false) fun _ => false := by
        refine s.elList.setFlags_congr item.el fun i hmem he => ⟨rfl, ?_⟩
        rw [ElList.eq_of_el hmem hi he, hkept]
        rfl
      refine h.drop hi hkept (fun _ => false) (fun e he => ?_) (fun r hr => ?_) hcongr (Or.inl rfl)
        rfl rfl
      · rw [setInput_output, setOutput_output_ne he]
        rfl
      · rw [setInput_output] at hr
        exact absurd hr (setOutput_none_ne _ item.el r)
    · intro r hr hin
      rw [hout] at hr
      obtain rfl : rb = r := by simpa using hr
      exact hmem hin

/-- The elements that write to a ring buffer of the list are kept, or still to be broken off. -/
def Pending (s : Links) (its : List ElementItem) : Prop :=
  ∀ e r, (s.els e).output = .rb (some r) → r ∈ s.ringbufs →
    (∃ ring, hostItem e s.rbList = some ring ∧ ring.keptCtx = true) ∨
      ∃ item ∈ its, item.el = e ∧ item.linked = true

theorem BreaksOff.pending {item : ElementItem} {its : List ElementItem} (h : BreaksOff s item.el s')
    (hp : Pending s (item :: its)) : Pending s' its := by
  intro e r ho hr
  rw [h.ringbufs] at hr
  by_cases he : e = item.el
  · subst he
    exact Or.inl (h.mine r ho hr)
  · rw [h.output e he] at ho
    rcases hp e r ho hr with ⟨ring, hring, hk⟩ | ⟨item', hi', hel, hl⟩
    · exact Or.inl (h.others e ring he hring hk)
    · rcases List.mem_cons.mp hi' with rfl | hi'
      · exact absurd hel.symm he
      · exact Or.inr ⟨item', hi', hel, hl⟩

theorem breakupElements_tied (keptCtxEl : Option ℕ) (its : List ElementItem) (kept : Bool)
    (h : Tied s) (hits : ∀ item ∈ its, item ∈ s.elList.items)
    (hnodup : (its.map ElementItem.el).Nodup) (hp : Pending s its) :
    Tied (s.breakupElements keptCtxEl kept its) ∧
      Pending (s.breakupElements keptCtxEl kept its) [] := by
  induction its generalizing s kept with
  | nil => exact ⟨h, hp⟩
  | cons item its ih =>
    have hi : item ∈ s.elList.items := hits item (by simp)
    have hrest : ∀ item' ∈ its, item' ∈ s.elList.items := fun i hm => hits i (by simp [hm])
    rw [List.map_cons, List.nodup_cons] at hnodup
    obtain ⟨hnot, hnodup⟩ := hnodup
    -- the loop goes on with the other elements, whose items have not changed
    have hnext : ∀ s', BreaksOff s item.el s' → ∀ item' ∈ its, item' ∈ s'.elList.items :=
      fun s' hb i hm => hb.items i (hrest i hm) fun he => hnot (he ▸ List.mem_map_of_mem hm)
    rw [breakupElements]
    split_ifs with hl hk
    · have hb := release_breaksOff h hi hl
      exact ih kept hb.tied (hnext _ hb) hnodup (hb.pending hp)
    · have hb := keep_breaksOff h hi hl
      cases hkeep : s.keep item.el with
      | none =>
        rw [hkeep] at hb
        refine ih kept h hrest hnodup fun e r ho hr => ?_
        rcases hp e r ho hr with hring | ⟨item', hi', rfl, hl'⟩
        · exact Or.inl hring
        · rcases List.mem_cons.mp hi' with rfl | hi'
          · exact absurd hr (hb r ho)
          · exact Or.inr ⟨item', hi', rfl, hl'⟩
      | some s' =>
        rw [hkeep] at hb
        exact ih false hb.tied (hnext _ hb) hnodup (hb.pending hp)
    · refine ih kept h hrest hnodup fun e r ho hr => ?_
      rcases hp e r ho hr with hring | ⟨item', hi', hel, hl'⟩
      · exact Or.inl hring
      · rcases List.mem_cons.mp hi' with rfl | hi'
        · exact absurd hl' hl
        · exact Or.inr ⟨item', hi', hel, hl'⟩

/-- The loops of breaking up write no ring buffer, leave the listener and its events alone and keep
every element registered. -/
structure SameRest (s s' : Links) : Prop where
  els : s'.elList.items.map ElementItem.el = s.elList.items.map ElementItem.el
  rings : s'.rings = s.rings
  events : s'.events = s.events
  listener : s'.listener = s.listener

theorem SameRest.trans (h : SameRest s s') (h' : SameRest s' t) : SameRest s t :=
  ⟨h'.els.trans h.els, h'.rings.trans h.rings, h'.events.trans h.events,
    h'.listener.trans h.listener⟩

theorem release_sameRest (el : ℕ) (items : List RingbufItem) (s : Links) :
    SameRest s (s.release el items).1 := by
  have hflags := s.elList.setFlags_els el (fun _ => false) fun _ => false
  induction items generalizing s with
  | nil => exact ⟨rfl, rfl, rfl, rfl⟩
  | cons item items ih =>
    rw [release]
    split
    · exact ⟨hflags, rfl, rfl, rfl⟩
    · split_ifs
      · exact ⟨hflags, rfl, rfl, rfl⟩
      · have hdetach : SameRest s (s.detach el) := ⟨rfl, rfl, rfl, rfl⟩
        exact hdetach.trans (ih (s.detach el) hflags)

theorem keep_sameRest {el : ℕ} (h : s.keep el = some s') : SameRest s s' := by
  unfold keep at h
  split at h
  · exact absurd h (by simp)
  · split_ifs at h
    · obtain rfl := Option.some.inj h
      exact ⟨s.elList.setFlags_els el (fun _ => false) fun _ => true, rfl, rfl, rfl⟩
    · obtain rfl := Option.some.inj h
      exact ⟨s.elList.setFlags_els el (fun _ => false) id, rfl, rfl, rfl⟩

theorem breakupElements_sameRest (keptCtxEl : Option ℕ) (its : List ElementItem) (kept : Bool)
    (s : Links) : SameRest s (s.breakupElements keptCtxEl kept its) := by
  induction its generalizing s kept with
  | nil => exact ⟨rfl, rfl, rfl, rfl⟩
  | cons item its ih =>
    rw [breakupElements]
    split_ifs
    · have hrel := release_sameRest item.el s.rbList (s.audioElementResetState item.el)
      have hreset : SameRest s (s.audioElementResetState item.el) := ⟨rfl, rfl, rfl, rfl⟩
      have hone := hreset.trans hrel
      have hall : SameRest s { ((s.audioElementResetState item.el).release item.el s.rbList).1 with
          rbList := ((s.audioElementResetState item.el).release item.el s.rbList).2 } :=
        ⟨hone.els, hone.rings, hone.events, hone.listener⟩
      exact hall.trans (ih kept _)
    · cases hkeep : s.keep item.el with
      | none => exact ih kept s
      | some s' => exact (keep_sameRest hkeep).trans (ih false s')
    · exact ih kept s

/-- The last loop: every ring buffer that is not kept is reset, and free. -/
theorem resetRingbufs_spec (items : List RingbufItem) (s : Links) :
    (s.resetRingbufs items).2 =
        items.map (fun item => if item.keptCtx then item else { item with linked := false }) ∧
      ∀ r, (∀ item ∈ items, item.rb = r → item.keptCtx = true) →
        (s.resetRingbufs items).1 r = s.rings r := by
  induction items generalizing s with
  | nil => exact ⟨rfl, fun _ _ => rfl⟩
  | cons item items ih =>
    rw [resetRingbufs]
    split_ifs with hk
    · obtain ⟨hlist, hrings⟩ := ih s
      dsimp only
      refine ⟨by rw [hlist, List.map_cons, if_pos hk], fun r h => hrings r fun i hi => h i ?_⟩
      exact List.mem_cons_of_mem _ hi
    · obtain ⟨hlist, hrings⟩ := ih
        { s with rings := Function.update s.rings item.rb (rbReset (s.rings item.rb)) }
      dsimp only
      refine ⟨by rw [hlist, List.map_cons, if_neg hk], fun r h => ?_⟩
      have hne : r ≠ item.rb := fun hr => hk (h item (by simp) hr.symm)
      rw [hrings r fun i hi => h i (List.mem_cons_of_mem _ hi)]
      exact Function.update_of_ne hne _ _

/-- Every ring buffer is kept or free. -/
def Broken (s : Links) : Prop := ∀ ring ∈ s.rbList, ring.keptCtx = true ∨ ring.linked = false

/-- Breaking up leaves every ring buffer kept or free, and the kept ones as they are. -/
theorem breakup_tied (h : Tied s) (keptCtxEl : Option ℕ)
    (ht : (s.audioPipelineBreakupElements keptCtxEl).2 = t) :
    Tied t ∧ Broken t ∧ t.linked = false ∧
      ∀ ring ∈ t.rbList, ring.keptCtx = true → t.rings ring.rb = s.rings ring.rb := by
  subst ht
  obtain ⟨events, listener, hrem⟩ := s.removeListener_eq
  have h₁ : Tied s.audioPipelineRemoveListener.2 := by
    rw [hrem]
    exact h.of_eq (fun _ => rfl) rfl rfl rfl rfl
  have hrings₁ : s.audioPipelineRemoveListener.2.rings = s.rings := by rw [hrem]
  have hp : Pending s.audioPipelineRemoveListener.2
      s.audioPipelineRemoveListener.2.elList.items := by
    intro e r ho hr
    obtain ⟨⟨ring, hring, -, -⟩, item, hi, rfl, hflag⟩ := h₁.out e r ho hr
    rcases hflag with hl | hk
    · exact Or.inr ⟨item, hi, rfl, hl⟩
    · obtain ⟨ring', hring', hk', -⟩ := h₁.keptEl item hi hk
      exact Or.inl ⟨ring', hring', hk'⟩
  obtain ⟨h₂, hp₂⟩ :=
    breakupElements_tied keptCtxEl s.audioPipelineRemoveListener.2.elList.items true
    h₁ (fun _ hi => hi) s.audioPipelineRemoveListener.2.elList.nodup hp
  have hrings₂ := (breakupElements_sameRest keptCtxEl s.audioPipelineRemoveListener.2.elList.items
    true s.audioPipelineRemoveListener.2).rings
  unfold audioPipelineBreakupElements
  dsimp only
  generalize s.audioPipelineRemoveListener.2.breakupElements keptCtxEl true
    s.audioPipelineRemoveListener.2.elList.items = s₂ at h₂ hp₂ hrings₂ ⊢
  obtain ⟨hlist, hrings₃⟩ := resetRingbufs_spec s₂.rbList s₂
  set f : RingbufItem → RingbufItem :=
    fun item => if item.keptCtx then item else { item with linked := false } with hf
  have hfrb : ∀ i, (f i).rb = i.rb ∧ (f i).hostEl = i.hostEl ∧ (f i).keptCtx = i.keptCtx := by
    intro i
    simp only [hf]
    split_ifs <;> exact ⟨rfl, rfl, rfl⟩
  have hfkept : ∀ i, i.keptCtx = true → f i = i := by
    intro i hk
    simp only [hf, hk, if_true]
  have hmem : ∀ ring ∈ s₂.rbList.map f, ring.keptCtx = true → ring ∈ s₂.rbList := by
    intro ring hr hk
    obtain ⟨i, hi, rfl⟩ := List.mem_map.mp hr
    rwa [hfkept i ((hfrb i).2.2 ▸ hk)]
  have hrb : (s₂.rbList.map f).map RingbufItem.rb = s₂.ringbufs := by
    rw [List.map_map]
    exact List.map_congr_left fun i _ => (hfrb i).1
  have hhost : ∀ e ring, hostItem e s₂.rbList = some ring → ring.keptCtx = true →
      hostItem e (s₂.rbList.map f) = some ring := by
    intro e ring hr hk
    rw [hostItem_map (fun i => (hfrb i).2.1), hr, Option.map_some, hfkept ring hk]
  rw [hlist]
  refine ⟨⟨?_, ?_, h₂.created, h₂.held, h₂.excl, ?_, ?_, ?_⟩, ?_, rfl, ?_⟩
  · show ((s₂.rbList.map f).map RingbufItem.rb).Nodup
    rw [hrb]
    exact h₂.nodup
  · intro r hr
    change r ∈ (s₂.rbList.map f).map RingbufItem.rb at hr
    exact h₂.live r (hrb ▸ hr)
  · intro e r ho hr
    change r ∈ (s₂.rbList.map f).map RingbufItem.rb at hr
    rw [hrb] at hr
    obtain ⟨⟨ring, hring, hrbr, -⟩, hitem⟩ := h₂.out e r ho hr
    -- all that is left is kept
    rcases hp₂ e r ho hr with ⟨ring', hring', hk⟩ | ⟨item, hi, -⟩
    · obtain rfl : ring = ring' := by
        rw [hring] at hring'
        exact Option.some.inj hring'
      exact ⟨⟨ring, hhost e ring hring hk, hrbr, Or.inr hk⟩, hitem⟩
    · exact absurd hi (by simp)
  · intro item hi hk
    obtain ⟨ring, hring, hk', ho⟩ := h₂.keptEl item hi hk
    exact ⟨ring, hhost item.el ring hring hk', hk', ho⟩
  · intro ring hr hk
    exact h₂.keptRb ring (hmem ring hr hk) hk
  · intro ring hr
    obtain ⟨i, -, rfl⟩ := List.mem_map.mp hr
    simp only [hf]
    split_ifs with hk
    · exact Or.inl hk
    · exact Or.inr rfl
  · intro ring hr hk
    have hin := hmem ring hr hk
    show (s₂.resetRingbufs s₂.rbList).1 ring.rb = s.rings ring.rb
    rw [hrings₃ ring.rb fun i hi hrbi => by rw [h₂.ring_eq hi hin hrbi]; exact hk, hrings₂, hrings₁]

end Links

end AudioPipeline
