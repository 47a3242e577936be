import AudioPipeline.Pipeline.Equiv.Wire

/-!
## The linkers of a pipeline

* `wired`: the wiring that `wire` builds, element by element.
* `linkers_agree`: the four linkers do the same to an unlinked pipeline that has nothing linked,
  kept or left over; `linkers_disagree`: two of them refuse a pipeline that counts as linked, and
  a tag may belong to an element registered before.
* `link_frame_iff`: a successful `audio_pipeline_link` or `audio_pipeline_link_more` attaches only
  what it creates, unless a single element takes the ring buffer an earlier call has left in the
  static variable (`link_leaks`).
-/

namespace AudioPipeline

namespace Links

variable {s s' : Links}

/-! ### The wiring -/

/-- `s'` is `s` with the elements chained: the first reads from `inp`, if there is one, and each
but the last writes to the ring buffer that the next one reads. -/
structure Wired (s s' : Links) (inp : Option ℕ) (es : List ℕ) : Prop where
  head : ∀ e, es.head? = some e → (s'.els e).input = (withInput (s.els e) inp).input
  last : ∀ e, es.getLast? = some e → (s'.els e).output = (s.els e).output
  next : ∀ i e e', es[i]? = some e → es[i + 1]? = some e' →
    (s'.els e).output = .rb (some (s.nextRb + i)) ∧ (s'.els e').input = .rb (some (s.nextRb + i))
  frame : ∀ e, e ∉ es → s'.els e = s.els e
  flags : s'.elList.items = s.elList.items.map fun item =>
    if item.el ∈ es then { item with linked := true, keptCtx := false } else item
  nextRb : s'.nextRb = s.nextRb + (es.length - 1)
  rbList : s'.rbList = s.rbList ++
    es.dropLast.mapIdx fun i e => ⟨s.nextRb + i, some e, true, false⟩
  rings : ∀ r, r < s.nextRb → s'.rings r = s.rings r
  linked : s'.linked = true

theorem wired_one (s : Links) (inp : Option ℕ) (el : ℕ) : Wired s (s.wire inp [el]) inp [el] where
  head e he := by
    obtain rfl : el = e := by simpa using he
    simp [wire]
  last e he := by
    obtain rfl : el = e := by simpa using he
    simp [wire, withInput]
  next i e e' _ he' := by simp at he'
  frame e he := by
    have hne : e ≠ el := by simpa using he
    simp [wire, hne]
  flags := by simp [wire, ElList.setFlags]
  nextRb := by simp [wire]
  rbList := by simp [wire]
  rings _ _ := rfl
  linked := rfl

/-- One element is wired, and the others after it. -/
theorem Wired.cons {inp : Option ℕ} {el el' : ℕ} {es : List ℕ} (hel : el ∉ el' :: es)
    (h : Wired (s.wireOne inp el) s' (some s.nextRb) (el' :: es)) :
    Wired s s' inp (el :: el' :: es) where
  head e he := by
    obtain rfl : el = e := by simpa using he
    rw [h.frame el hel]
    simp [wireOne, withInput]
  last e he := by
    have hlast : (el' :: es).getLast? = some e := by simpa [List.getLast?_cons_cons] using he
    have hne : e ≠ el := fun h => hel (h ▸ List.mem_of_getLast? hlast)
    rw [h.last e hlast]
    simp [wireOne, hne]
  next i e e' he he' := by
    cases i with
    -- the first ring joins the element in front to the head of the list
    | zero =>
      obtain rfl : el = e := by simpa using he
      obtain rfl : el' = e' := by simpa using he'
      refine ⟨?_, ?_⟩
      · rw [h.frame el hel]
        simp [wireOne]
      · rw [h.head el' rfl]
        simp [withInput]
    | succ i =>
      -- any other one is a ring of the tail, whose numbers start one later
      have hn := h.next i e e' (by simpa using he) (by simpa using he')
      rwa [show (s.wireOne inp el).nextRb + i = s.nextRb + (i + 1) by simp [wireOne]; omega] at hn
  frame e he := by
    have hne : e ≠ el := fun h => he (by simp [h])
    rw [h.frame e fun hm => he (List.mem_cons_of_mem _ hm)]
    simp [wireOne, hne]
  flags := by
    rw [h.flags]
    simp only [wireOne, ElList.setFlags, List.map_map]
    refine List.map_congr_left fun item _ => ?_
    by_cases hi : item.el = el
    · simp [hi]
    · simp [hi]
  nextRb := by
    rw [h.nextRb]
    simp [wireOne]
    omega
  rbList := by
    rw [h.rbList, List.dropLast_cons_of_ne_nil (List.cons_ne_nil el' es), List.mapIdx_cons]
    simp [wireOne, Nat.add_assoc, Nat.add_comm 1]
  rings r hr := by
    rw [h.rings r (by simp [wireOne]; omega)]
    simp [wireOne, Nat.ne_of_lt hr]
  linked := h.linked

/-- `wire` builds the wiring. -/
theorem wired : ∀ {es : List ℕ} (s : Links) (inp : Option ℕ), es ≠ [] → es.Nodup →
    Wired s (s.wire inp es) inp es
  | [], _, _, hne, _ => absurd rfl hne
  | [el], s, inp, _, _ => wired_one s inp el
  | el :: el' :: es, s, inp, _, hd => by
    obtain ⟨hel, hd'⟩ := List.nodup_cons.mp hd
    exact (wired (s.wireOne inp el) (some s.nextRb) (List.cons_ne_nil el' es) hd').cons hel

theorem Wired.core {t : Links} {inp : Option ℕ} {es : List ℕ} (h : Wired s s' inp es)
    (ht : t.core = s'.core) : Wired s t inp es := by
  have hels : t.els = s'.els := show t.core.els = s'.core.els by rw [ht]
  have hlist : t.elList = s'.elList := show t.core.elList = s'.core.elList by rw [ht]
  have hnext : t.nextRb = s'.nextRb := show t.core.nextRb = s'.core.nextRb by rw [ht]
  have hrb : t.rbList = s'.rbList := show t.core.rbList = s'.core.rbList by rw [ht]
  have hrings : t.rings = s'.rings := show t.core.rings = s'.core.rings by rw [ht]
  have hlinked : t.linked = s'.linked := show t.core.linked = s'.core.linked by rw [ht]
  exact
    { head := by rw [hels]; exact h.head
      last := by rw [hels]; exact h.last
      next := by rw [hels]; exact h.next
      frame := by rw [hels]; exact h.frame
      flags := by rw [hlist]; exact h.flags
      nextRb := hnext.trans h.nextRb
      rbList := hrb.trans h.rbList
      rings := by rw [hrings]; exact h.rings
      linked := hlinked.trans h.linked }

/-! ### The four linkers -/

theorem unlink_of_not_linked (h : s.linked = false) : s.audioPipelineUnlink = s := by
  rw [audioPipelineUnlink, h]
  rfl

/-- A handle finds the item of its element. -/
theorem names_handle {es : List ℕ} (h : ∀ e ∈ es, s.elList.has e = true) :
    Names getElItemByHandle s es es := by
  refine List.forall₂_same.mpr fun e he => ?_
  obtain ⟨item, hi, rfl⟩ := List.mem_map.mp (of_decide_eq_true (h e he))
  have hfound : (getElItemByHandle s item.el).isSome := by
    rw [getElItemByHandle, List.find?_isSome]
    exact ⟨item, hi, by simp⟩
  obtain ⟨item', hitem'⟩ := Option.isSome_iff_exists.mp hfound
  have hel : item'.el = item.el := by simpa using List.find?_some hitem'
  simp [hitem', hel]

theorem Names.registered {κ : Type*} {find : Links → κ → Option ElementItem} (hf : Lookup find)
    {ks : List κ} {es : List ℕ} (h : Names find s ks es) {e : ℕ} (he : e ∈ es) :
    s.elList.has e = true := by
  induction h with
  | nil => simp at he
  | cons hk _ ih =>
    rcases List.mem_cons.mp he with rfl | he
    · obtain ⟨item, hitem, rfl⟩ := Option.map_eq_some_iff.mp hk
      exact decide_eq_true (List.mem_map_of_mem (hf.mem hitem))
    · exact ih he

/-- The pipeline is not linked, no element of it is linked or kept, and it has no ring buffers. -/
structure Unused (s : Links) : Prop where
  linked : s.linked = false
  items : ∀ item ∈ s.elList.items, item.linked = false ∧ item.keptCtx = false
  rbList : s.rbList = []

theorem Unused.noReuse (h : Unused s) : NoReuse s where
  kept item hi := (h.items item hi).2
  used item hi := by simp [h.rbList] at hi

/-- What `linkers_agree` says of each linker: it returns `ESP_OK`, links the elements and no
others, and wires them. -/
structure LinksAll (s : Links) (es : List ℕ) (r : ℤ × Links) : Prop where
  ok : r.1 = ESP_OK
  core : r.2.core = (s.wire none es).core
  wired : Wired s r.2 none es
  only : ∀ item ∈ r.2.elList.items, item.linked = true ↔ item.el ∈ es

theorem LinksAll.of_core {es : List ℕ} {r : ℤ × Links} (h : Unused s) (hne : es ≠ [])
    (hd : es.Nodup) (hok : r.1 = ESP_OK) (hcore : r.2.core = (s.wire none es).core) :
    LinksAll s es r := by
  have hw : Wired s r.2 none es := (Links.wired s none hne hd).core hcore
  refine ⟨hok, hcore, hw, fun item hi => ?_⟩
  rw [hw.flags] at hi
  obtain ⟨item₀, hi₀, rfl⟩ := List.mem_map.mp hi
  split_ifs with he
  · simpa using he
  · simp [(h.items item₀ hi₀).1, he]

/-- The loop of `audio_pipeline_link`, on a pipeline that has nothing. -/
theorem linkLoop_all {κ : Type} {find : Links → κ → Option ElementItem} {ks : List κ} {es : List ℕ}
    (hf : Lookup find) (h : Unused s) (hn : Names find s ks es) (hd : es.Nodup)
    (h2 : 2 ≤ es.length) (ha : s.Allocates (es.length - 1))
    (hsize : ∀ e ∈ es.dropLast, Sized (s.els e)) : LinksAll s es (linkLoop find s true ks) := by
  have hne : es ≠ [] := by
    rintro rfl
    simp at h2
  have hfirst : if true then 2 ≤ es.length else s.linkedRb.isSome := by simpa using h2
  have hok := linkLoop_ok hf hn hfirst ha hsize
  exact .of_core h hne hd hok (linkLoop_wire hf hn hfirst hok)

/-- The loop of `audio_pipeline_relink`, on a pipeline that has nothing. -/
theorem relinkLoop_all {κ : Type} {find : Links → κ → Option ElementItem} {ks : List κ}
    {es : List ℕ} {isFirst : ℕ → Bool} (hf : Lookup find) (h : Unused s) (hn : Names find s ks es)
    (hd : es.Nodup) (h2 : 2 ≤ es.length) (h0 : isFirst 0 = true)
    (hlater : ∀ j, 0 < j → j < es.length → isFirst j = false) (ha : s.Allocates (es.length - 1))
    (hsize : ∀ e ∈ es.dropLast, Sized (s.els e)) :
    LinksAll s es (relinkLoop find isFirst s 0 ks) := by
  have hne : es ≠ [] := by
    rintro rfl
    simp at h2
  have hfirst : if isFirst 0 then 2 ≤ es.length else s.itemRb.isSome := by simpa [h0] using h2
  obtain ⟨hok, hcore⟩ := relinkLoop_wire hf hn h.noReuse hfirst
    (fun j hj hj' => hlater j hj (by omega)) ha hsize
  rw [h0] at hcore
  exact .of_core h hne hd hok hcore

/-- **The linkers agree**: on a pipeline with nothing linked, kept or left over,
`audio_pipeline_link` and `audio_pipeline_relink` on the tags, and `audio_pipeline_link_more` and
`audio_pipeline_relink_more` on the elements those tags find, leave the same state up to the
allocator and the static variables, the elements wired as a chain. -/
theorem linkers_agree (s : Links) (h : Unused s) {tags : List CString} {es : List ℕ}
    (hn : Names getElItemByTag s tags es) (hd : es.Nodup) (h2 : 2 ≤ es.length)
    (hmax : es.length ≤ 2 ^ 16) (ha : s.Allocates (es.length - 1))
    (hsize : ∀ e ∈ es.dropLast, Sized (s.els e)) :
    ∀ r ∈ [s.audioPipelineLink tags, s.audioPipelineLinkMore es, s.audioPipelineRelink tags,
      s.audioPipelineRelinkMore es], LinksAll s es r := by
  have hh : Names getElItemByHandle s es es := names_handle fun e he => hn.registered lookup_tag he
  have hnot : ¬s.linked = true := by simp [h.linked]
  intro r hr
  simp only [List.mem_cons, List.not_mem_nil, or_false] at hr
  rcases hr with rfl | rfl | rfl | rfl
  · rw [audioPipelineLink, unlink_of_not_linked h.linked]
    exact linkLoop_all lookup_tag h hn hd h2 ha hsize
  · rw [audioPipelineLinkMore, unlink_of_not_linked h.linked]
    exact linkLoop_all lookup_handle h hh hd h2 ha hsize
  · rw [audioPipelineRelink, if_neg hnot]
    exact relinkLoop_all lookup_tag h hn hd h2 (by decide)
      (fun j hj _ => by simpa using hj.ne') ha hsize
  · rw [audioPipelineRelinkMore, if_neg hnot]
    refine relinkLoop_all lookup_handle h hh hd h2 (by decide) (fun j hj hj' => ?_) ha hsize
    have : (j + 1) % 2 ^ 16 ≠ 1 := by omega
    simpa using this

/-- Elements `1` and `2`, registered as `a` and `b`. -/
def pair : Links :=
  (((⟨.start, .init⟩ : Links).audioPipelineRegister 1 (some ['a'])).2.audioPipelineRegister 2
    (some ['b'])).2

theorem pair_names : Names getElItemByTag pair [['a'], ['b']] [1, 2] :=
  .cons (by decide) (.cons (by decide) .nil)

theorem linkers_agree_pair :
    LinksAll pair [1, 2] (pair.audioPipelineLink [['a'], ['b']]) ∧
      LinksAll pair [1, 2] (pair.audioPipelineLinkMore [1, 2]) ∧
      LinksAll pair [1, 2] (pair.audioPipelineRelink [['a'], ['b']]) ∧
      LinksAll pair [1, 2] (pair.audioPipelineRelinkMore [1, 2]) := by
  have h := linkers_agree pair ⟨rfl, by decide, rfl⟩ pair_names (by decide) (by decide)
    (by decide) (by decide) (by decide)
  rw [List.forall_mem_cons, List.forall_mem_cons, List.forall_mem_cons,
    List.forall_mem_singleton] at h
  exact h

/-- Element `3` is registered as `A`, and after it the two elements as before. -/
def trio : Links :=
  ((((⟨.start, .init⟩ : Links).audioPipelineRegister 3 (some ['A'])).2.audioPipelineRegister 1
    (some ['a'])).2.audioPipelineRegister 2 (some ['b'])).2

/-- `n` elements, registered and nothing else. -/
def crowd (n : ℕ) : Links where
  toHeap := .start
  elList :=
    { items := (List.range n).map fun e => ⟨e, false, false⟩
      nodup := by
        rw [List.map_map]
        exact (List.map_id _).symm ▸ List.nodup_range }
  rbList := []
  state := .init
  linked := false
  listener := none

theorem crowd_unused (n : ℕ) : Unused (crowd n) where
  linked := rfl
  items item hi := by
    obtain ⟨e, -, rfl⟩ := List.mem_map.mp hi
    exact ⟨rfl, rfl⟩
  rbList := rfl

theorem crowd_names (n : ℕ) : Names getElItemByHandle (crowd n) (List.range n) (List.range n) := by
  refine names_handle fun e he => decide_eq_true ?_
  exact List.mem_map.mpr ⟨⟨e, false, false⟩, List.mem_map.mpr ⟨e, he, rfl⟩, rfl⟩

/-- Where the linkers differ: after `audio_pipeline_link` of no tags the pipeline counts as linked,
and relinking is refused; a tag is the tag of the first element that was registered with it,
whatever the case; and `audio_pipeline_relink_more` takes element number `2 ^ 16` for the first
one, and does not set its input. -/
theorem linkers_disagree :
    (let s := (pair.audioPipelineLink []).2;
      (∀ item ∈ s.elList.items, item.linked = false ∧ item.keptCtx = false) ∧ s.rbList = [] ∧
        (s.audioPipelineLink [['a'], ['b']]).1 = ESP_OK ∧
        (s.audioPipelineRelink [['a'], ['b']]).1 = ESP_FAIL) ∧
      (Unused trio ∧ (trio.els 1).tag = some ['a'] ∧ (trio.els 2).tag = some ['b'] ∧
        ((trio.audioPipelineLink [['a'], ['b']]).2.els 1).output = .rb none ∧
        ((trio.audioPipelineLinkMore [1, 2]).2.els 1).output = .rb (some 0)) ∧
      (let s := crowd (2 ^ 16 + 2);
        let es := List.range (2 ^ 16 + 2);
        Unused s ∧ es.Nodup ∧ (∀ e ∈ es, s.elList.has e = true) ∧ (∀ e, Sized (s.els e)) ∧
          (∃ r, ((s.audioPipelineLinkMore es).2.els (2 ^ 16)).input = .rb (some r)) ∧
          ((s.audioPipelineRelinkMore es).2.els (2 ^ 16)).input = .rb none) := by
  refine ⟨?_, ?_, ?_⟩
  · exact ⟨by decide, rfl, by decide, by decide⟩
  · exact ⟨⟨rfl, by decide, rfl⟩, by decide, by decide, by decide, by decide⟩
  · intro s es
    have hu : Unused s := crowd_unused _
    have hn : Names getElItemByHandle s es es := crowd_names _
    have hd : es.Nodup := List.nodup_range
    have hsize : ∀ e, Sized (s.els e) := fun e =>
      ⟨(by decide : (2 : ℤ) ≤ 8), (by decide : (8 : ℤ) ≤ INT_MAX)⟩
    have hlen : es.length = 2 ^ 16 + 2 := List.length_range
    have hat : ∀ j, j < 2 ^ 16 + 2 → es[j]? = some j := fun j hj => by
      exact List.getElem?_range hj
    have hall := linkLoop_all lookup_handle hu hn hd (by omega) (fun ok hok => absurd hok (by
      simp [s, crowd, Heap.start])) fun e _ => hsize e
    refine ⟨hu, hd, fun e he => hn.registered lookup_handle he, hsize, ?_, ?_⟩
    · rw [audioPipelineLinkMore, unlink_of_not_linked hu.linked]
      exact ⟨_, (hall.wired.next (2 ^ 16 - 1) (2 ^ 16 - 1) (2 ^ 16) (hat _ (by omega))
        (hat _ (by omega))).2⟩
    · rw [audioPipelineRelinkMore, if_neg (by simp [hu.linked])]
      exact relinkLoop_first_input lookup_handle hn hd (hat _ (by omega)) (by omega) (by decide)

/-! ### What a single call attaches -/

/-- A call of `audio_pipeline_link` or `audio_pipeline_link_more`. -/
inductive LinkCall
  | link (linkTag : List CString)
  | linkMore (els : List ℕ)

/-- What the call does. -/
def LinkCall.run (s : Links) : LinkCall → ℤ × Links
  | .link linkTag => s.audioPipelineLink linkTag
  | .linkMore els => s.audioPipelineLinkMore els

/-- The elements that the call names. -/
def LinkCall.Names (s : Links) : LinkCall → List ℕ → Prop
  | .link linkTag, es => Links.Names getElItemByTag s linkTag es
  | .linkMore els, es => Links.Names getElItemByHandle s els es

/-- From `s` to `s'` the elements were chained by ring buffers created on the way, and nothing else
was attached to any element. -/
structure LinkFrame (s s' : Links) (es : List ℕ) : Prop where
  input : ∀ e r, (s'.els e).input = .rb (some r) → (s.els e).input ≠ .rb (some r) →
    s.nextRb ≤ r ∧ r < s'.nextRb
  output : ∀ e r, (s'.els e).output = .rb (some r) → (s.els e).output ≠ .rb (some r) →
    s.nextRb ≤ r ∧ r < s'.nextRb
  shared : ∃ ring : ℕ → ℕ, Function.Injective ring ∧ ∀ i e e', es[i]? = some e →
    es[i + 1]? = some e' →
      (s'.els e).output = .rb (some (ring i)) ∧ (s'.els e').input = .rb (some (ring i))
  created : s'.nextRb = s.nextRb + (es.length - 1)
  head : ∀ e, es.head? = some e → (s'.els e).input = (s.els e).input
  last : ∀ e, es.getLast? = some e → (s'.els e).output = (s.els e).output

/-- An element of a list is the first one or has a predecessor. -/
theorem mem_head_or_succ {es : List ℕ} {e : ℕ} (h : e ∈ es) :
    es.head? = some e ∨ ∃ i e₀, es[i]? = some e₀ ∧ es[i + 1]? = some e := by
  obtain ⟨i, hi, rfl⟩ := List.mem_iff_getElem.mp h
  cases i with
  | zero => exact Or.inl (by simp [List.head?_eq_getElem?, hi])
  | succ i =>
    exact Or.inr ⟨i, es.get ⟨i, by omega⟩, List.getElem?_eq_getElem (by omega),
      List.getElem?_eq_getElem hi⟩

/-- An element of a list is the last one or has a successor. -/
theorem mem_last_or_pred {es : List ℕ} {e : ℕ} (h : e ∈ es) :
    es.getLast? = some e ∨ ∃ i e', es[i]? = some e ∧ es[i + 1]? = some e' := by
  obtain ⟨i, hi, rfl⟩ := List.mem_iff_getElem.mp h
  by_cases hlast : i + 1 < es.length
  · exact Or.inr ⟨i, es[i + 1], List.getElem?_eq_getElem hi, List.getElem?_eq_getElem hlast⟩
  · refine Or.inl ?_
    rw [List.getLast?_eq_getElem?, show es.length - 1 = i by omega]
    exact List.getElem?_eq_getElem hi

/-- A wired chain whose first element reads what it did before. -/
theorem Wired.linkFrame {es : List ℕ} (h : Wired s s' none es) : LinkFrame s s' es where
  input e r hr hne := by
    by_cases he : e ∈ es
    · rcases mem_head_or_succ he with hhead | ⟨i, e₀, h₀, h₁⟩
      · rw [h.head e hhead] at hr
        exact absurd hr hne
      · obtain ⟨-, hin⟩ := h.next i e₀ e h₀ h₁
        obtain rfl : s.nextRb + i = r := by
          rw [hin] at hr
          simpa using hr
        obtain ⟨hlt, -⟩ := List.getElem?_eq_some_iff.mp h₁
        rw [h.nextRb]
        omega
    · rw [h.frame e he] at hr
      exact absurd hr hne
  output e r hr hne := by
    by_cases he : e ∈ es
    · rcases mem_last_or_pred he with hlast | ⟨i, e', h₀, h₁⟩
      · rw [h.last e hlast] at hr
        exact absurd hr hne
      · obtain ⟨hout, -⟩ := h.next i e e' h₀ h₁
        obtain rfl : s.nextRb + i = r := by
          rw [hout] at hr
          simpa using hr
        obtain ⟨hlt, -⟩ := List.getElem?_eq_some_iff.mp h₁
        rw [h.nextRb]
        omega
    · rw [h.frame e he] at hr
      exact absurd hr hne
  shared := ⟨fun i => s.nextRb + i, fun i j hij => Nat.add_left_cancel hij, h.next⟩
  created := h.nextRb
  head e he := (h.head e he).trans rfl
  last := h.last

/-- A single element takes what the static variable holds. -/
theorem linkLoop_single {κ : Type*} {find : Links → κ → Option ElementItem} {k : κ} {el : ℕ}
    (hk : (find s k).map ElementItem.el = some el) :
    linkLoop find s true [k] =
      (ESP_OK, { (s.setFlags el (fun _ => true) fun _ => false).audioElementSetInputRingbuf el
        s.linkedRb with linked := true }) := by
  obtain ⟨item, hitem, rfl⟩ := Option.map_eq_some_iff.mp hk
  rw [linkLoop]
  simp only [hitem]
  rfl

/-- **What linking attaches**: when `audio_pipeline_link` or `audio_pipeline_link_more` succeeds on
an unlinked pipeline without ring buffers, it attaches only ring buffers of its own, one between
two neighbours, exactly if there are two elements or more, or setting the input of the only one to
the ring buffer left in the static variable changes nothing. -/
theorem link_frame_iff (s : Links) (call : LinkCall) {es : List ℕ} (hl : s.linked = false)
    (hn : call.Names s es) (hd : es.Nodup) (hne : es ≠ []) (hok : (call.run s).1 = ESP_OK) :
    LinkFrame s (call.run s).2 es ↔
      2 ≤ es.length ∨ ∀ e ∈ es, (s.els e).input.setRingbuf s.linkedRb = (s.els e).input := by
  -- both loops are `linkLoop`, over tags or over handles
  have key : ∀ {κ : Type} {find : Links → κ → Option ElementItem} {ks : List κ}, Lookup find →
      Links.Names find s ks es → (linkLoop find s true ks).1 = ESP_OK →
      (LinkFrame s (linkLoop find s true ks).2 es ↔
        2 ≤ es.length ∨ ∀ e ∈ es, (s.els e).input.setRingbuf s.linkedRb = (s.els e).input) := by
    intro κ find ks hf hks hret
    by_cases h2 : 2 ≤ es.length
    · have hfirst : if true then 2 ≤ es.length else s.linkedRb.isSome := by simpa using h2
      have hcore := linkLoop_wire hf hks hfirst hret
      exact ⟨fun _ => Or.inl h2, fun _ => ((wired s none hne hd).core hcore).linkFrame⟩
    · obtain ⟨el, rfl⟩ : ∃ el, es = [el] := by
        rcases es with _ | ⟨el, _ | ⟨el', es⟩⟩
        · exact absurd rfl hne
        · exact ⟨el, rfl⟩
        · simp at h2
      obtain ⟨k, hk, rfl⟩ : ∃ k, (find s k).map ElementItem.el = some el ∧ ks = [k] := by
        cases hks with
        | cons hk hrest =>
          cases hrest
          exact ⟨_, hk, rfl⟩
      rw [linkLoop_single hk]
      constructor
      · -- the only element gets the static variable for its input, which has to be no change
        intro hfr
        refine Or.inr fun e he => ?_
        obtain rfl : e = el := by simpa using he
        have hin := hfr.head e rfl
        simpa [audioElementSetInputRingbuf, setEl, setFlags] using hin
      · rintro (h | hsame)
        · exact absurd h h2
        · -- the state of the elements is what it was
          have hels : ({ (s.setFlags el (fun _ => true) fun _ => false).audioElementSetInputRingbuf
              el s.linkedRb with linked := true } : Links).els = s.els := by
            simp [audioElementSetInputRingbuf, setEl, setFlags, hsame el (by simp)]
          refine ⟨?_, ?_, ⟨id, Function.injective_id, ?_⟩, rfl, ?_, ?_⟩
          · intro e r hr hne
            exact absurd (by rwa [hels] at hr) hne
          · intro e r hr hne
            exact absurd (by rwa [hels] at hr) hne
          · intro i e e' _ he'
            simp at he'
          · intro e _
            rw [hels]
          · intro e _
            rw [hels]
  cases call with
  | link linkTag =>
    rw [LinkCall.run, audioPipelineLink, unlink_of_not_linked hl] at hok ⊢
    exact key lookup_tag hn hok
  | linkMore els =>
    rw [LinkCall.run, audioPipelineLinkMore, unlink_of_not_linked hl] at hok ⊢
    exact key lookup_handle hn hok

/-- Two elements are chained by the one ring buffer that the call creates. -/
theorem link_frame_pair : LinkFrame pair (pair.audioPipelineLink [['a'], ['b']]).2 [1, 2] :=
  (link_frame_iff pair (.link [['a'], ['b']]) rfl pair_names (by decide) (by decide)
    (by decide)).mpr (Or.inl (by decide))

/-- One pipeline links two elements; another one, of the single element `3`, is linked after that,
and the element reads the ring buffer of the first pipeline. -/
theorem link_leaks :
    let first := (pair.audioPipelineLink [['a'], ['b']]).2
    let second := ((⟨first.toHeap, .init⟩ : Links).audioPipelineRegister 3 (some ['c'])).2
    let r := second.audioPipelineLink [['c']]
    second.linked = false ∧ second.rbList = [] ∧ Names getElItemByTag second [['c']] [3] ∧
      r.1 = ESP_OK ∧ r.2.nextRb = second.nextRb ∧ (second.els 3).input = .rb none ∧
      (r.2.els 3).input = (first.els 2).input ∧ ¬LinkFrame second r.2 [3] := by
  refine ⟨rfl, rfl, .cons (by decide) .nil, by decide, rfl, by decide, by decide, fun h => ?_⟩
  exact absurd (h.head 3 rfl) (by decide)

end Links

end AudioPipeline
