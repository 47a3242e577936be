import AudioPipeline.Pipeline.Links

/-!
## What linking builds

`wire` is linking as it is meant: each element but the last gets a new ring buffer as its output,
which is the input of the next one.  Both linking helpers of `audio_pipeline.c` do that, up to the
allocator and their static variables (`core`): `linkLoop_wire` for `_pipeline_rb_linked`, whenever
the loop returns `ESP_OK` and did not begin with its last element, and `relinkLoop_wire` for
`audio_pipeline_el_item_link`, in a pipeline that has nothing to reuse.
-/

namespace AudioPipeline

@[simp] theorem Io.setRingbuf_some (x : Io) (h : ℕ) : x.setRingbuf (some h) = .rb (some h) := by
  cases x <;> rfl

namespace ElList

theorem setFlags_els (l : ElList) (el : ℕ) (linked keptCtx : Bool → Bool) :
    (l.setFlags el linked keptCtx).items.map ElementItem.el = l.items.map ElementItem.el := by
  simp only [setFlags, List.map_map]
  congr 1
  funext item
  simp only [Function.comp_apply]
  split_ifs <;> rfl

/-- Clearing the flags that are clear. -/
theorem setFlags_congr (l : ElList) (el : ℕ) {linked linked' keptCtx keptCtx' : Bool → Bool}
    (h : ∀ item ∈ l.items, item.el = el →
      linked item.linked = linked' item.linked ∧ keptCtx item.keptCtx = keptCtx' item.keptCtx) :
    l.setFlags el linked keptCtx = l.setFlags el linked' keptCtx' := by
  ext1
  simp only [setFlags]
  refine List.map_congr_left fun item hi => ?_
  split_ifs with he
  · rw [(h item hi he).1, (h item hi he).2]
  · rfl

theorem mem_setFlags {l : ElList} {el : ℕ} {linked keptCtx : Bool → Bool} {item : ElementItem} :
    item ∈ (l.setFlags el linked keptCtx).items ↔
      ∃ item₀ ∈ l.items, item =
        if item₀.el = el then
          { item₀ with linked := linked item₀.linked, keptCtx := keptCtx item₀.keptCtx }
        else item₀ := by
  simp [setFlags, eq_comm]

end ElList

namespace Links

variable {s s' : Links} {κ : Type*} {find : Links → κ → Option ElementItem}

/-! ### Up to the allocator and the static variables -/

/-- The state without the outcomes of the allocator and the static variables. -/
def core (s : Links) : Links := { s with memory := [], linkedRb := none, itemRb := none }

/-- An input that is only set when there is a ring buffer to set it to. -/
def withInput (e : LinkEl) (inp : Option ℕ) : LinkEl :=
  { e with input := inp.elim e.input fun rb => .rb (some rb) }

/-- The element reads from `inp` and writes to a new ring buffer. -/
def wireOne (s : Links) (inp : Option ℕ) (el : ℕ) : Links :=
  { s with
    elList := s.elList.setFlags el (fun _ => true) (fun _ => false)
    els := Function.update s.els el
      { withInput (s.els el) inp with output := .rb (some s.nextRb) }
    rings := Function.update s.rings s.nextRb (Ringbuf.empty (s.els el).outRbSize.toNat)
    nextRb := s.nextRb + 1
    rbList := s.rbList ++ [⟨s.nextRb, some el, true, false⟩] }

/-- Linking: a chain of elements, the first of which reads from `inp`. -/
def wire (s : Links) (inp : Option ℕ) : List ℕ → Links
  | [] => { s with linked := true }
  | [el] =>
    { s with
      elList := s.elList.setFlags el (fun _ => true) (fun _ => false)
      els := Function.update s.els el (withInput (s.els el) inp)
      linked := true }
  | el :: el' :: es => wire (s.wireOne inp el) (some s.nextRb) (el' :: es)

theorem wire_core : ∀ (es : List ℕ) (s : Links) (inp : Option ℕ),
    (s.wire inp es).core = s.core.wire inp es
  | [], _, _ => rfl
  | [_], _, _ => rfl
  | el :: el' :: es, s, inp => wire_core (el' :: es) (s.wireOne inp el) (some s.nextRb)

/-- Wiring goes on from a state that is the same up to its core. -/
theorem wire_cons {el : ℕ} {es : List ℕ} {inp : Option ℕ} (hes : es ≠ [])
    (h : s'.core = (s.wireOne inp el).core) :
    (s'.wire (some s.nextRb) es).core = (s.wire inp (el :: es)).core := by
  obtain ⟨el', es, rfl⟩ := List.exists_cons_of_ne_nil hes
  rw [wire, wire_core, h, ← wire_core]

/-! ### Creating a ring buffer -/

/-- `rb_create` for the output of an element fails, or adds the ring buffer and its item. -/
theorem createRing_cases (s : Links) (el : ℕ) :
    (∃ memory, s.createRing el = (none, { s with memory := memory })) ∨
      ∃ memory, s.createRing el =
        (some s.nextRb,
          { s with
            memory := memory
            rings := Function.update s.rings s.nextRb (Ringbuf.empty (s.els el).outRbSize.toNat)
            nextRb := s.nextRb + 1
            rbList := s.rbList ++ [⟨s.nextRb, some el, true, false⟩] }) := by
  unfold createRing
  have hcalloc : ∀ s : Links, ∃ ok memory, s.calloc = (ok, { s with memory := memory }) := by
    intro s
    unfold calloc
    split
    · next h => exact ⟨true, [], by rw [← h]⟩
    · exact ⟨_, _, rfl⟩
  obtain ⟨ok, memory, hc⟩ := hcalloc s
  rw [hc]
  cases ok with
  | false => exact Or.inl ⟨memory, rfl⟩
  | true =>
    dsimp only
    unfold Links.rbCreate
    obtain ⟨ok', memory', hc'⟩ := hcalloc { s with memory := memory }
    by_cases hsize : (s.els el).outRbSize < 2
    · left
      exact ⟨memory, by simp [hsize, AudioPipeline.rbCreate]⟩
    · simp only [if_neg hsize, hc']
      unfold AudioPipeline.rbCreate
      rw [if_neg hsize]
      split_ifs with hfail
      · exact Or.inl ⟨memory', rfl⟩
      · refine Or.inr ⟨memory', ?_⟩
        simp only [Int.mul_one]

/-- The coming allocations for `n` ring buffers succeed. -/
def Allocates (s : Links) (n : ℕ) : Prop := ∀ ok ∈ s.memory.take (2 * n), ok = true

instance (s : Links) (n : ℕ) : Decidable (s.Allocates n) :=
  inferInstanceAs (Decidable (∀ ok ∈ s.memory.take (2 * n), ok = true))

/-- The output ring buffer of the element has a size that `rb_create` takes. -/
def Sized (e : LinkEl) : Prop := 2 ≤ e.outRbSize ∧ e.outRbSize ≤ INT_MAX

instance (e : LinkEl) : Decidable (Sized e) :=
  inferInstanceAs (Decidable (2 ≤ e.outRbSize ∧ e.outRbSize ≤ INT_MAX))

theorem createRing_of_allocates {el n : ℕ} (h : s.Allocates (n + 1)) (hsize : Sized (s.els el)) :
    s.createRing el =
      (some s.nextRb,
        { s with
          memory := s.memory.drop 2
          rings := Function.update s.rings s.nextRb (Ringbuf.empty (s.els el).outRbSize.toNat)
          nextRb := s.nextRb + 1
          rbList := s.rbList ++ [⟨s.nextRb, some el, true, false⟩] }) := by
  obtain ⟨h2, hmax⟩ := hsize
  have hnot : ¬(s.els el).outRbSize < 2 := Int.not_lt.mpr h2
  have hle : ¬INT_MAX < (s.els el).outRbSize := Int.not_lt.mpr hmax
  unfold createRing Links.rbCreate calloc AudioPipeline.rbCreate
  unfold Allocates at h
  rw [show 2 * (n + 1) = 2 * n + 1 + 1 from rfl] at h
  rcases hm : s.memory with _ | ⟨a, _ | ⟨b, rest⟩⟩
  · simp [hm, hnot, hle]
  · rw [hm] at h
    have ha : a = true := h a (by simp)
    simp [ha, hnot, hle]
  · rw [hm] at h
    have ha : a = true := h a (by simp)
    have hb : b = true := h b (by simp)
    simp [ha, hb, hnot, hle]

theorem Allocates.drop {n : ℕ} (h : s.Allocates (n + 1)) (hm : s'.memory = s.memory.drop 2) :
    s'.Allocates n := by
  intro ok hok
  rw [hm, List.take_drop] at hok
  refine h ok ?_
  rw [show 2 * (n + 1) = 2 + 2 * n by omega]
  exact List.mem_of_mem_drop hok

/-! ### Names -/

/-- The same elements are registered, under the same tags. -/
structure SameNames (s s' : Links) : Prop where
  els : s'.elList.items.map ElementItem.el = s.elList.items.map ElementItem.el
  tag : ∀ e, (s'.els e).tag = (s.els e).tag
  size : ∀ e, (s'.els e).outRbSize = (s.els e).outRbSize

theorem SameNames.trans {s₁ s₂ s₃ : Links} (h : SameNames s₁ s₂) (h' : SameNames s₂ s₃) :
    SameNames s₁ s₃ :=
  ⟨h'.els.trans h.els, fun e => (h'.tag e).trans (h.tag e), fun e => (h'.size e).trans (h.size e)⟩

/-- A lookup that depends on nothing but the registered elements and their tags. -/
structure Lookup (find : Links → κ → Option ElementItem) : Prop where
  names : ∀ {s s' : Links}, SameNames s s' → ∀ k,
    (find s' k).map ElementItem.el = (find s k).map ElementItem.el
  mem : ∀ {s : Links} {k : κ} {item : ElementItem}, find s k = some item → item ∈ s.elList.items

private theorem find?_el (items : List ElementItem) (p : ℕ → Bool) :
    (items.find? fun item => p item.el).map ElementItem.el =
      (items.map ElementItem.el).find? p := by
  rw [List.find?_map]
  rfl

/-- The element has the tag. -/
def hasTag (k : CString) (s : Links) (e : ℕ) : Bool :=
  match (s.els e).tag with
  | some elTag => strcasecmp elTag k
  | none => false

theorem lookup_tag : Lookup getElItemByTag where
  names {s s'} h k := by
    have hp : hasTag k s' = hasTag k s := by
      funext e
      simp only [hasTag, h.tag]
    calc (getElItemByTag s' k).map ElementItem.el
        = (s'.elList.items.map ElementItem.el).find? (hasTag k s') := find?_el _ (hasTag k s')
      _ = (s.elList.items.map ElementItem.el).find? (hasTag k s) := by rw [h.els, hp]
      _ = (getElItemByTag s k).map ElementItem.el := (find?_el _ (hasTag k s)).symm
  mem h := List.mem_of_find?_eq_some h

theorem lookup_handle : Lookup getElItemByHandle where
  names {s s'} h k := by
    calc (getElItemByHandle s' k).map ElementItem.el
        = (s'.elList.items.map ElementItem.el).find? (fun e => e = k) := find?_el _ fun e => e = k
      _ = (s.elList.items.map ElementItem.el).find? (fun e => e = k) := by rw [h.els]
      _ = (getElItemByHandle s k).map ElementItem.el := (find?_el _ fun e => e = k).symm
  mem h := List.mem_of_find?_eq_some h

/-- The keys name these registered elements. -/
def Names (find : Links → κ → Option ElementItem) (s : Links) (ks : List κ) (es : List ℕ) : Prop :=
  List.Forall₂ (fun k e => (find s k).map ElementItem.el = some e) ks es

theorem Names.same {ks : List κ} {es : List ℕ} (hf : Lookup find) (h : Names find s ks es)
    (hs : SameNames s s') : Names find s' ks es :=
  h.imp fun k _ hk => (hf.names hs k).trans hk

theorem sameNames_setFlags (s : Links) (el : ℕ) (linked keptCtx : Bool → Bool) :
    SameNames s (s.setFlags el linked keptCtx) :=
  ⟨s.elList.setFlags_els el linked keptCtx, fun _ => rfl, fun _ => rfl⟩

theorem sameNames_setEl (s : Links) (el : ℕ) {f : LinkEl → LinkEl}
    (hf : ∀ e, (f e).tag = e.tag ∧ (f e).outRbSize = e.outRbSize) : SameNames s (s.setEl el f) := by
  refine ⟨rfl, fun e => ?_, fun e => ?_⟩
  · by_cases he : e = el
    · subst he
      simp [setEl, (hf _).1]
    · simp [setEl, he]
  · by_cases he : e = el
    · subst he
      simp [setEl, (hf _).2]
    · simp [setEl, he]

theorem sameNames_wireOne (s : Links) (inp : Option ℕ) (el : ℕ) :
    SameNames s (s.wireOne inp el) := by
  have h := (sameNames_setFlags s el (fun _ => true) fun _ => false).trans
    (sameNames_setEl _ el (f := fun e => { withInput e inp with output := .rb (some s.nextRb) })
      fun _ => ⟨rfl, rfl⟩)
  exact ⟨h.els, h.tag, h.size⟩

theorem SameNames.core (h : SameNames s s') {t : Links} (ht : t.core = s'.core) :
    SameNames s t := by
  have hl : t.core.elList = s'.core.elList := by rw [ht]
  have he : t.core.els = s'.core.els := by rw [ht]
  change t.elList = s'.elList at hl
  change t.els = s'.els at he
  exact ⟨by rw [hl, h.els], by rw [he]; exact h.tag, by rw [he]; exact h.size⟩

/-! ### `_pipeline_rb_linked` -/

/-- The input of the element is set to what the helper has at hand, unless it is the first. -/
theorem setInput_eq {el : ℕ} {first : Bool} {rb : Option ℕ} (h : first = false → rb.isSome) :
    (if first then s else s.audioElementSetInputRingbuf el rb) =
      s.setEl el fun e => withInput e (if first then none else rb) := by
  cases first with
  | true =>
    show s = { s with els := Function.update s.els el (s.els el) }
    rw [Function.update_eq_self]
  | false =>
    obtain ⟨r, rfl⟩ := Option.isSome_iff_exists.mp (h rfl)
    simp [audioElementSetInputRingbuf, setEl, withInput]

/-- A new ring buffer becomes the output. -/
theorem wireOne_core {el : ℕ} {inp : Option ℕ} {memory : List Bool} {a b : Option ℕ} :
    (({ s with
        elList := s.elList.setFlags el (fun _ => true) (fun _ => false)
        els := Function.update s.els el (withInput (s.els el) inp)
        rings := Function.update s.rings s.nextRb (Ringbuf.empty (s.els el).outRbSize.toNat)
        nextRb := s.nextRb + 1
        rbList := s.rbList ++ [⟨s.nextRb, some el, true, false⟩]
        memory := memory
        linkedRb := a
        itemRb := b } : Links).audioElementSetOutputRingbuf el (some s.nextRb)).core =
      (s.wireOne inp el).core := by
  simp [core, wireOne, audioElementSetOutputRingbuf, setEl]

/-- An element before the last: no ring buffer can be created, or it is wired. -/
theorem pipelineRbLinked_cases (s : Links) (el : ℕ) {first : Bool}
    (h : first = false → s.linkedRb.isSome) :
    ((s.setFlags el (fun _ => true) fun _ => false).pipelineRbLinked el first false).1 =
        ESP_ERR_NO_MEM ∨
      ∃ s', (s.setFlags el (fun _ => true) fun _ => false).pipelineRbLinked el first false =
          (ESP_OK, s') ∧
        s'.core = (s.wireOne (if first then none else s.linkedRb) el).core ∧
        s'.linkedRb = some s.nextRb := by
  have hset := @setInput_eq (s.setFlags el (fun _ => true) fun _ => false) el first s.linkedRb h
  unfold pipelineRbLinked
  rw [if_neg (by decide : ¬false = true)]
  simp only [show (s.setFlags el (fun _ => true) fun _ => false).linkedRb = s.linkedRb from rfl]
  rw [hset]
  rcases createRing_cases _ el with ⟨memory, hc⟩ | ⟨memory, hc⟩
  · left
    rw [hc]
  · right
    rw [hc]
    refine ⟨_, rfl, ?_, rfl⟩
    have hsize : (Function.update s.els el
        (withInput (s.els el) (if first then none else s.linkedRb)) el).outRbSize =
          (s.els el).outRbSize := by
      simp [withInput]
    simp only [setFlags, setEl, hsize]
    exact wireOne_core

/-- The loop of `audio_pipeline_link` wires the elements, if it returns `ESP_OK`. -/
theorem linkLoop_wire (hf : Lookup find) {ks : List κ} {es : List ℕ} {first : Bool}
    (hn : Names find s ks es)
    (hfirst : if first then 2 ≤ es.length else s.linkedRb.isSome)
    (hok : (linkLoop find s first ks).1 = ESP_OK) :
    (linkLoop find s first ks).2.core =
      (s.wire (if first then none else s.linkedRb) es).core := by
  induction ks generalizing s es first with
  | nil =>
    cases hn
    rfl
  | cons k ks ih =>
    obtain ⟨e, es, hk, hrest, rfl⟩ := List.forall₂_cons_left_iff.mp hn
    obtain ⟨item, hitem, rfl⟩ := Option.map_eq_some_iff.mp hk
    have hsome : first = false → s.linkedRb.isSome := by
      rintro rfl
      simpa using hfirst
    rw [linkLoop] at hok ⊢
    simp only [hitem] at hok ⊢
    cases hrest with
    | nil =>
      -- the last element, which is not the first
      obtain rfl : first = false := by
        cases first with
        | true => simp at hfirst
        | false => rfl
      obtain ⟨r, hr⟩ := Option.isSome_iff_exists.mp (hsome rfl)
      simp [pipelineRbLinked, linkLoop, wire, core, setFlags, audioElementSetInputRingbuf, setEl,
        withInput, hr]
    | @cons k' e' ks' es' hk' hn' =>
      rcases pipelineRbLinked_cases s item.el hsome with hfail | ⟨s', hs', hcore, hrb⟩
      · rw [if_pos (by rw [List.isEmpty_cons, hfail]; decide)] at hok
        rw [List.isEmpty_cons, hfail] at hok
        exact absurd hok (by decide)
      · rw [List.isEmpty_cons, hs'] at hok ⊢
        have hnames : SameNames s s' := (sameNames_wireOne s _ item.el).core hcore
        have hrest : Names find s' (k' :: ks') (e' :: es') :=
          Names.same hf (.cons hk' hn') hnames
        have hwire := @ih s' (e' :: es') false hrest (by simp [hrb]) (by simpa using hok)
        rw [hrb] at hwire
        rw [← wire_cons (List.cons_ne_nil e' es') hcore]
        exact hwire

/-- The loop returns `ESP_OK` when every ring buffer can be created. -/
theorem linkLoop_ok (hf : Lookup find) {ks : List κ} {es : List ℕ} {first : Bool}
    (hn : Names find s ks es)
    (hfirst : if first then 2 ≤ es.length else s.linkedRb.isSome)
    (ha : s.Allocates (es.length - 1)) (hsize : ∀ e ∈ es.dropLast, Sized (s.els e)) :
    (linkLoop find s first ks).1 = ESP_OK := by
  induction ks generalizing s es first with
  | nil => rfl
  | cons k ks ih =>
    obtain ⟨e, es, hk, hrest, rfl⟩ := List.forall₂_cons_left_iff.mp hn
    obtain ⟨item, hitem, rfl⟩ := Option.map_eq_some_iff.mp hk
    have hsome : first = false → s.linkedRb.isSome := by
      rintro rfl
      simpa using hfirst
    rw [linkLoop]
    simp only [hitem]
    cases hrest with
    | nil =>
      simp [pipelineRbLinked, linkLoop]
    | @cons k' e' ks' es' hk' hn' =>
      -- there is memory for the ring buffer of this element, and for those behind it
      have hok : ((s.setFlags item.el (fun _ => true) fun _ => false).pipelineRbLinked item.el first
          false).1 = ESP_OK ∧
          ((s.setFlags item.el (fun _ => true) fun _ => false).pipelineRbLinked item.el first
            false).2.memory = s.memory.drop 2 := by
        have hset := @setInput_eq (s.setFlags item.el (fun _ => true) fun _ => false) item.el first
          s.linkedRb hsome
        unfold pipelineRbLinked
        rw [if_neg (by decide : ¬false = true)]
        simp only [show (s.setFlags item.el (fun _ => true) fun _ => false).linkedRb = s.linkedRb
          from rfl]
        have hsized : Sized (withInput (s.els item.el) (if first then none else s.linkedRb)) :=
          hsize item.el (by simp)
        rw [hset, @createRing_of_allocates ((s.setFlags item.el (fun _ => true) fun _ => false).setEl
          item.el fun e => withInput e (if first then none else s.linkedRb)) item.el es'.length ha
          (by simpa [setEl, setFlags] using hsized)]
        exact ⟨rfl, rfl⟩
      rcases pipelineRbLinked_cases s item.el hsome with hfail | ⟨s', hs', hcore, hrb⟩
      · rw [hfail] at hok
        exact absurd hok.1 (by decide)
      · have hnames : SameNames s s' := (sameNames_wireOne s _ item.el).core hcore
        rw [List.isEmpty_cons, hs']
        rw [hs'] at hok
        have hrest : Names find s' (k' :: ks') (e' :: es') :=
          Names.same hf (.cons hk' hn') hnames
        refine @ih s' (e' :: es') false hrest (by simp [hrb]) (Allocates.drop ha hok.2) ?_
        intro e he
        have hse := hsize e (by simp [List.dropLast_cons_of_ne_nil, he])
        rwa [Sized, ← hnames.size] at hse

/-! ### `audio_pipeline_el_item_link` -/

/-- No element is marked as kept, and no ring buffer is free. -/
structure NoReuse (s : Links) : Prop where
  kept : ∀ item ∈ s.elList.items, item.keptCtx = false
  used : ∀ item ∈ s.rbList, item.linked = true

theorem takeFree_used (el : ℕ) :
    ∀ {items : List RingbufItem}, (∀ item ∈ items, item.linked = true) →
    takeFree el items = (none, items)
  | [], _ => rfl
  | item :: items, h => by
    have hitem := h item (by simp)
    rw [takeFree, takeFree_used el fun i hi => h i (by simp [hi])]
    simp [hitem]

theorem NoReuse.wireOne (h : NoReuse s) (inp : Option ℕ) (el : ℕ) : NoReuse (s.wireOne inp el) where
  kept item hi := by
    obtain ⟨item₀, hi₀, rfl⟩ := ElList.mem_setFlags.mp hi
    split_ifs
    · rfl
    · exact h.kept item₀ hi₀
  used item hi := by
    rcases List.mem_append.mp hi with hi | hi
    · exact h.used item hi
    · rw [List.mem_singleton.mp hi]

theorem NoReuse.core (h : NoReuse s) {t : Links} (ht : t.core = s.core) : NoReuse t := by
  have hl : t.core.elList = s.core.elList := by rw [ht]
  have hr : t.core.rbList = s.core.rbList := by rw [ht]
  change t.elList = s.elList at hl
  change t.rbList = s.rbList at hr
  exact ⟨by rw [hl]; exact h.kept, by rw [hr]; exact h.used⟩

/-- Marking an element as linked, when none is kept. -/
theorem NoReuse.setFlags_eq (h : NoReuse s) (el : ℕ) :
    s.setFlags el (fun _ => true) id = s.setFlags el (fun _ => true) fun _ => false := by
  have hlist : s.elList.setFlags el (fun _ => true) id =
      s.elList.setFlags el (fun _ => true) fun _ => false :=
    s.elList.setFlags_congr el fun item hi _ => ⟨rfl, h.kept item hi⟩
  rw [setFlags, setFlags, hlist]

/-- An element before the last is wired. -/
theorem elItemLink_wire (h : NoReuse s) {el n : ℕ} {first : Bool}
    (hrb : first = false → s.itemRb.isSome) (ha : s.Allocates (n + 1)) (hsize : Sized (s.els el)) :
    ∃ s', (s.setFlags el (fun _ => true) id).elItemLink el false first false = (ESP_OK, s') ∧
      s'.core = (s.wireOne (if first then none else s.itemRb) el).core ∧
      s'.itemRb = some s.nextRb ∧ s'.memory = s.memory.drop 2 := by
  rw [h.setFlags_eq]
  set s₁ := s.setFlags el (fun _ => true) fun _ => false with hs₁
  have hreuse : s₁.reuseRing el false = (none, s₁) := by
    rw [reuseRing, if_neg (by decide), show s₁.rbList = s.rbList from rfl, takeFree_used el h.used]
    rfl
  have hcreate := @createRing_of_allocates s₁ el n ha hsize
  have htake : s₁.takeRing el false false = s₁.createRing el := by
    rw [takeRing, hreuse]
    rfl
  rw [elItemLink, htake, hcreate]
  refine ⟨_, rfl, ?_, rfl, ?_⟩
  · cases first with
    | true =>
      simp [hs₁, core, Links.wireOne, withInput, audioElementSetOutputRingbuf, setEl, setFlags]
    | false =>
      obtain ⟨r, hr⟩ := Option.isSome_iff_exists.mp (hrb rfl)
      simp [hs₁, core, Links.wireOne, withInput, audioElementSetOutputRingbuf,
        audioElementSetInputRingbuf, setEl, setFlags, hr]
  · cases first <;> rfl

/-- The loop of `audio_pipeline_relink` wires the elements when there is nothing to reuse and every
ring buffer can be created. -/
theorem relinkLoop_wire (hf : Lookup find) {isFirst : ℕ → Bool} {ks : List κ} {es : List ℕ} {i : ℕ}
    (hn : Names find s ks es) (h : NoReuse s)
    (hfirst : if isFirst i then 2 ≤ es.length else s.itemRb.isSome)
    (hlater : ∀ j, i < j → j < i + es.length → isFirst j = false)
    (ha : s.Allocates (es.length - 1)) (hsize : ∀ e ∈ es.dropLast, Sized (s.els e)) :
    (relinkLoop find isFirst s i ks).1 = ESP_OK ∧
      (relinkLoop find isFirst s i ks).2.core =
        (s.wire (if isFirst i then none else s.itemRb) es).core := by
  induction ks generalizing s es i with
  | nil =>
    cases hn
    exact ⟨rfl, rfl⟩
  | cons k ks ih =>
    obtain ⟨e, es, hk, hrest, rfl⟩ := List.forall₂_cons_left_iff.mp hn
    obtain ⟨item, hitem, rfl⟩ := Option.map_eq_some_iff.mp hk
    have hkept : item.keptCtx = false := h.kept item (hf.mem hitem)
    rw [relinkLoop]
    simp only [hitem, hkept]
    cases hrest with
    | nil =>
      -- the last element, which is not the first
      have hi : isFirst i = false := by
        by_contra hi
        simp [hi] at hfirst
      obtain ⟨r, hr⟩ := Option.isSome_iff_exists.mp (by simpa [hi] using hfirst : s.itemRb.isSome)
      refine ⟨rfl, ?_⟩
      have htake := takeFree_used item.el h.used
      rw [h.setFlags_eq]
      simp [elItemLink, takeRing, attachRing, reuseRing, htake, relinkLoop, wire, core, setFlags,
        audioElementSetInputRingbuf, setEl, withInput, hr, hi]
    | @cons k' e' ks' es' hk' hn' =>
      have hsome : isFirst i = false → s.itemRb.isSome := by
        intro hi
        simpa [hi] using hfirst
      obtain ⟨s', hs', hcore, hrb, hmem⟩ := elItemLink_wire h hsome
        (show s.Allocates (es'.length + 1) from ha) (hsize item.el (by simp))
      have hnames : SameNames s s' := (sameNames_wireOne s _ item.el).core hcore
      have hi : isFirst (i + 1) = false := hlater (i + 1) (by omega) (by simp)
      rw [List.isEmpty_cons, hs']
      have hrest : Names find s' (k' :: ks') (e' :: es') := Names.same hf (.cons hk' hn') hnames
      have hwire := @ih s' (e' :: es') (i + 1) hrest ((h.wireOne _ item.el).core hcore)
        (by simp [hi, hrb])
        (fun j hj hj' => hlater j (by omega) (by simp only [List.length_cons] at hj' ⊢; omega))
        (Allocates.drop ha hmem) ?_
      · rw [hi, hrb] at hwire
        rw [← wire_cons (List.cons_ne_nil e' es') hcore]
        exact hwire
      · intro e he
        have hse := hsize e (by simp [List.dropLast_cons_of_ne_nil, he])
        rwa [Sized, ← hnames.size] at hse

/-! ### What relinking leaves alone -/

theorem createRing_els (s : Links) (el : ℕ) :
    (s.createRing el).2.els = s.els ∧ (s.createRing el).2.elList = s.elList := by
  rcases createRing_cases s el with ⟨_, h⟩ | ⟨_, h⟩ <;> rw [h] <;> exact ⟨rfl, rfl⟩

theorem reuseRing_els (s : Links) (el : ℕ) (keptCtx : Bool) :
    (s.reuseRing el keptCtx).2.els = s.els ∧
      (s.reuseRing el keptCtx).2.elList.items.map ElementItem.el =
        s.elList.items.map ElementItem.el := by
  unfold reuseRing
  split_ifs
  · split
    · exact ⟨rfl, rfl⟩
    · exact ⟨rfl, s.elList.setFlags_els _ _ _⟩
  · split <;> exact ⟨rfl, rfl⟩

theorem takeRing_els (s : Links) (el : ℕ) (keptCtx last : Bool) :
    (s.takeRing el keptCtx last).2.els = s.els ∧
      (s.takeRing el keptCtx last).2.elList.items.map ElementItem.el =
        s.elList.items.map ElementItem.el := by
  obtain ⟨hels, hlist⟩ := reuseRing_els s el keptCtx
  unfold takeRing
  split_ifs
  · obtain ⟨hels', hlist'⟩ := createRing_els (s.reuseRing el keptCtx).2 el
    exact ⟨hels'.trans hels, by rw [hlist', hlist]⟩
  · exact ⟨hels, hlist⟩

/-- `audio_pipeline_el_item_link` writes the two sides of the element, and not the input if it is
the first but not the last. -/
theorem attachRing_els (s : Links) (el : ℕ) (cur : Option ℕ) (first last : Bool) :
    (∃ input output,
      (s.attachRing el cur first last).2.els =
        Function.update s.els el { s.els el with input := input, output := output } ∧
      (first = true → last = false → input = (s.els el).input)) ∧
      (s.attachRing el cur first last).2.elList = s.elList := by
  have hsame : s.els =
      Function.update s.els el
        { s.els el with input := (s.els el).input, output := (s.els el).output } :=
    (Function.update_eq_self el s.els).symm
  unfold attachRing
  cases last with
  | true =>
    refine ⟨⟨(s.els el).input.setRingbuf s.itemRb, (s.els el).output, ?_, by simp⟩, rfl⟩
    simp [audioElementSetInputRingbuf, setEl]
  | false =>
    rw [if_neg (by decide)]
    cases cur with
    | none => exact ⟨⟨_, _, hsame, fun _ _ => rfl⟩, rfl⟩
    | some rb =>
      cases first with
      | true =>
        refine ⟨⟨(s.els el).input, .rb (some rb), ?_, fun _ _ => rfl⟩, rfl⟩
        simp [audioElementSetOutputRingbuf, setEl]
      | false =>
        refine ⟨⟨(s.els el).input.setRingbuf s.itemRb, .rb (some rb), ?_, by simp⟩, rfl⟩
        simp [audioElementSetOutputRingbuf, audioElementSetInputRingbuf, setEl]

theorem elItemLink_els (s : Links) (el : ℕ) (keptCtx first last : Bool) :
    (∃ input output,
      (s.elItemLink el keptCtx first last).2.els =
        Function.update s.els el { s.els el with input := input, output := output } ∧
      (first = true → last = false → input = (s.els el).input)) ∧
      (s.elItemLink el keptCtx first last).2.elList.items.map ElementItem.el =
        s.elList.items.map ElementItem.el := by
  obtain ⟨hels, hlist⟩ := takeRing_els s el keptCtx last
  obtain ⟨hattach, hlist'⟩ := attachRing_els (s.takeRing el keptCtx last).2 el
    (s.takeRing el keptCtx last).1 first last
  rw [hels] at hattach
  exact ⟨hattach, by rw [elItemLink, hlist', hlist]⟩

theorem sameNames_elItemLink (s : Links) (el : ℕ) (keptCtx first last : Bool) :
    SameNames s (s.elItemLink el keptCtx first last).2 := by
  obtain ⟨⟨input, output, hels, -⟩, hlist⟩ := elItemLink_els s el keptCtx first last
  refine ⟨hlist, fun e => ?_, fun e => ?_⟩
  · rw [hels]
    by_cases he : e = el
    · subst he
      simp
    · simp [he]
  · rw [hels]
    by_cases he : e = el
    · subst he
      simp
    · simp [he]

/-- An element that is looked up is marked as linked, and the helper is called. -/
theorem sameNames_relinkOne (s : Links) (el : ℕ) (keptCtx first last : Bool) :
    SameNames s ((s.setFlags el (fun _ => true) id).elItemLink el keptCtx first last).2 :=
  (sameNames_setFlags s el _ _).trans (sameNames_elItemLink _ el keptCtx first last)

/-- Relinking writes no element but those it links. -/
theorem relinkLoop_frame (hf : Lookup find) {isFirst : ℕ → Bool} {ks : List κ} {es : List ℕ} {i : ℕ}
    (hn : Names find s ks es) {e : ℕ} (he : e ∉ es) :
    (relinkLoop find isFirst s i ks).2.els e = s.els e := by
  induction ks generalizing s es i with
  | nil => rfl
  | cons k ks ih =>
    obtain ⟨el, es, hk, hrest, rfl⟩ := List.forall₂_cons_left_iff.mp hn
    obtain ⟨item, hitem, rfl⟩ := Option.map_eq_some_iff.mp hk
    have hne : e ≠ item.el := fun h => he (by simp [h])
    obtain ⟨⟨input, output, hels, -⟩, -⟩ := elItemLink_els (s.setFlags item.el (fun _ => true) id)
      item.el item.keptCtx (isFirst i) ks.isEmpty
    rw [relinkLoop]
    simp only [hitem]
    rw [ih (Names.same hf hrest (sameNames_relinkOne s _ _ _ _))
      fun h => he (List.mem_cons_of_mem _ h), hels, Function.update_of_ne hne]
    rfl

/-- An element that counts as the first but is not the last keeps its input. -/
theorem relinkLoop_first_input (hf : Lookup find) {isFirst : ℕ → Bool} {ks : List κ} {es : List ℕ}
    {i j : ℕ} (hn : Names find s ks es) (hd : es.Nodup) {e : ℕ} (he : es[j]? = some e)
    (hj : j + 1 < es.length) (hfirst : isFirst (i + j) = true) :
    ((relinkLoop find isFirst s i ks).2.els e).input = (s.els e).input := by
  induction ks generalizing s es i j with
  | nil => rfl
  | cons k ks ih =>
    obtain ⟨el, es, hk, hrest, rfl⟩ := List.forall₂_cons_left_iff.mp hn
    obtain ⟨item, hitem, rfl⟩ := Option.map_eq_some_iff.mp hk
    obtain ⟨hel, hd'⟩ := List.nodup_cons.mp hd
    have hnames := sameNames_relinkOne s item.el item.keptCtx (isFirst i) ks.isEmpty
    have hrest' := Names.same hf hrest hnames
    obtain ⟨⟨input, output, hels, hin⟩, -⟩ := elItemLink_els
      (s.setFlags item.el (fun _ => true) id) item.el item.keptCtx (isFirst i) ks.isEmpty
    rw [relinkLoop]
    simp only [hitem]
    cases j with
    | zero =>
      obtain rfl : item.el = e := by simpa using he
      have hlast : ks.isEmpty = false := by
        cases hrest with
        | nil => simp at hj
        | cons => rfl
      rw [relinkLoop_frame hf hrest' hel, hels, Function.update_self]
      exact hin hfirst hlast
    | succ j =>
      have he' : es[j]? = some e := by simpa using he
      have hne : e ≠ item.el := fun h => hel (h ▸ List.mem_of_getElem? he')
      rw [ih hrest' hd' he' (by simpa using hj) (by rwa [Nat.add_right_comm, Nat.add_assoc]), hels,
        Function.update_of_ne hne]
      rfl

end Links

end AudioPipeline
