import AudioPipeline.Event.Equiv.Delivery
import AudioPipeline.Pipeline.Equiv.Relink

/-!
## The listener of a pipeline

Setting the listener attaches the event interfaces of the elements that are linked at that moment,
and removing it detaches those that are linked at that one.

* `listener_wired`: as long as only attached elements are linked while there is a listener, and the
  attached ones are registered and linked whenever it is removed, the linked elements send to it, no
  element sends to a former one, and removing it changes nothing when it fails.
* `listener_unwired`: linking after setting the listener, unregistering before removing it, and both
  together.
-/

namespace AudioPipeline

namespace Events

variable {es : Events} {e l q : ℕ}

/-- The interface sends to the queue of the listener. -/
def Sends (es : Events) (evt listener : ℕ) : Prop :=
  (es.iface evt).externalQueue ≠ none ∧
    (es.iface evt).externalQueue = (es.iface listener).internalQueue

instance (es : Events) (evt listener : ℕ) : Decidable (es.Sends evt listener) :=
  inferInstanceAs (Decidable (_ ∧ _))

/-- The interfaces for which `p` holds send to `x`, and that is all that has changed. -/
def Rewired (es es' : Events) (p : ℕ → Prop) (x : Option ℕ) : Prop :=
  ∀ e, (p e → es'.iface e = { es.iface e with externalQueue := x }) ∧
    (¬p e → es'.iface e = es.iface e)

theorem Rewired.internal {es' : Events} {p : ℕ → Prop} {x : Option ℕ} (h : Rewired es es' p x)
    (e : ℕ) : (es'.iface e).internalQueue = (es.iface e).internalQueue ∧
      (es'.iface e).externalQueueSize = (es.iface e).externalQueueSize := by
  by_cases hp : p e
  · rw [(h e).1 hp]
    exact ⟨rfl, rfl⟩
  · rw [(h e).2 hp]
    exact ⟨rfl, rfl⟩

theorem setExternal_iface (es : Events) (e : ℕ) (x : Option ℕ) :
    Rewired es (es.setExternal e x) (fun e' => e' = e) x := by
  intro e'
  refine ⟨?_, fun he => Function.update_of_ne he _ _⟩
  rintro rfl
  exact Function.update_self _ _ _

/-- One interface after the other. -/
theorem Rewired.trans {es' es'' : Events} {p p' : ℕ → Prop} {x : Option ℕ} (h : Rewired es es' p x)
    (h' : Rewired es' es'' p' x) : Rewired es es'' (fun e => p e ∨ p' e) x := by
  intro e
  by_cases hp' : p' e
  · refine ⟨fun _ => ?_, fun hno => absurd (Or.inr hp') hno⟩
    rw [(h' e).1 hp']
    by_cases hp : p e
    · rw [(h e).1 hp]
    · rw [(h e).2 hp]
  · rw [(h' e).2 hp']
    refine ⟨fun hor => (h e).1 (hor.resolve_right hp'), fun hno => (h e).2 fun hp => ?_⟩
    exact hno (Or.inl hp)

theorem Rewired.congr {es' : Events} {p p' : ℕ → Prop} {x : Option ℕ} (h : Rewired es es' p x)
    (hp : ∀ e, p' e ↔ p e) : Rewired es es' p' x :=
  fun e => ⟨fun he => (h e).1 ((hp e).mp he), fun he => (h e).2 fun hpe => he ((hp e).mpr hpe)⟩

/-- An attached interface is detached. -/
theorem removeListener_rewired (hx : (es.iface e).externalQueue ≠ none)
    (hsize : (es.iface e).externalQueueSize ≠ 0) :
    (es.audioEventIfaceRemoveListener l e).1 = ESP_OK ∧
      Rewired es (es.audioEventIfaceRemoveListener l e).2 (fun e' => e' = e) none := by
  unfold audioEventIfaceRemoveListener
  rw [if_neg (not_or.mpr ⟨hx, hsize⟩)]
  refine ⟨rfl, fun e' => ?_⟩
  have hset := setExternal_iface (es.audioEventIfaceDiscard l) e none e'
  rwa [discard_iface] at hset

/-- An interface is attached to a listener that has a queue. -/
theorem setListener_rewired (hq : (es.iface l).internalQueue = some q)
    (hsize : (es.iface l).internalQueueSize ≠ 0) :
    (es.audioEventIfaceSetListener e l).1 = ESP_OK ∧
      Rewired es (es.audioEventIfaceSetListener e l).2 (fun e' => e' = e) (some q) := by
  unfold audioEventIfaceSetListener
  rw [hq]
  dsimp only
  rw [if_neg hsize]
  refine ⟨rfl, fun e' => ?_⟩
  have hset := setExternal_iface (es.audioEventIfaceDiscard l) e (some q) e'
  rwa [discard_iface] at hset

end Events

namespace Links

variable {s s' t : Links} {κ : Type*} {find : Links → κ → Option ElementItem}

/-! ### The loops over the linked elements -/

/-- The element has a linked item. -/
def Linked (items : List ElementItem) (e : ℕ) : Prop :=
  ∃ item ∈ items, item.el = e ∧ item.linked = true

theorem linked_cons {item : ElementItem} {items : List ElementItem} {e : ℕ} :
    Linked (item :: items) e ↔ (e = item.el ∧ item.linked = true) ∨ Linked items e := by
  simp only [Linked, List.mem_cons, exists_eq_or_imp]
  rw [eq_comm]

/-- A loop all of whose calls succeed rewires the linked elements. -/
theorem forLinked_rewired {op : Events → ℕ → ℤ × Events} {x : Option ℕ} (ready : Events → ℕ → Prop)
    (hop : ∀ es e, ready es e → (op es e).1 = ESP_OK ∧
      Events.Rewired es (op es e).2 (fun e' => e' = e) x)
    (hkeep : ∀ es es' e e', e' ≠ e → Events.Rewired es es' (fun i => i = e) x → ready es e' →
      ready es' e')
    {items : List ElementItem} (hnodup : (items.map ElementItem.el).Nodup) {es : Events}
    (h : ∀ item ∈ items, item.linked = true → ready es item.el) :
    (forLinked op es items).1 = ESP_OK ∧
      Events.Rewired es (forLinked op es items).2 (Linked items) x := by
  induction items generalizing es with
  | nil => exact ⟨rfl, fun e => ⟨fun ⟨_, hi, _⟩ => absurd hi (by simp), fun _ => rfl⟩⟩
  | cons item items ih =>
    rw [List.map_cons, List.nodup_cons] at hnodup
    obtain ⟨hnot, hnodup⟩ := hnodup
    have htail : ∀ i ∈ items, i.linked = true → ready es i.el :=
      fun i hi hl => h i (List.mem_cons_of_mem _ hi) hl
    rw [forLinked]
    split_ifs with hl
    · obtain ⟨hret, hrew⟩ := hop es item.el (h item (by simp) hl)
      dsimp only
      rw [hret, if_neg (by decide)]
      -- the other elements are as ready as before
      obtain ⟨hok, hrest⟩ := @ih hnodup (op es item.el).2 fun i hi hli =>
        hkeep es _ item.el i.el (fun he => hnot (he ▸ List.mem_map_of_mem hi)) hrew (htail i hi hli)
      refine ⟨hok, (hrew.trans hrest).congr fun e => ?_⟩
      rw [linked_cons]
      simp [hl]
    · obtain ⟨hok, hrest⟩ := ih hnodup htail
      refine ⟨hok, hrest.congr fun e => ?_⟩
      rw [linked_cons]
      simp [hl]

/-- All linked elements send to the listener, and can be detached. -/
def AllSend (s : Links) : Prop :=
  ∀ l, s.listener = some l → ∀ item ∈ s.elList.items, item.linked = true →
    s.events.Sends item.el l ∧ (s.events.iface item.el).externalQueueSize ≠ 0

theorem Linked.of_mem {item : ElementItem} (hi : item ∈ s.elList.items) (hl : item.linked = true) :
    Linked s.elList.items item.el := ⟨item, hi, rfl, hl⟩

/-- If there is a listener and all linked elements send to it, removing it detaches them. -/
theorem removeListener_of_allSend (h : AllSend s) {l : ℕ} (hl : s.listener = some l) :
    ∃ es, s.audioPipelineRemoveListener = (ESP_OK, { s with events := es, listener := none }) ∧
      Events.Rewired s.events es (Linked s.elList.items) none := by
  obtain ⟨hok, hrew⟩ := @forLinked_rewired (fun es el => es.audioEventIfaceRemoveListener l el) none
    (fun es e => (es.iface e).externalQueue ≠ none ∧ (es.iface e).externalQueueSize ≠ 0)
    (fun es e hr => Events.removeListener_rewired hr.1 hr.2)
    (fun es es' e e' he hr hready => by rwa [(hr e').2 he])
    s.elList.items s.elList.nodup s.events
    (fun item hi hli => ⟨(h l hl item hi hli).1.1, (h l hl item hi hli).2⟩)
  refine ⟨_, ?_, hrew⟩
  unfold audioPipelineRemoveListener
  rw [hl]
  dsimp only
  rw [hok, if_neg (by decide)]

/-- Setting a listener that has a queue attaches the linked elements. -/
theorem forLinked_setListener (s : Links) {l q : ℕ}
    (hq : (s.events.iface l).internalQueue = some q)
    (hsize : (s.events.iface l).internalQueueSize ≠ 0) :
    (forLinked (fun es el => es.audioEventIfaceSetListener el l) s.events s.elList.items).1 = ESP_OK ∧
      Events.Rewired s.events
        (forLinked (fun es el => es.audioEventIfaceSetListener el l) s.events s.elList.items).2
        (Linked s.elList.items) (some q) := by
  refine @forLinked_rewired (fun es el => es.audioEventIfaceSetListener el l) (some q)
    (fun es _ => (es.iface l).internalQueue = some q ∧ (es.iface l).internalQueueSize ≠ 0)
    (fun es e hr => Events.setListener_rewired hr.1 hr.2) (fun es es' e e' _ hr hready => ?_)
    s.elList.items s.elList.nodup s.events fun _ _ _ => ⟨hq, hsize⟩
  by_cases he : l = e
  · rw [(hr l).1 he]
    exact hready
  · rw [(hr l).2 he]
    exact hready

/-- A listener without a queue cannot be set, and nothing happens. -/
theorem forLinked_setListener_invalid {l : ℕ} (items : List ElementItem) (es : Events)
    (h : (es.iface l).internalQueue = none ∨ (es.iface l).internalQueueSize = 0) :
    (forLinked (fun es el => es.audioEventIfaceSetListener el l) es items).2 = es ∧
      ((forLinked (fun es el => es.audioEventIfaceSetListener el l) es items).1 = ESP_OK →
        ∀ item ∈ items, item.linked = false) := by
  have hfail : ∀ e, es.audioEventIfaceSetListener e l = (ESP_ERR_INVALID_ARG, es) := by
    intro e
    unfold Events.audioEventIfaceSetListener
    rcases h with h | h
    · rw [h]
    · cases hq : (es.iface l).internalQueue with
      | none => rfl
      | some q =>
        dsimp only
        rw [if_pos h]
  induction items with
  | nil => exact ⟨rfl, fun _ item hi => absurd hi (by simp)⟩
  | cons item items ih =>
    rw [forLinked]
    split_ifs with hl
    · have hne : ESP_ERR_INVALID_ARG ≠ ESP_OK := by decide
      have hne' : ESP_FAIL ≠ ESP_OK := by decide
      dsimp only
      rw [hfail, if_pos hne]
      exact ⟨rfl, fun hret => absurd hret hne'⟩
    · refine ⟨ih.1, fun hret i hi => ?_⟩
      rcases List.mem_cons.mp hi with rfl | hi
      · simpa using hl
      · exact ih.2 hret i hi

/-! ### Calls that leave the listener alone -/

/-- The listener and its events are the same; every linked element was linked before, or is one of
`new`, and so with the registered ones. -/
structure Marks (new : ℕ → Prop) (s s' : Links) : Prop where
  events : s'.events = s.events
  listener : s'.listener = s.listener
  linked : ∀ e, Linked s'.elList.items e → new e ∨ Linked s.elList.items e
  has : ∀ e, s'.elList.has e = true → new e ∨ s.elList.has e = true

theorem Marks.of_eq {new : ℕ → Prop} (he : s'.events = s.events) (hl : s'.listener = s.listener)
    (hlist : s'.elList = s.elList) : Marks new s s' :=
  ⟨he, hl, fun _ h => Or.inr (hlist ▸ h), fun _ h => Or.inr (hlist ▸ h)⟩

theorem Marks.trans {new : ℕ → Prop} (h : Marks new s s') (h' : Marks new s' t) : Marks new s t :=
  ⟨h'.events.trans h.events, h'.listener.trans h.listener,
    fun e he => (h'.linked e he).elim Or.inl (h.linked e),
    fun e he => (h'.has e he).elim Or.inl (h.has e)⟩

theorem Marks.mono {new new' : ℕ → Prop} (h : Marks new s s') (hn : ∀ e, new e → new' e) :
    Marks new' s s' :=
  ⟨h.events, h.listener, fun e he => (h.linked e he).imp_left (hn e),
    fun e he => (h.has e he).imp_left (hn e)⟩

theorem setFlags_has (s : Links) (el : ℕ) (linked keptCtx : Bool → Bool) (e : ℕ) :
    (s.setFlags el linked keptCtx).elList.has e = s.elList.has e := by
  rw [ElList.has, ElList.has, setFlags, ElList.setFlags_els]

/-- Marking one element. -/
theorem marks_setFlags (s : Links) (el : ℕ) (linked keptCtx : Bool → Bool) :
    Marks (fun e => e = el) s (s.setFlags el linked keptCtx) := by
  refine ⟨rfl, rfl, ?_, fun e he => Or.inr (by rwa [setFlags_has] at he)⟩
  rintro e ⟨item, hi, rfl, hl⟩
  obtain ⟨item₀, hi₀, rfl⟩ := ElList.mem_setFlags.mp hi
  split_ifs at hl ⊢ with he
  · exact Or.inl he
  · exact Or.inr ⟨item₀, hi₀, rfl, hl⟩

/-- Clearing the mark of one element, or leaving it. -/
theorem marks_clearFlags (s : Links) (el : ℕ) {linked : Bool → Bool} (keptCtx : Bool → Bool)
    (hlinked : linked false = false) : Marks (fun _ => False) s (s.setFlags el linked keptCtx) := by
  refine ⟨rfl, rfl, ?_, fun e he => Or.inr (by rwa [setFlags_has] at he)⟩
  rintro e ⟨item, hi, rfl, hl⟩
  obtain ⟨item₀, hi₀, rfl⟩ := ElList.mem_setFlags.mp hi
  right
  split_ifs at hl ⊢ with he
  · refine ⟨item₀, hi₀, rfl, ?_⟩
    by_contra hno
    rw [Bool.not_eq_true] at hno
    simp only [hno, hlinked] at hl
    exact absurd hl (by decide)
  · exact ⟨item₀, hi₀, rfl, hl⟩

theorem createRing_marks (s : Links) (el : ℕ) : Marks (fun _ => False) s (s.createRing el).2 := by
  rcases createRing_cases s el with ⟨_, h⟩ | ⟨_, h⟩ <;> rw [h] <;> exact .of_eq rfl rfl rfl

theorem pipelineRbLinked_marks (s : Links) (el : ℕ) (first last : Bool) :
    Marks (fun _ => False) s (s.pipelineRbLinked el first last).2 := by
  unfold pipelineRbLinked
  cases last with
  | true => exact .of_eq rfl rfl rfl
  | false =>
    rw [if_neg (by decide)]
    have hs₁ : Marks (fun _ => False) s
        (if first then s else s.audioElementSetInputRingbuf el s.linkedRb) := by
      cases first <;> exact .of_eq rfl rfl rfl
    generalize (if first then s else s.audioElementSetInputRingbuf el s.linkedRb) = s₁ at hs₁ ⊢
    have hring := createRing_marks s₁ el
    dsimp only
    rcases hc : s₁.createRing el with ⟨_ | rb, s₂⟩
    · rw [hc] at hring
      exact (hs₁.trans hring).trans (.of_eq rfl rfl rfl)
    · rw [hc] at hring
      exact (hs₁.trans hring).trans (.of_eq rfl rfl rfl)

theorem reuseRing_marks (s : Links) (el : ℕ) (keptCtx : Bool) :
    Marks (fun _ => False) s (s.reuseRing el keptCtx).2 := by
  unfold reuseRing
  split_ifs
  · split
    · exact .of_eq rfl rfl rfl
    · next rb rbList _ =>
      have hlist : Marks (fun _ => False) s { s with rbList := rbList } := .of_eq rfl rfl rfl
      exact hlist.trans (marks_clearFlags _ el (fun _ => false) rfl)
  · split <;> exact .of_eq rfl rfl rfl

theorem elItemLink_marks (s : Links) (el : ℕ) (keptCtx first last : Bool) :
    Marks (fun _ => False) s (s.elItemLink el keptCtx first last).2 := by
  have hring : Marks (fun _ => False) s (s.takeRing el keptCtx last).2 := by
    unfold takeRing
    split_ifs
    · exact (reuseRing_marks s el keptCtx).trans (createRing_marks _ el)
    · exact reuseRing_marks s el keptCtx
  unfold elItemLink attachRing
  generalize s.takeRing el keptCtx last = r at hring ⊢
  cases last with
  | true => exact hring.trans (.of_eq rfl rfl rfl)
  | false =>
    rw [if_neg (by decide)]
    obtain ⟨_ | rb, s'⟩ := r
    · exact hring
    · cases first <;> exact hring.trans (.of_eq rfl rfl rfl)

/-- The elements that a linking loop comes to: it ends at the first name that is not registered. -/
def reached (find : Links → κ → Option ElementItem) (s : Links) : List κ → List ℕ
  | [] => []
  | k :: ks =>
    match (find s k).map ElementItem.el with
    | none => []
    | some el => el :: reached find s ks

theorem reached_same (hf : Lookup find) (h : SameNames s s') (ks : List κ) :
    reached find s' ks = reached find s ks := by
  induction ks with
  | nil => rfl
  | cons k ks ih => rw [reached, reached, hf.names h k, ih]

theorem linkLoop_marks (hf : Lookup find) (ks : List κ) (first : Bool) (s : Links) :
    Marks (fun e => e ∈ reached find s ks) s (linkLoop find s first ks).2 := by
  induction ks generalizing s first with
  | nil => exact .of_eq rfl rfl rfl
  | cons k ks ih =>
    rw [linkLoop]
    cases hk : find s k with
    | none => exact .of_eq rfl rfl rfl
    | some item =>
      have hreached : reached find s (k :: ks) = item.el :: reached find s ks := by
        rw [reached, hk]
        rfl
      have hflags := (marks_setFlags s item.el (fun _ => true) fun _ => false).mono
        fun e (he : e = item.el) => show e ∈ reached find s (k :: ks) by
          rw [hreached, he]
          exact List.mem_cons_self
      have hone := hflags.trans
          ((pipelineRbLinked_marks (s.setFlags item.el (fun _ => true) fun _ =>
        false) item.el first ks.isEmpty).mono fun _ => False.elim)
      have hnames := (sameNames_setFlags s item.el (fun _ => true) fun _ => false).trans
        (sameNames_pipelineRbLinked _ item.el first ks.isEmpty)
      dsimp only
      split_ifs
      · exact hone
      · refine hone.trans ((ih false _).mono fun e he => ?_)
        rw [reached_same hf hnames] at he
        rw [hreached]
        exact List.mem_cons_of_mem _ he

theorem relinkLoop_marks (hf : Lookup find) (isFirst : ℕ → Bool) (ks : List κ) (i : ℕ) (s : Links) :
    Marks (fun e => e ∈ reached find s ks) s (relinkLoop find isFirst s i ks).2 := by
  induction ks generalizing s i with
  | nil => exact .of_eq rfl rfl rfl
  | cons k ks ih =>
    rw [relinkLoop]
    cases hk : find s k with
    | none => exact .of_eq rfl rfl rfl
    | some item =>
      have hreached : reached find s (k :: ks) = item.el :: reached find s ks := by
        rw [reached, hk]
        rfl
      have hflags := (marks_setFlags s item.el (fun _ => true) id).mono
        fun e (he : e = item.el) => show e ∈ reached find s (k :: ks) by
          rw [hreached, he]
          exact List.mem_cons_self
      have hone := hflags.trans ((elItemLink_marks (s.setFlags item.el (fun _ => true) id) item.el
        item.keptCtx (isFirst i) ks.isEmpty).mono fun _ => False.elim)
      have hnames := sameNames_relinkOne s item.el item.keptCtx (isFirst i) ks.isEmpty
      refine hone.trans ((ih (i + 1) _).mono fun e he => ?_)
      rw [reached_same hf hnames] at he
      rw [hreached]
      exact List.mem_cons_of_mem _ he

theorem calloc_eq (s : Links) : ∃ memory, s.calloc.2 = { s with memory := memory } := by
  unfold calloc
  split
  · exact ⟨s.memory, rfl⟩
  · exact ⟨_, rfl⟩

theorem calloc_marks (new : ℕ → Prop) (s : Links) : Marks new s s.calloc.2 := by
  obtain ⟨memory, hc⟩ := s.calloc_eq
  rw [hc]
  exact .of_eq rfl rfl rfl

theorem setTag_marks (s : Links) (el : ℕ) (name : CString) :
    Marks (fun _ => False) s (s.audioElementSetTag el name) := by
  have hset : Marks (fun _ => False) s.calloc.2 (s.audioElementSetTag el name) :=
    .of_eq rfl rfl rfl
  exact (s.calloc_marks _).trans hset

theorem mem_remove {l : ElList} {el : ℕ} {item : ElementItem} (h : item ∈ (l.remove el).items) :
    item ∈ l.items := (List.mem_filter.mp h).1

theorem remove_has {l : ElList} {el e : ℕ} (h : (l.remove el).has e = true) : l.has e = true := by
  simp only [ElList.has, decide_eq_true_eq] at h ⊢
  obtain ⟨item, hi, rfl⟩ := List.mem_map.mp h
  exact List.mem_map_of_mem (mem_remove hi)

theorem insertTail_has {l : ElList} {item : ElementItem} (hn : item.el ∉ l.items.map ElementItem.el)
    {e : ℕ} (h : (l.insertTail item hn).has e = true) : e = item.el ∨ l.has e = true := by
  simp only [ElList.has, decide_eq_true_eq] at h ⊢
  rw [ElList.insertTail, List.map_append, List.mem_append] at h
  rcases h with h | h
  · exact Or.inr h
  · exact Or.inl (by simpa using h)

theorem unregister_marks (s : Links) (el : ℕ) :
    Marks (fun _ => False) s (s.audioPipelineUnregister el).2 := by
  refine ⟨rfl, rfl, ?_, fun e he => Or.inr (remove_has he)⟩
  rintro e ⟨item, hi, rfl, hl⟩
  exact Or.inr ⟨item, mem_remove hi, rfl, hl⟩

/-- A registered element is not linked. -/
theorem register_marks (s : Links) (el : ℕ) (name : Option CString) :
    Marks (fun e => e = el) s (s.audioPipelineRegister el name).2 ∧
      ∀ e, Linked (s.audioPipelineRegister el name).2.elList.items e → Linked s.elList.items e := by
  have hname : ∀ s₁ : Links, Marks (fun _ => False) s s₁ →
      Marks (fun e => e = el) s (s₁.registered ((s.elList.remove el).insertTail ⟨el, false, false⟩
          (s.elList.not_mem_remove el))).2 ∧
        ∀ e, Linked (s₁.registered ((s.elList.remove el).insertTail ⟨el, false, false⟩
          (s.elList.not_mem_remove el))).2.elList.items e → Linked s.elList.items e := by
    intro s₁ h₁
    have hc := s₁.calloc_marks fun _ => False
    unfold registered
    rcases hcalloc : s₁.calloc with ⟨_ | _, s'⟩
    · rw [hcalloc] at hc
      have hall := h₁.trans hc
      exact ⟨hall.mono fun _ => False.elim, fun e he => (hall.linked e he).resolve_left id⟩
    · rw [hcalloc] at hc
      have hall := h₁.trans hc
      have hlinked : ∀ e, Linked ((s.elList.remove el).insertTail ⟨el, false, false⟩
          (s.elList.not_mem_remove el)).items e → Linked s.elList.items e := by
        rintro e ⟨item, hi, rfl, hl⟩
        rcases List.mem_append.mp hi with hi | hi
        · exact ⟨item, mem_remove hi, rfl, hl⟩
        · rw [List.mem_singleton.mp hi] at hl
          exact absurd hl (by simp)
      exact ⟨⟨hall.events, hall.listener, fun e he => Or.inr (hlinked e he),
        fun e he => (insertTail_has (s.elList.not_mem_remove el) he).imp_right remove_has⟩, hlinked⟩
  have hstart := s.unregister_marks el
  rw [audioPipelineRegister_eq]
  cases name with
  | none => exact hname _ hstart
  | some name => exact hname _ (hstart.trans (setTag_marks _ el name))

theorem registerElement_marks (s : Links) (el : ℕ) :
    Marks (fun e => e = el ∧ s.elList.has e = false) s (s.audioPipelineRegisterElement el) := by
  unfold audioPipelineRegisterElement
  split_ifs with hin
  · exact .of_eq rfl rfl rfl
  · have hc := s.calloc_marks fun e => e = el ∧ s.elList.has e = false
    have hno : s.elList.has el = false := by simpa [ElList.has] using hin
    rcases hcalloc : s.calloc with ⟨_ | _, s'⟩
    · rw [hcalloc] at hc
      exact hc
    · rw [hcalloc] at hc
      refine ⟨hc.events, hc.listener, ?_, fun e he => ?_⟩
      · rintro e ⟨item, hi, rfl, hl⟩
        rcases List.mem_append.mp hi with hi | hi
        · exact Or.inr ⟨item, hi, rfl, hl⟩
        · rw [List.mem_singleton.mp hi]
          exact Or.inl ⟨rfl, hno⟩
      · refine (insertTail_has hin he).imp_left ?_
        rintro rfl
        exact ⟨rfl, hno⟩

/-- Registering keeps what is registered. -/
theorem registerElement_has (s : Links) (el : ℕ) {e : ℕ}
    (h : (s.audioPipelineRegisterElement el).elList.has e = false) : s.elList.has e = false := by
  unfold audioPipelineRegisterElement at h
  split_ifs at h with hin
  · exact h
  · obtain ⟨memory, hc⟩ := s.calloc_eq
    rcases hcalloc : s.calloc with ⟨_ | _, s'⟩
    · rw [hcalloc] at hc h
      subst hc
      exact h
    · rw [hcalloc] at hc h
      subst hc
      simp only [ElList.has, ElList.insertTail, List.map_append, List.mem_append,
        decide_eq_false_iff_not, not_or] at h ⊢
      exact h.1

theorem registerMore_marks (els : List ℕ) (s : Links) :
    Marks (fun e => e ∈ els ∧ s.elList.has e = false) s
      (els.foldl audioPipelineRegisterElement s) := by
  induction els generalizing s with
  | nil => exact .of_eq rfl rfl rfl
  | cons el els ih =>
    have hone := (registerElement_marks s el).mono fun e (he : e = el ∧ s.elList.has e = false) =>
      show e ∈ el :: els ∧ s.elList.has e = false from
        ⟨by rw [he.1]; exact List.mem_cons_self, he.2⟩
    refine hone.trans ((ih _).mono fun e he => ?_)
    exact ⟨List.mem_cons_of_mem _ he.1, registerElement_has s el he.2⟩

theorem unregisterMore_marks (els : List ℕ) (s : Links) :
    Marks (fun _ => False) s (els.foldl (fun s el => (s.audioPipelineUnregister el).2) s) := by
  induction els generalizing s with
  | nil => exact .of_eq rfl rfl rfl
  | cons el els ih => exact (s.unregister_marks el).trans (ih _)

theorem linkInsert_marks (s : Links) (first : Bool) (prev conectRb next : ℕ) :
    Marks (fun e => e ∈ (if first then [prev, next] else [next]) ∧ s.elList.has e = false) s
      (s.audioPipelineLinkInsert first prev conectRb next).2 := by
  have hreg : Marks (fun e => e ∈ (if first then [prev, next] else [next]) ∧
      s.elList.has e = false) s ((if first then s.audioPipelineRegisterElement prev
        else s).audioPipelineRegisterElement next) := by
    cases first with
    | true => exact registerMore_marks [prev, next] s
    | false => exact registerMore_marks [next] s
  unfold audioPipelineLinkInsert
  dsimp only
  generalize (if first then s.audioPipelineRegisterElement prev
    else s).audioPipelineRegisterElement next = s₁ at hreg ⊢
  have hset : Marks (fun e => e ∈ (if first then [prev, next] else [next]) ∧ s.elList.has e = false)
      s₁ ((s₁.audioElementSetOutputRingbuf prev
        (some conectRb)).audioElementSetInputRingbuf next (some conectRb)) := .of_eq rfl rfl rfl
  exact (hreg.trans (hset.trans (calloc_marks _ _))).trans (.of_eq rfl rfl rfl)

theorem resetKeptState_marks (s : Links) (el : ℕ) :
    Marks (fun _ => False) s (s.audioPipelineResetKeptState el).2 := by
  have hclear := @marks_clearFlags s el (fun _ => false) (fun _ => false) rfl
  exact hclear.trans (.of_eq rfl rfl rfl)

theorem reached_has (hf : Lookup find) {ks : List κ} {e : ℕ} (h : e ∈ reached find s ks) :
    s.elList.has e = true := by
  induction ks with
  | nil => exact absurd h (by simp [reached])
  | cons k ks ih =>
    rw [reached] at h
    cases hk : find s k with
    | none =>
      rw [hk] at h
      exact absurd h (by simp)
    | some item =>
      rw [hk] at h
      rcases List.mem_cons.mp h with rfl | h
      · exact decide_eq_true (List.mem_map_of_mem (hf.mem hk))
      · exact ih h

end Links

/-! ### Runs -/

/-- A pipeline, and which elements it has attached to which listeners. -/
structure Listening where
  links : Links
  /-- The pairs of a listener and an element that `audio_pipeline_set_listener` has attached. -/
  attached : List (ℕ × ℕ)

namespace Listening

variable {s s' : Listening} {elements : ℕ → Prop}

/-- A call.  `audio_pipeline_set_listener` attaches the linked elements; a listener that cannot be
set makes it fail at the first one. -/
def step (s : Listening) (op : Links.Op) : Option Listening :=
  let r := s.links.call op
  some
    { links := r.2
      attached := match op with
        | .setListener listener =>
          if r.1 = ESP_OK then
            s.attached ++ (s.links.elList.items.filter fun item => item.linked).map fun item =>
              (listener, item.el)
          else s.attached
        | _ => s.attached }

/-- Every linked element sends to the listener, no element that has been attached to another one
still sends to that, and removing the listener changes nothing when it fails. -/
structure Wiring (s : Listening) : Prop where
  linked : ∀ l, s.links.listener = some l → ∀ item ∈ s.links.elList.items, item.linked = true →
    s.links.events.Sends item.el l
  former : ∀ l e, (l, e) ∈ s.attached → s.links.listener ≠ some l → ¬s.links.events.Sends e l
  failing : s.links.audioPipelineRemoveListener.1 ≠ ESP_OK → ∀ e,
    (s.links.audioPipelineRemoveListener.2.events.iface e).externalQueue =
      (s.links.events.iface e).externalQueue

/-- The elements that still send to the listener after having been attached to it are registered
and linked. -/
def Finds (s : Listening) : Prop :=
  ∀ l e, s.links.listener = some l → (l, e) ∈ s.attached → s.links.events.Sends e l →
    Links.Linked s.links.elList.items e

/-- If there is a listener, these elements send to it already. -/
def Prepared (s : Listening) (els : ℕ → Prop) : Prop :=
  ∀ l, s.links.listener = some l → ∀ e, els e → s.links.events.Sends e l

/-- The listener is removed, or replaced, only when that finds all elements attached to it, and
while there is one only elements that send to it become linked.  Only elements are registered. -/
def Careful (elements : ℕ → Prop) (s : Listening) : Links.Op → Prop
  | .register el _ => elements el
  | .registerMore els =>
    (∀ e ∈ els, elements e) ∧ s.Prepared fun e => e ∈ els ∧ s.links.elList.has e = false
  | .linkInsert first prev _ next =>
    (∀ e ∈ if first then [prev, next] else [next], elements e) ∧
      s.Prepared fun e => e ∈ (if first then [prev, next] else [next]) ∧
        s.links.elList.has e = false
  | .link linkTag =>
    if s.links.linked then s.Finds
    else s.Prepared fun e => e ∈ Links.reached Links.getElItemByTag s.links linkTag
  | .linkMore els =>
    if s.links.linked then s.Finds
    else s.Prepared fun e => e ∈ Links.reached Links.getElItemByHandle s.links els
  | .relink linkTag =>
    s.links.linked = false →
      s.Prepared fun e => e ∈ Links.reached Links.getElItemByTag s.links linkTag
  | .relinkMore els =>
    s.links.linked = false →
      s.Prepared fun e => e ∈ Links.reached Links.getElItemByHandle s.links els
  | .unlink => s.links.linked = true → s.Finds
  | .breakupElements _ => s.Finds
  | .setListener _ => s.Finds
  | .removeListener => s.Finds
  | _ => True

/-- What careful runs preserve. -/
structure Inv (elements : ℕ → Prop) (s : Listening) : Prop where
  linked : ∀ l, s.links.listener = some l → ∀ e, Links.Linked s.links.elList.items e →
    s.links.events.Sends e l
  former : ∀ l e, (l, e) ∈ s.attached → s.links.listener ≠ some l → ¬s.links.events.Sends e l
  element : ∀ e, s.links.elList.has e = true → elements e
  size : ∀ e, elements e → (s.links.events.iface e).externalQueueSize ≠ 0
  queues : ∀ a b q, (s.links.events.iface a).internalQueue = some q →
    (s.links.events.iface b).internalQueue = some q → a = b

theorem linked_has {items : List ElementItem} {l : ElList} (hl : l.items = items) {e : ℕ}
    (h : Links.Linked items e) : l.has e = true := by
  obtain ⟨item, hi, rfl, -⟩ := h
  exact decide_eq_true (List.mem_map_of_mem (hl ▸ hi))

theorem Inv.allSend (h : Inv elements s) : Links.AllSend s.links := fun l hl item hi hlinked =>
  ⟨h.linked l hl item.el (Links.Linked.of_mem hi hlinked),
    h.size item.el (h.element item.el (linked_has rfl (Links.Linked.of_mem hi hlinked)))⟩

theorem Inv.wiring (h : Inv elements s) : Wiring s where
  linked l hl item hi hlinked := h.linked l hl item.el (Links.Linked.of_mem hi hlinked)
  former := h.former
  failing hret e := by
    cases hl : s.links.listener with
    | none => rw [Links.audioPipelineRemoveListener, hl]
    | some l =>
      obtain ⟨es, hrem, -⟩ := Links.removeListener_of_allSend h.allSend hl
      rw [hrem] at hret
      exact absurd rfl hret

/-- A call that leaves the listener alone. -/
theorem Inv.marks {new : ℕ → Prop} {t : Links} (h : Inv elements s) (hm : s.links.Marks new t)
    (hprep : s.Prepared new) (hnew : ∀ e, new e → elements e) : Inv elements ⟨t, s.attached⟩ where
  linked l hl e he := by
    rw [hm.listener] at hl
    rw [hm.events]
    rcases hm.linked e he with he | he
    · exact hprep l hl e he
    · exact h.linked l hl e he
  former l e hmem hl := by
    rw [hm.events]
    rw [hm.listener] at hl
    exact h.former l e hmem hl
  element e he := (hm.has e he).elim (hnew e) (h.element e)
  size := by
    rw [hm.events]
    exact h.size
  queues := by
    rw [hm.events]
    exact h.queues

/-- A call that has removed the listener. -/
theorem Inv.of_none {t : Links} (h : Inv elements s) (hl : s.links.listener = none)
    (he : t.events = s.links.events) (hl' : t.listener = none)
    (hels : t.elList.items.map ElementItem.el = s.links.elList.items.map ElementItem.el) :
    Inv elements ⟨t, s.attached⟩ where
  linked l hsome := by
    rw [hl'] at hsome
    exact absurd hsome (by simp)
  former l e hmem _ := by
    rw [he]
    exact h.former l e hmem (by rw [hl]; simp)
  element e hhas := by
    refine h.element e ?_
    rw [ElList.has] at hhas ⊢
    rwa [← hels]
  size := by
    rw [he]
    exact h.size
  queues := by
    rw [he]
    exact h.queues

/-- Removing the listener. -/
theorem Inv.remove (h : Inv elements s) (hf : s.Finds) :
    Inv elements ⟨s.links.audioPipelineRemoveListener.2, s.attached⟩ ∧
      s.links.audioPipelineRemoveListener.2.listener = none ∧
      s.links.audioPipelineRemoveListener.2.elList = s.links.elList := by
  cases hl : s.links.listener with
  | none =>
    have hsame : s.links.audioPipelineRemoveListener.2 = s.links := by
      rw [Links.audioPipelineRemoveListener, hl]
    rw [hsame]
    exact ⟨h, hl, rfl⟩
  | some l =>
    obtain ⟨es, hrem, hrew⟩ := Links.removeListener_of_allSend h.allSend hl
    rw [hrem]
    refine ⟨⟨fun l' hl' => absurd hl' (by simp), fun l' e hmem _ hsends => ?_, h.element, ?_, ?_⟩,
      rfl, rfl⟩
    · -- an element that still sends has not been linked
      by_cases he : Links.Linked s.links.elList.items e
      · refine hsends.1 ?_
        rw [(hrew e).1 he]
      · have hbefore : s.links.events.Sends e l' := by
          unfold Events.Sends at hsends ⊢
          rwa [(hrew e).2 he, (hrew.internal l').1] at hsends
        by_cases hll : l' = l
        · subst hll
          exact he (hf l' e hl hmem hbefore)
        · exact h.former l' e hmem (by rw [hl]; simpa using Ne.symm hll) hbefore
    · intro e he
      rw [(hrew.internal e).2]
      exact h.size e he
    · intro a b q ha hb
      rw [(hrew.internal a).1] at ha
      rw [(hrew.internal b).1] at hb
      exact h.queues a b q ha hb

theorem Inv.unlink (h : Inv elements s) (hf : s.links.linked = true → s.Finds) :
    Inv elements ⟨s.links.audioPipelineUnlink, s.attached⟩ ∧
      (s.links.linked = true → s.links.audioPipelineUnlink.listener = none) := by
  by_cases hl : s.links.linked = true
  · obtain ⟨hinv, hnone, hlist⟩ := h.remove (hf hl)
    have hsame : s.links.audioPipelineUnlink.events = s.links.audioPipelineRemoveListener.2.events ∧
        s.links.audioPipelineUnlink.listener = none := by
      refine @Links.unlink_preserves s.links (fun t => t.events =
        s.links.audioPipelineRemoveListener.2.events ∧ t.listener = none)
        (fun hno => ?_) (fun _ => ⟨rfl, hnone⟩) (fun _ _ h => h) (fun _ _ h => h) (fun _ _ h => h)
        fun _ h => h
      rw [hl] at hno
      exact absurd hno (by decide)
    refine ⟨hinv.of_none hnone hsame.1 hsame.2 ?_, fun _ => hsame.2⟩
    rw [s.links.unlink_names.els, hlist]
  · rw [Links.unlink_of_not_linked (by simpa using hl)]
    exact ⟨h, fun h => absurd h hl⟩

theorem Inv.link {κ : Type} {find : Links → κ → Option ElementItem} (hfind : Links.Lookup find)
    {ks : List κ} (h : Inv elements s)
    (hc : if s.links.linked then s.Finds
      else s.Prepared fun e => e ∈ Links.reached find s.links ks) :
    Inv elements ⟨(Links.linkLoop find s.links.audioPipelineUnlink true ks).2, s.attached⟩ := by
  have hmarks := Links.linkLoop_marks hfind ks true s.links.audioPipelineUnlink
  by_cases hl : s.links.linked = true
  · rw [if_pos hl] at hc
    obtain ⟨hinv, hnone⟩ := h.unlink fun _ => hc
    refine hinv.marks hmarks (fun l hsome => ?_) fun e he =>
      hinv.element e (Links.reached_has hfind he)
    rw [hnone hl] at hsome
    exact absurd hsome (by simp)
  · rw [if_neg hl] at hc
    rw [Links.unlink_of_not_linked (by simpa using hl)] at hmarks ⊢
    exact h.marks hmarks hc fun e he => h.element e (Links.reached_has hfind he)

theorem Inv.breakup (h : Inv elements s) (hf : s.Finds) (keptCtxEl : Option ℕ) :
    Inv elements ⟨(s.links.audioPipelineBreakupElements keptCtxEl).2, s.attached⟩ := by
  obtain ⟨hinv, hnone, hlist⟩ := h.remove hf
  have hrest := Links.breakupElements_sameRest keptCtxEl
    s.links.audioPipelineRemoveListener.2.elList.items true s.links.audioPipelineRemoveListener.2
  exact hinv.of_none hnone hrest.events (hrest.listener.trans hnone) hrest.els

/-- Setting a listener while there is none. -/
theorem Inv.attach {s₁ : Links} {attached : List (ℕ × ℕ)} (h : Inv elements ⟨s₁, attached⟩)
    (hnone : s₁.listener = none) (listener : ℕ) :
    let r := Links.forLinked (fun es el => es.audioEventIfaceSetListener el listener) s₁.events
      s₁.elList.items
    (r.1 = ESP_OK → Inv elements ⟨{ s₁ with events := r.2, listener := some listener },
      attached ++ (s₁.elList.items.filter fun item => item.linked).map fun item =>
        (listener, item.el)⟩) ∧
      (r.1 ≠ ESP_OK → Inv elements ⟨{ s₁ with events := r.2 }, attached⟩) := by
  have hnew : ∀ l e, (l, e) ∈ attached ++ (s₁.elList.items.filter fun item => item.linked).map
      (fun item => (listener, item.el)) → some listener ≠ some l → (l, e) ∈ attached := by
    intro l e hmem hne
    rcases List.mem_append.mp hmem with hmem | hmem
    · exact hmem
    · obtain ⟨item, -, heq⟩ := List.mem_map.mp hmem
      exact absurd (congrArg (fun p => some p.1) heq) hne
  have hformer : ∀ l e, (l, e) ∈ attached → ¬s₁.events.Sends e l := fun l e hmem =>
    h.former l e hmem (by
      show s₁.listener ≠ some l
      rw [hnone]
      simp)
  -- a listener without a queue is refused as soon as there is an element that is linked
  by_cases hvalid : (s₁.events.iface listener).internalQueue = none ∨
      (s₁.events.iface listener).internalQueueSize = 0
  · obtain ⟨hsame, hno⟩ := Links.forLinked_setListener_invalid s₁.elList.items s₁.events hvalid
    refine ⟨fun hret => ⟨fun l _ e he => ?_, fun l e hmem hne => ?_, h.element, ?_, ?_⟩,
      fun _ => ⟨fun l hl => ?_, fun l e hmem _ => ?_, h.element, ?_, ?_⟩⟩
    · -- nothing is linked
      obtain ⟨item, hi, -, hl⟩ := he
      rw [hno hret item hi] at hl
      exact absurd hl (by decide)
    · rw [hsame]
      exact hformer l e (hnew l e hmem hne)
    · rw [hsame]
      exact h.size
    · rw [hsame]
      exact h.queues
    · change s₁.listener = some l at hl
      rw [hnone] at hl
      exact absurd hl (by simp)
    · rw [hsame]
      exact hformer l e hmem
    · rw [hsame]
      exact h.size
    · rw [hsame]
      exact h.queues
  · rw [not_or] at hvalid
    obtain ⟨q, hq⟩ := Option.ne_none_iff_exists'.mp hvalid.1
    obtain ⟨hok, hrew⟩ := s₁.forLinked_setListener hq hvalid.2
    refine ⟨fun _ => ⟨fun l hl e he => ?_, fun l e hmem hne hsends => ?_, h.element, ?_, ?_⟩,
      fun hret => absurd hok hret⟩
    · obtain rfl : listener = l := Option.some.inj hl
      unfold Events.Sends
      rw [(hrew.internal listener).1, hq, (hrew e).1 he]
      exact ⟨Option.some_ne_none q, rfl⟩
    · unfold Events.Sends at hsends
      rw [(hrew.internal l).1] at hsends
      by_cases he : Links.Linked s₁.elList.items e
      · -- the queue is that of the new listener
        rw [(hrew e).1 he] at hsends
        have heq : l = listener := h.queues l listener q hsends.2.symm hq
        exact hne (by rw [heq])
      · rw [(hrew e).2 he] at hsends
        exact hformer l e (hnew l e hmem hne) hsends
    · intro e he
      rw [(hrew.internal e).2]
      exact h.size e he
    · intro a b q' ha hb
      rw [(hrew.internal a).1] at ha
      rw [(hrew.internal b).1] at hb
      exact h.queues a b q' ha hb

theorem Inv.setListener (h : Inv elements s) (hf : s.Finds) (listener : ℕ)
    (hs : s.step (.setListener listener) = some s') : Inv elements s' := by
  obtain rfl := Option.some.inj hs
  -- the old listener is removed first
  obtain ⟨s₁, hs₁, hinv, hnone, hlist⟩ : ∃ s₁,
      (if s.links.listener.isSome then s.links.audioPipelineRemoveListener.2 else s.links) = s₁ ∧
        Inv elements ⟨s₁, s.attached⟩ ∧ s₁.listener = none ∧ s₁.elList = s.links.elList := by
    refine ⟨_, rfl, ?_⟩
    split_ifs with hl
    · exact h.remove hf
    · exact ⟨h, by simpa using hl, rfl⟩
  obtain ⟨hok, hfail⟩ := hinv.attach hnone listener
  have hne : ESP_FAIL ≠ ESP_OK := by decide
  rw [← hlist]
  have hcall : s.links.call (.setListener listener) =
      if (Links.forLinked (fun es el => es.audioEventIfaceSetListener el listener) s₁.events
          s₁.elList.items).1 ≠ ESP_OK then
        (ESP_FAIL, { s₁ with events := (Links.forLinked (fun es el =>
          es.audioEventIfaceSetListener el listener) s₁.events s₁.elList.items).2 })
      else (ESP_OK, { s₁ with
        events := (Links.forLinked (fun es el =>
          es.audioEventIfaceSetListener el listener) s₁.events s₁.elList.items).2
        listener := some listener }) := by
    show s.links.audioPipelineSetListener listener = _
    rw [Links.audioPipelineSetListener, hs₁]
  by_cases hret : (Links.forLinked (fun es el => es.audioEventIfaceSetListener el listener) s₁.events
      s₁.elList.items).1 = ESP_OK
  · rw [if_neg (not_not.mpr hret)] at hcall
    rw [hcall]
    exact hok hret
  · rw [if_pos hret] at hcall
    rw [hcall]
    exact hfail hret

/-- One call. -/
theorem Inv.step (h : Inv elements s) {op : Links.Op} (hc : Careful elements s op)
    (hs : s.step op = some s') : Inv elements s' := by
  obtain rfl := Option.some.inj hs
  have hfalse : s.Prepared fun _ => False := fun _ _ _ => False.elim
  -- each call keeps the marks of those elements that it does not link or register
  cases op with
  | register el name =>
    obtain ⟨hmarks, hlinked⟩ := s.links.register_marks el name
    refine ⟨fun l hl e he => ?_, fun l e hmem hl => ?_, fun e he => ?_, ?_, ?_⟩
    · change (s.links.audioPipelineRegister el name).2.listener = some l at hl
      rw [hmarks.listener] at hl
      show (s.links.audioPipelineRegister el name).2.events.Sends e l
      rw [hmarks.events]
      exact h.linked l hl e (hlinked e he)
    · change (s.links.audioPipelineRegister el name).2.listener ≠ some l at hl
      rw [hmarks.listener] at hl
      show ¬(s.links.audioPipelineRegister el name).2.events.Sends e l
      rw [hmarks.events]
      exact h.former l e hmem hl
    · rcases hmarks.has e he with rfl | he
      · exact hc
      · exact h.element e he
    · show ∀ e, elements e →
        ((s.links.audioPipelineRegister el name).2.events.iface e).externalQueueSize ≠ 0
      rw [hmarks.events]
      exact h.size
    · show ∀ a b q,
        ((s.links.audioPipelineRegister el name).2.events.iface a).internalQueue = some q →
        ((s.links.audioPipelineRegister el name).2.events.iface b).internalQueue = some q → a = b
      rw [hmarks.events]
      exact h.queues
  | registerMore els =>
    exact h.marks (Links.registerMore_marks els s.links) hc.2 fun e he => hc.1 e he.1
  | unregister el => exact h.marks (s.links.unregister_marks el) hfalse fun _ => False.elim
  | unregisterMore els =>
    exact h.marks (Links.unregisterMore_marks els s.links) hfalse fun _ => False.elim
  | link linkTag => exact h.link Links.lookup_tag hc
  | linkMore els => exact h.link Links.lookup_handle hc
  | linkInsert first prev conectRb next =>
    exact h.marks (s.links.linkInsert_marks first prev conectRb next) hc.2 fun e he => hc.1 e he.1
  | unlink => exact (h.unlink hc).1
  | relink linkTag =>
    show Inv elements ⟨(s.links.audioPipelineRelink linkTag).2, s.attached⟩
    unfold Links.audioPipelineRelink
    split_ifs with hl
    · exact h
    · exact h.marks (Links.relinkLoop_marks Links.lookup_tag _ linkTag 0 s.links)
        (hc (by simpa using hl)) fun e he => h.element e (Links.reached_has Links.lookup_tag he)
  | relinkMore els =>
    show Inv elements ⟨(s.links.audioPipelineRelinkMore els).2, s.attached⟩
    unfold Links.audioPipelineRelinkMore
    split_ifs with hl
    · exact h
    · exact h.marks (Links.relinkLoop_marks Links.lookup_handle _ els 0 s.links)
        (hc (by simpa using hl)) fun e he => h.element e (Links.reached_has Links.lookup_handle he)
  | breakupElements keptCtxEl => exact h.breakup hc keptCtxEl
  | resetKeptState el => exact h.marks (s.links.resetKeptState_marks el) hfalse fun _ => False.elim
  | setListener listener => exact h.setListener hc listener rfl
  | removeListener => exact (h.remove hc).1
  | elState el state => exact h.marks (.of_eq rfl rfl rfl) hfalse fun _ => False.elim
  | io rb ring => exact h.marks (.of_eq rfl rfl rfl) hfalse fun _ => False.elim

/-- **The listener is wired**: in every run of calls that are careful in this sense. -/
theorem listener_wired {heap : Heap}
    (hsize : ∀ e, elements e → (heap.events.iface e).externalQueueSize ≠ 0)
    (hqueues : ∀ a b q, (heap.events.iface a).internalQueue = some q →
      (heap.events.iface b).internalQueue = some q → a = b)
    (hr : Lts.Reach step (Careful elements) ⟨⟨heap, .init⟩, []⟩ s) : Wiring s := by
  refine (hr.invariant (I := Inv elements) ?_ fun s op s' hs hc hstep => hs.step hc hstep).wiring
  refine ⟨fun l hl => absurd hl (by simp [Pipeline.init]), fun l e hmem => absurd hmem (by simp),
    fun e he => absurd he ?_, hsize, hqueues⟩
  simp [Pipeline.init, ElList.has, ElList.empty]

/-- Two linked elements, and the listener `7`. -/
def pairListening : Listening where
  links := (Links.pairLinked.call (.setListener 7)).2
  attached := [(7, 1), (7, 2)]

/-- The listener is set after linking, and removed while both elements are registered. -/
theorem listener_wired_pair :
    let s : Listening := ⟨(pairListening.links.call .removeListener).2, pairListening.attached⟩
    Wiring s ∧ s.links.listener = none ∧ (s.links.events.iface 1).externalQueue = none := by
  let elements : ℕ → Prop := fun e => e = 1 ∨ e = 2
  have h₁ : Careful elements ⟨⟨.start, .init⟩, []⟩ (.register 1 (some ['a'])) := Or.inl rfl
  have h₂ : Careful elements
      ⟨((⟨.start, .init⟩ : Links).audioPipelineRegister 1 (some ['a'])).2, []⟩
      (.register 2 (some ['b'])) := Or.inr rfl
  have hpair : Lts.Reach step (Careful elements) ⟨⟨.start, .init⟩, []⟩ ⟨Links.pair, []⟩ :=
    (Lts.Reach.refl.tail h₁ rfl).tail h₂ rfl
  have hnone : Links.pair.listener = none ∧ Links.pairLinked.listener = none := ⟨rfl, rfl⟩
  have h₃ : Careful elements ⟨Links.pair, []⟩ (.link [['a'], ['b']]) :=
    fun l hl => absurd (hnone.1.symm.trans hl) (by simp)
  have hlinked : Lts.Reach step (Careful elements) ⟨⟨.start, .init⟩, []⟩ ⟨Links.pairLinked, []⟩ :=
    hpair.tail h₃ rfl
  have h₄ : Careful elements ⟨Links.pairLinked, []⟩ (.setListener 7) :=
    fun l e hl => absurd (hnone.2.symm.trans hl) (by simp)
  have hset : Lts.Reach step (Careful elements) ⟨⟨.start, .init⟩, []⟩ pairListening :=
    hlinked.tail h₄ rfl
  have h₅ : Careful elements pairListening .removeListener := by
    intro l e _ hmem _
    have he : e = 1 ∨ e = 2 := by
      simp [pairListening] at hmem
      omega
    rcases he with rfl | rfl
    · exact ⟨⟨1, true, false⟩, by decide, rfl, rfl⟩
    · exact ⟨⟨2, true, false⟩, by decide, rfl, rfl⟩
  refine ⟨listener_wired (fun e _ => ?_) (fun a b q ha hb => ?_)
    (hset.tail h₅ rfl), rfl, rfl⟩
  · show (5 : ℕ) ≠ 0
    decide
  · exact (Option.some.inj ha).trans (Option.some.inj hb).symm

/-- Elements linked after the listener was set do not send to it; an element unregistered before
the listener is removed still sends to it; and removing the listener detaches the elements before
the first one that is not attached, and fails. -/
theorem listener_unwired :
    (∃ s, Lts.run step (fun _ _ => True) ⟨⟨.start, .init⟩, []⟩
        [.register 1 (some ['a']), .register 2 (some ['b']), .setListener 7,
          .link [['a'], ['b']]] = some s ∧
      s.links.listener = some 7 ∧ (⟨1, true, false⟩ : ElementItem) ∈ s.links.elList.items ∧
        ¬s.links.events.Sends 1 7) ∧
    (∃ s, Lts.run step (fun _ _ => True) ⟨⟨.start, .init⟩, []⟩
        [.register 1 (some ['a']), .register 2 (some ['b']), .link [['a'], ['b']],
          .setListener 7, .unregister 1, .removeListener] = some s ∧
      (7, 1) ∈ s.attached ∧ s.links.listener = none ∧ s.links.events.Sends 1 7) ∧
    (∃ s, Lts.run step (fun _ _ => True) ⟨⟨.start, .init⟩, []⟩
        [.register 1 (some ['a']), .register 2 (some ['b']), .link [['a'], ['b']],
          .setListener 7, .linkInsert false 2 9 3] = some s ∧
      s.links.audioPipelineRemoveListener.1 = ESP_FAIL ∧ s.links.events.Sends 1 7 ∧
        ¬s.links.audioPipelineRemoveListener.2.events.Sends 1 7) := by
  refine ⟨⟨_, rfl, ?_⟩, ⟨_, rfl, ?_⟩, ⟨_, rfl, ?_⟩⟩
  · exact ⟨rfl, by decide, by decide⟩
  · exact ⟨by decide, rfl, by decide⟩
  · exact ⟨rfl, by decide, by decide⟩

end Listening

end AudioPipeline
