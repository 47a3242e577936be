import AudioPipeline.Pipeline.Equiv.Linkers

/-!
## When linking fails

A linking call that cannot complete the chain should fail and leave everything as it was.  The
loops return in the middle instead, and relinking does not look at the failures of its helper.
`all_or_nothing_iff` says exactly when the calls are all or nothing.

What a call does to the two lists it never undoes: `Links.rank` counts it, and a call that leaves
the rank as it was has left the lists as they were (`Grows`).
-/

namespace AudioPipeline

/-- How far linking has got with the item: it marks it as linked, and no longer as kept. -/
def ElementItem.rank (item : ElementItem) : ℕ :=
  (if item.linked then 1 else 0) + if item.keptCtx then 0 else 1

/-- How far linking has got with the item: it takes its host away, or it uses it. -/
def RingbufItem.rank (item : RingbufItem) : ℕ :=
  if item.keptCtx then 2
  else if item.linked then 3
  else if item.hostEl = none then 1
  else 0

/-- The ranks of a list of ring buffers, and their number. -/
def ringbufRank (items : List RingbufItem) : ℕ := (items.map fun item => item.rank + 1).sum

namespace Links

variable {s s' t : Links} {κ : Type*} {find : Links → κ → Option ElementItem}

/-! ### The rank -/

/-- The ranks of the two lists. -/
def rank (s : Links) : ℕ := (s.elList.items.map ElementItem.rank).sum + ringbufRank s.rbList

/-- The rank does not fall, and where it stays the lists are the same. -/
structure Grows (s s' : Links) : Prop where
  le : s.rank ≤ s'.rank
  same : s.rank = s'.rank → s'.elList = s.elList ∧ s'.rbList = s.rbList

theorem Grows.of_lists (h : s'.elList = s.elList) (h' : s'.rbList = s.rbList) : Grows s s' where
  le := by rw [rank, rank, h, h']
  same _ := ⟨h, h'⟩

theorem Grows.trans (h : Grows s s') (h' : Grows s' t) : Grows s t where
  le := h.le.trans h'.le
  same hr := by
    have hle := h.le
    have hle' := h'.le
    obtain ⟨h1, h2⟩ := h.same (by omega)
    obtain ⟨h3, h4⟩ := h'.same (by omega)
    exact ⟨h3.trans h1, h4.trans h2⟩

/-- Writing the items of a list one by one. -/
theorem sum_rank_map {α : Type*} (rank : α → ℕ) (f : α → α) (hle : ∀ x, rank x ≤ rank (f x))
    (hsame : ∀ x, rank x = rank (f x) → f x = x) (l : List α) :
    (l.map rank).sum ≤ ((l.map f).map rank).sum ∧
      ((l.map rank).sum = ((l.map f).map rank).sum → l.map f = l) := by
  induction l with
  | nil => exact ⟨le_rfl, fun _ => rfl⟩
  | cons x l ih =>
    obtain ⟨ihle, ihsame⟩ := ih
    have hx := hle x
    simp only [List.map_cons, List.sum_cons]
    refine ⟨by omega, fun h => ?_⟩
    rw [hsame x (by omega), ihsame (by omega)]

/-- Linking sets `linked` and clears `kept_ctx`. -/
theorem setFlags_grows (s : Links) (el : ℕ) {linked keptCtx : Bool → Bool}
    (hl : ∀ b, b = true → linked b = true) (hk : ∀ b, b = false → keptCtx b = false) :
    Grows s (s.setFlags el linked keptCtx) := by
  have h := sum_rank_map ElementItem.rank
    (fun item => if item.el = el then
      { item with linked := linked item.linked, keptCtx := keptCtx item.keptCtx } else item)
    (fun item => by
      split_ifs
      · have h1 := hl item.linked
        have h2 := hk item.keptCtx
        rcases item with ⟨_, _ | _, _ | _⟩ <;> simp_all [ElementItem.rank]
      · exact le_rfl)
    (fun item => by
      split_ifs
      · have h1 := hl item.linked
        have h2 := hk item.keptCtx
        rcases item with ⟨_, _ | _, _ | _⟩ <;>
          rcases hlv : linked _ with _ | _ <;> rcases hkv : keptCtx _ with _ | _ <;>
          simp_all [ElementItem.rank]
      · exact fun _ => rfl)
    s.elList.items
  exact
    { le := Nat.add_le_add_right h.1 _
      same := fun hr => ⟨by
        ext1
        exact h.2 (Nat.add_right_cancel hr), rfl⟩ }

/-- The search for a kept ring buffer. -/
theorem takeKept_rank (el : ℕ) (items : List RingbufItem) :
    ringbufRank items ≤ ringbufRank (takeKept el items).2 ∧
      (ringbufRank items = ringbufRank (takeKept el items).2 → (takeKept el items).2 = items) ∧
      ((takeKept el items).1 = none → (takeKept el items).2 = items) := by
  induction items with
  | nil => exact ⟨le_rfl, fun _ => rfl, fun _ => rfl⟩
  | cons item items ih =>
    obtain ⟨ihle, ihsame, ihnone⟩ := ih
    rw [takeKept]
    split_ifs with hhost
    · rcases item with ⟨rb, _ | e, _ | _, _ | _⟩ <;>
        simp_all [ringbufRank, RingbufItem.rank]
    · simp only [ringbufRank, List.map_cons, List.sum_cons] at ihle ihsame ⊢
      refine ⟨by omega, fun h => ?_, fun h => ?_⟩
      · rw [ihsame (by omega)]
      · rw [ihnone h]

/-- The search for a free ring buffer. -/
theorem takeFree_rank (el : ℕ) (items : List RingbufItem) :
    ringbufRank items ≤ ringbufRank (takeFree el items).2 ∧
      (ringbufRank items = ringbufRank (takeFree el items).2 →
        takeFree el items = (none, items)) := by
  induction items with
  | nil => exact ⟨le_rfl, fun _ => rfl⟩
  | cons item items ih =>
    obtain ⟨ihle, ihsame⟩ := ih
    rw [takeFree]
    split_ifs with hidle hhost
    · obtain ⟨hl, hk⟩ := hidle
      simp [ringbufRank, RingbufItem.rank, hl, hk, hhost]
    · obtain ⟨hl, hk⟩ := hidle
      have hbusy : item.rank = 0 := by
        simp [RingbufItem.rank, hl, hk, hhost]
      have hfree : RingbufItem.rank { item with hostEl := none } = 1 := by
        simp [RingbufItem.rank, hl, hk]
      simp only [ringbufRank, List.map_cons, List.sum_cons] at ihle ⊢
      rw [hbusy, hfree]
      exact ⟨by omega, fun heq => absurd heq (by omega)⟩
    · simp only [ringbufRank, List.map_cons, List.sum_cons] at ihle ihsame ⊢
      refine ⟨by omega, fun h => ?_⟩
      rw [ihsame (by omega)]

theorem createRing_grows (s : Links) (el : ℕ) :
    Grows s (s.createRing el).2 ∧
      ((s.createRing el).1 ≠ none → s.rank < (s.createRing el).2.rank) := by
  rcases createRing_cases s el with ⟨_, h⟩ | ⟨_, h⟩
  · rw [h]
    exact ⟨.of_lists rfl rfl, fun hne => absurd rfl hne⟩
  · rw [h]
    have hlt : s.rank < (s.elList.items.map ElementItem.rank).sum +
        ringbufRank (s.rbList ++ [⟨s.nextRb, some el, true, false⟩]) := by
      simp [rank, ringbufRank, RingbufItem.rank]
    exact ⟨⟨hlt.le, fun heq => absurd heq hlt.ne⟩, fun _ => hlt⟩

/-- A ring buffer is found for an element only if something changes. -/
theorem reuseRing_grows (s : Links) {item : ElementItem} (hi : item ∈ s.elList.items) :
    Grows s (s.reuseRing item.el item.keptCtx).2 ∧
      ((s.reuseRing item.el item.keptCtx).1 ≠ none →
        s.rank < (s.reuseRing item.el item.keptCtx).2.rank) := by
  unfold reuseRing
  split_ifs with hk
  · obtain ⟨hle, hsame, hnone⟩ := takeKept_rank item.el s.rbList
    rcases htake : takeKept item.el s.rbList with ⟨_ | rb, rbList⟩
    · rw [htake] at hnone
      exact ⟨.of_lists rfl (hnone rfl), fun hne => absurd rfl hne⟩
    · rw [htake] at hle hsame
      have hrb : Grows s { s with rbList := rbList } :=
        { le := Nat.add_le_add_left hle _
          same := fun hr => ⟨rfl, hsame (Nat.add_left_cancel hr)⟩ }
      have hflags : Grows { s with rbList := rbList }
          (({ s with rbList := rbList } : Links).setFlags item.el id fun _ => false) :=
        setFlags_grows _ item.el (fun _ h => h) fun _ _ => rfl
      have hgrows := hrb.trans hflags
      refine ⟨hgrows, fun _ => lt_of_le_of_ne hgrows.le fun heq => ?_⟩
      -- the item of the element is no longer marked as kept
      obtain ⟨hlist, -⟩ := hgrows.same heq
      have hmem : item ∈ (s.elList.setFlags item.el id fun _ => false).items := by
        change _ = s.elList at hlist
        rw [show s.elList.setFlags item.el id (fun _ => false) = s.elList from hlist]
        exact hi
      obtain ⟨item₀, -, hitem⟩ := ElList.mem_setFlags.mp hmem
      have hel : item₀.el = item.el := by
        rw [hitem]
        split_ifs <;> rfl
      rw [if_pos hel] at hitem
      rw [hitem] at hk
      simp at hk
  · obtain ⟨hle, hsame⟩ := takeFree_rank item.el s.rbList
    rcases htake : takeFree item.el s.rbList with ⟨_ | rb, rbList⟩
    · rw [htake] at hle hsame
      refine ⟨⟨Nat.add_le_add_left hle _, fun hr => ⟨rfl, ?_⟩⟩, fun hne => absurd rfl hne⟩
      exact (Prod.mk.inj (hsame (Nat.add_left_cancel hr))).2
    · rw [htake] at hle hsame
      have hlt : s.rank < rank { s with rbList := rbList } := by
        refine lt_of_le_of_ne (Nat.add_le_add_left hle _) fun heq => ?_
        exact absurd (Prod.mk.inj (hsame (Nat.add_left_cancel heq))).1 (by simp)
      exact ⟨⟨hlt.le, fun heq => absurd heq hlt.ne⟩, fun _ => hlt⟩

theorem takeRing_grows (s : Links) {item : ElementItem} (hi : item ∈ s.elList.items) (last : Bool) :
    Grows s (s.takeRing item.el item.keptCtx last).2 ∧
      ((s.takeRing item.el item.keptCtx last).1 ≠ none →
        s.rank < (s.takeRing item.el item.keptCtx last).2.rank) := by
  have hreuse := s.reuseRing_grows hi
  unfold takeRing
  split_ifs
  · obtain ⟨hcreate, hlt⟩ := createRing_grows (s.reuseRing item.el item.keptCtx).2 item.el
    exact ⟨hreuse.1.trans hcreate, fun hne => lt_of_le_of_lt hreuse.1.le (hlt hne)⟩
  · exact hreuse

theorem attachRing_lists (s : Links) (el : ℕ) (cur : Option ℕ) (first last : Bool) :
    (s.attachRing el cur first last).2.elList = s.elList ∧
      (s.attachRing el cur first last).2.rbList = s.rbList := by
  unfold attachRing
  cases last with
  | true => exact ⟨rfl, rfl⟩
  | false => cases cur <;> cases first <;> exact ⟨rfl, rfl⟩

theorem elItemLink_grows (s : Links) {item : ElementItem} (hi : item ∈ s.elList.items)
    (first last : Bool) : Grows s (s.elItemLink item.el item.keptCtx first last).2 := by
  obtain ⟨h1, h2⟩ := attachRing_lists (s.takeRing item.el item.keptCtx last).2 item.el
    (s.takeRing item.el item.keptCtx last).1 first last
  exact (s.takeRing_grows hi last).1.trans (.of_lists h1 h2)

/-- The item that was found, with its flag set. -/
theorem mem_setLinked {item : ElementItem} (hi : item ∈ s.elList.items) :
    { item with linked := true } ∈ (s.setFlags item.el (fun _ => true) id).elList.items :=
  ElList.mem_setFlags.mpr ⟨item, hi, by rw [if_pos rfl]; rfl⟩

/-! ### Relinking -/

/-- Relinking meets a key that is not registered before it has changed anything: for every element
before it the flag is set already, no ring buffer is found or stripped of its host, and none can be
created. -/
def Inert (find : Links → κ → Option ElementItem) : Links → List κ → Prop
  | _, [] => False
  | s, k :: ks =>
    match find s k with
    | none => True
    | some item =>
      item.linked = true ∧ ks ≠ [] ∧ (s.takeRing item.el item.keptCtx false).1 = none ∧
        (s.takeRing item.el item.keptCtx false).2.rbList = s.rbList ∧
        Inert find (s.takeRing item.el item.keptCtx false).2 ks

/-- Flags that are set are not written. -/
theorem setFlags_of_list_eq {el : ℕ} {linked keptCtx : Bool → Bool}
    (h : (s.setFlags el linked keptCtx).elList = s.elList) : s.setFlags el linked keptCtx = s := by
  change s.elList.setFlags el linked keptCtx = s.elList at h
  rw [setFlags, h]

/-- Relinking never undoes anything; if it fails with the lists as they were, it was inert. -/
theorem relinkLoop_grows (hf : Lookup find) {isFirst : ℕ → Bool} (ks : List κ) (s : Links) (i : ℕ) :
    Grows s (relinkLoop find isFirst s i ks).2 ∧
      (s.rank = (relinkLoop find isFirst s i ks).2.rank →
        (relinkLoop find isFirst s i ks).1 ≠ ESP_OK → Inert find s ks) := by
  induction ks generalizing s i with
  | nil => exact ⟨.of_lists rfl rfl, fun _ h => absurd rfl h⟩
  | cons k ks ih =>
    rw [relinkLoop, Inert]
    cases hitem : find s k with
    | none => exact ⟨.of_lists rfl rfl, fun _ _ => trivial⟩
    | some item =>
      dsimp only
      have hi := hf.mem hitem
      have hflags : Grows s (s.setFlags item.el (fun _ => true) id) :=
        s.setFlags_grows item.el (fun _ _ => rfl) fun _ h => h
      have hlink : Grows (s.setFlags item.el (fun _ => true) id)
          ((s.setFlags item.el (fun _ => true) id).elItemLink item.el item.keptCtx (isFirst i)
            ks.isEmpty).2 :=
        elItemLink_grows _ (mem_setLinked hi) (isFirst i) ks.isEmpty
      obtain ⟨hrest, hinert⟩ := ih ((s.setFlags item.el (fun _ => true) id).elItemLink item.el
        item.keptCtx (isFirst i) ks.isEmpty).2 (i + 1)
      refine ⟨(hflags.trans hlink).trans hrest, fun hr hret => ?_⟩
      have h1 := hflags.le
      have h2 := hlink.le
      have h3 := hrest.le
      have hks : ks ≠ [] := by
        rintro rfl
        exact hret rfl
      -- nothing has changed up to here
      have hsame : s.setFlags item.el (fun _ => true) id = s :=
        setFlags_of_list_eq (hflags.same (by omega)).1
      have hlinked : item.linked = true := by
        have hmem := mem_setLinked (s := s) hi
        rw [hsame] at hmem
        have heq := List.inj_on_of_nodup_map s.elList.nodup hmem hi rfl
        rw [← heq]
      rw [hsame] at hlink hinert h2 h3 hr
      have hempty : ks.isEmpty = false := by simpa using hks
      rw [hempty] at hlink hinert h2 h3 hr
      obtain ⟨htake, hlt⟩ := s.takeRing_grows hi false
      obtain ⟨ha1, ha2⟩ := attachRing_lists (s.takeRing item.el item.keptCtx false).2 item.el
        (s.takeRing item.el item.keptCtx false).1 (isFirst i) false
      have hrank : (s.takeRing item.el item.keptCtx false).2.rank =
          (s.elItemLink item.el item.keptCtx (isFirst i) false).2.rank := by
        rw [elItemLink, rank, rank, ha1, ha2]
      have hnone : (s.takeRing item.el item.keptCtx false).1 = none := by
        by_contra hne
        have := hlt hne
        omega
      have helt : s.elItemLink item.el item.keptCtx (isFirst i) false =
          (ESP_ERR_NO_MEM, (s.takeRing item.el item.keptCtx false).2) := by
        rw [elItemLink, hnone]
        rfl
      rw [helt] at hinert hr h3
      dsimp only at hinert hr h3
      refine ⟨hlinked, hks, hnone, (htake.same (by omega)).2, hinert (by omega) ?_⟩
      rw [hsame, hempty, helt] at hret
      exact hret

/-- Every element's flags and sides, and `rb_list`, are as they were. -/
structure SameLinks (s s' : Links) : Prop where
  flags : s'.elList = s.elList
  input : ∀ e, (s'.els e).input = (s.els e).input
  output : ∀ e, (s'.els e).output = (s.els e).output
  rbList : s'.rbList = s.rbList

theorem SameLinks.refl (s : Links) : SameLinks s s := ⟨rfl, fun _ => rfl, fun _ => rfl, rfl⟩

theorem SameLinks.trans (h : SameLinks s s') (h' : SameLinks s' t) : SameLinks s t :=
  ⟨h'.flags.trans h.flags, fun e => (h'.input e).trans (h.input e),
    fun e => (h'.output e).trans (h.output e), h'.rbList.trans h.rbList⟩

theorem SameLinks.rank_eq (h : SameLinks s s') : s.rank = s'.rank := by
  rw [rank, rank, h.flags, h.rbList]

/-- The flags of an item are what they are to be. -/
theorem setFlags_of_item {item : ElementItem} (hi : item ∈ s.elList.items)
    {linked keptCtx : Bool → Bool} (hl : linked item.linked = item.linked)
    (hk : keptCtx item.keptCtx = item.keptCtx) : s.setFlags item.el linked keptCtx = s := by
  have hid : s.elList.setFlags item.el linked keptCtx = s.elList.setFlags item.el id id :=
    s.elList.setFlags_congr item.el fun item' hi' hel => by
      obtain rfl := List.inj_on_of_nodup_map s.elList.nodup hi' hi hel
      exact ⟨hl, hk⟩
  have hself : s.elList.setFlags item.el id id = s.elList := by
    ext1
    simp [ElList.setFlags]
  exact setFlags_of_list_eq (hid.trans hself)

theorem takeRing_none {el : ℕ} {keptCtx last : Bool} (h : (s.takeRing el keptCtx last).1 = none)
    (hrb : (s.takeRing el keptCtx last).2.rbList = s.rbList) :
    SameLinks s (s.takeRing el keptCtx last).2 := by
  obtain ⟨hels, -⟩ := takeRing_els s el keptCtx last
  refine ⟨?_, fun e => by rw [hels], fun e => by rw [hels], hrb⟩
  have hreuse : (s.reuseRing el keptCtx).1 = none →
      (s.reuseRing el keptCtx).2.elList = s.elList := by
    unfold reuseRing
    split_ifs
    · rcases takeKept el s.rbList with ⟨_ | rb, rbList⟩
      · exact fun _ => rfl
      · exact fun h => absurd h (by simp)
    · rcases takeFree el s.rbList with ⟨_ | rb, rbList⟩ <;> exact fun _ => rfl
  unfold takeRing at h ⊢
  split_ifs at h ⊢ with hc
  · rw [(createRing_els _ el).2, hreuse hc.2]
  · exact hreuse h

/-- Where relinking is inert it fails, and everything is as it was. -/
theorem relinkLoop_inert (hf : Lookup find) {isFirst : ℕ → Bool} (ks : List κ) (s : Links) (i : ℕ)
    (h : Inert find s ks) :
    (relinkLoop find isFirst s i ks).1 = ESP_FAIL ∧
      SameLinks s (relinkLoop find isFirst s i ks).2 := by
  induction ks generalizing s i with
  | nil => exact absurd h id
  | cons k ks ih =>
    rw [Inert] at h
    rw [relinkLoop]
    cases hitem : find s k with
    | none => exact ⟨rfl, .refl s⟩
    | some item =>
      rw [hitem] at h
      obtain ⟨hl, hks, hnone, hrb, hinert⟩ := h
      have hempty : ks.isEmpty = false := by simpa using hks
      dsimp only
      rw [setFlags_of_item (hf.mem hitem) hl.symm rfl, hempty, elItemLink, hnone]
      obtain ⟨hret, hsame⟩ := ih (s.takeRing item.el item.keptCtx false).2 (i + 1) hinert
      exact ⟨hret, (takeRing_none hnone hrb).trans hsame⟩

/-! ### Linking -/

/-- Linking fails at the first key, before it has changed anything: the key is not registered, or
the flags of its element are set already and its ring buffer cannot be created. -/
def FailsFirst (find : Links → κ → Option ElementItem) (s : Links) : List κ → Prop
  | [] => False
  | k :: ks =>
    match find s k with
    | none => True
    | some item =>
      item.linked = true ∧ item.keptCtx = false ∧ ks ≠ [] ∧ (s.createRing item.el).1 = none

/-- With a new ring buffer the list grows. -/
theorem pipelineRbLinked_grows (s : Links) (el : ℕ) (first last : Bool) :
    Grows s (s.pipelineRbLinked el first last).2 ∧
      (first = true → last = false → (s.createRing el).1 ≠ none →
        s.rank < (s.pipelineRbLinked el first last).2.rank) := by
  unfold pipelineRbLinked
  cases last with
  | true => exact ⟨.of_lists rfl rfl, fun _ h => absurd h (by decide)⟩
  | false =>
    rw [if_neg (by decide)]
    have hstart : Grows s (if first then s else s.audioElementSetInputRingbuf el s.linkedRb) := by
      split_ifs
      · exact .of_lists rfl rfl
      · exact .of_lists rfl rfl
    generalize hs₁ :
      (if first then s else s.audioElementSetInputRingbuf el s.linkedRb) = s₁ at hstart
    obtain ⟨hcreate, hlt⟩ := createRing_grows s₁ el
    dsimp only
    rcases hc : s₁.createRing el with ⟨_ | rb, s₂⟩
    · rw [hc] at hcreate
      refine ⟨hstart.trans (hcreate.trans (.of_lists rfl rfl)), fun hf _ hne => ?_⟩
      rw [hf] at hs₁
      obtain rfl : s = s₁ := hs₁
      rw [hc] at hne
      exact absurd rfl hne
    · rw [hc] at hcreate hlt
      refine ⟨hstart.trans (hcreate.trans (.of_lists rfl rfl)), fun _ _ _ => ?_⟩
      exact lt_of_le_of_lt hstart.le (hlt (by simp))

/-- Linking never undoes anything. -/
theorem linkLoop_grows (ks : List κ) (s : Links) (first : Bool) :
    Grows s (linkLoop find s first ks).2 := by
  induction ks generalizing s first with
  | nil => exact .of_lists rfl rfl
  | cons k ks ih =>
    rw [linkLoop]
    cases find s k with
    | none => exact .of_lists rfl rfl
    | some item =>
      have hflags : Grows s (s.setFlags item.el (fun _ => true) fun _ => false) :=
        s.setFlags_grows item.el (fun _ _ => rfl) fun _ _ => rfl
      have hlink := (pipelineRbLinked_grows (s.setFlags item.el (fun _ => true) fun _ => false)
        item.el first ks.isEmpty).1
      dsimp only
      rcases hr : (s.setFlags item.el (fun _ => true) fun _ => false).pipelineRbLinked item.el first
        ks.isEmpty with ⟨ret, s'⟩
      rw [hr] at hlink
      dsimp only
      split_ifs
      · exact hflags.trans hlink
      · exact (hflags.trans hlink).trans (ih s' false)

/-- If linking fails and everything is as it was, it has failed at the first key. -/
theorem linkLoop_failsFirst (hf : Lookup find) {ks : List κ}
    (hret : (linkLoop find s true ks).1 ≠ ESP_OK)
    (hsame : SameLinks s (linkLoop find s true ks).2) :
    FailsFirst find s ks := by
  cases ks with
  | nil => exact absurd rfl hret
  | cons k ks =>
    rw [FailsFirst]
    rw [linkLoop] at hret hsame
    cases hitem : find s k with
    | none => trivial
    | some item =>
      have hi := hf.mem hitem
      rw [hitem] at hret hsame
      dsimp only at hret hsame ⊢
      have hks : ks ≠ [] := by
        rintro rfl
        exact hret rfl
      have hempty : ks.isEmpty = false := by simpa using hks
      rw [hempty] at hret hsame
      have hflags : Grows s (s.setFlags item.el (fun _ => true) fun _ => false) :=
        s.setFlags_grows item.el (fun _ _ => rfl) fun _ _ => rfl
      obtain ⟨hlink, hlt⟩ := pipelineRbLinked_grows
        (s.setFlags item.el (fun _ => true) fun _ => false) item.el true false
      have hle : ((s.setFlags item.el (fun _ => true) fun _ => false).pipelineRbLinked item.el true
          false).2.rank ≤ s.rank := by
        rw [hsame.rank_eq]
        split_ifs
        · exact le_rfl
        · exact (linkLoop_grows ks _ false).le
      have h1 := hflags.le
      have h2 := hlink.le
      have hid : s.setFlags item.el (fun _ => true) (fun _ => false) = s :=
        setFlags_of_list_eq (hflags.same (by omega)).1
      rw [hid] at hlt h2 hle
      have hmem : ({ item with linked := true, keptCtx := false } : ElementItem) ∈
          (s.setFlags item.el (fun _ => true) fun _ => false).elList.items :=
        ElList.mem_setFlags.mpr ⟨item, hi, by rw [if_pos rfl]⟩
      rw [hid] at hmem
      have heq := List.inj_on_of_nodup_map s.elList.nodup hmem hi rfl
      refine ⟨by rw [← heq], by rw [← heq], hks, ?_⟩
      by_contra hne
      have := hlt rfl rfl hne
      omega

/-- Where linking fails at the first key, everything is as it was. -/
theorem linkLoop_of_failsFirst (hf : Lookup find) {ks : List κ} (h : FailsFirst find s ks) :
    (linkLoop find s true ks).1 ≠ ESP_OK ∧ SameLinks s (linkLoop find s true ks).2 := by
  cases ks with
  | nil => exact absurd h id
  | cons k ks =>
    rw [FailsFirst] at h
    rw [linkLoop]
    cases hitem : find s k with
    | none => exact ⟨(by decide : ESP_FAIL ≠ ESP_OK), .refl s⟩
    | some item =>
      rw [hitem] at h
      obtain ⟨hl, hk, hks, hnone⟩ := h
      have hfail : ∃ s', s.pipelineRbLinked item.el true false = (ESP_ERR_NO_MEM, s') ∧
          SameLinks s s' := by
        rcases createRing_cases s item.el with ⟨memory, hc⟩ | ⟨memory, hc⟩
        · refine ⟨{ s with
            memory := memory, linkedRb := if s.calloc.1 then none else s.linkedRb }, ?_,
            ⟨rfl, fun _ => rfl, fun _ => rfl, rfl⟩⟩
          simp [pipelineRbLinked, hc]
        · rw [hc] at hnone
          exact absurd hnone (by simp)
      obtain ⟨s', hs', hsame⟩ := hfail
      have hempty : ks.isEmpty = false := by simpa using hks
      dsimp only
      rw [setFlags_of_item (hf.mem hitem) hl.symm hk.symm, hempty, hs']
      exact ⟨(by decide : ESP_ERR_NO_MEM ≠ ESP_OK), hsame⟩

/-! ### All or nothing -/

/-- Every call that the loop of `audio_pipeline_link` makes of its helper gets its ring buffer. -/
def linkCreates (find : Links → κ → Option ElementItem) : Links → Bool → List κ → Prop
  | _, _, [] => True
  | s, first, k :: ks =>
    match find s k with
    | none => True
    | some item =>
      let r := (s.setFlags item.el (fun _ => true) (fun _ => false)).pipelineRbLinked item.el first
        ks.isEmpty
      r.1 = ESP_OK ∧ linkCreates find r.2 false ks

/-- Every call that the loop of `audio_pipeline_relink` makes of its helper gets its ring buffer. -/
def relinkCreates (find : Links → κ → Option ElementItem) (isFirst : ℕ → Bool) :
    Links → ℕ → List κ → Prop
  | _, _, [] => True
  | s, i, k :: ks =>
    match find s k with
    | none => True
    | some item =>
      let r := (s.setFlags item.el (fun _ => true) id).elItemLink item.el item.keptCtx (isFirst i)
        ks.isEmpty
      r.1 = ESP_OK ∧ relinkCreates find isFirst r.2 (i + 1) ks

/-- The call can complete the chain: every key is registered, and every ring buffer that is needed
can be created. -/
def Completes (find : Links → κ → Option ElementItem) (s : Links) (ks : List κ) (creates : Prop) :
    Prop :=
  (∀ k ∈ ks, (find s k).isSome) ∧ creates

/-- If the chain cannot be completed, the call fails and leaves everything as it was. -/
def AllOrNothing (s : Links) (completes : Prop) (r : ℤ × Links) : Prop :=
  ¬completes → r.1 ≠ ESP_OK ∧ SameLinks s r.2

theorem allOrNothing_iff {completes nothing : Prop} {r : ℤ × Links}
    (h : r.1 ≠ ESP_OK ∧ SameLinks s r.2 ↔ nothing) :
    AllOrNothing s completes r ↔ completes ∨ nothing := by
  unfold AllOrNothing
  rw [h]
  tauto

/-- **All or nothing**: on an unlinked pipeline, a call that cannot complete its chain fails and
leaves everything as it was exactly if it fails before it has changed anything. -/
theorem all_or_nothing_iff (s : Links) (h : s.linked = false) :
    (∀ tags, AllOrNothing s (Completes getElItemByTag s tags (linkCreates getElItemByTag s true tags))
        (s.audioPipelineLink tags) ↔
      Completes getElItemByTag s tags (linkCreates getElItemByTag s true tags) ∨
        FailsFirst getElItemByTag s tags) ∧
    (∀ els, AllOrNothing s
        (Completes getElItemByHandle s els (linkCreates getElItemByHandle s true els))
        (s.audioPipelineLinkMore els) ↔
      Completes getElItemByHandle s els (linkCreates getElItemByHandle s true els) ∨
        FailsFirst getElItemByHandle s els) ∧
    (∀ tags, AllOrNothing s
        (Completes getElItemByTag s tags (relinkCreates getElItemByTag (fun i => i = 0) s 0 tags))
        (s.audioPipelineRelink tags) ↔
      Completes getElItemByTag s tags (relinkCreates getElItemByTag (fun i => i = 0) s 0 tags) ∨
        Inert getElItemByTag s tags) ∧
    (∀ els, AllOrNothing s
        (Completes getElItemByHandle s els
          (relinkCreates getElItemByHandle (fun i => (i + 1) % 2 ^ 16 = 1) s 0 els))
        (s.audioPipelineRelinkMore els) ↔
      Completes getElItemByHandle s els
          (relinkCreates getElItemByHandle (fun i => (i + 1) % 2 ^ 16 = 1) s 0 els) ∨
        Inert getElItemByHandle s els) := by
  have hnot : ¬s.linked = true := by simp [h]
  have hlink : ∀ {κ : Type} {find : Links → κ → Option ElementItem} {ks : List κ}, Lookup find →
      ((linkLoop find s true ks).1 ≠ ESP_OK ∧ SameLinks s (linkLoop find s true ks).2 ↔
        FailsFirst find s ks) := fun hf =>
    ⟨fun ⟨hret, hsame⟩ => linkLoop_failsFirst hf hret hsame, linkLoop_of_failsFirst hf⟩
  have hrelink : ∀ {κ : Type} {find : Links → κ → Option ElementItem} {isFirst : ℕ → Bool}
      {ks : List κ}, Lookup find →
      ((relinkLoop find isFirst s 0 ks).1 ≠ ESP_OK ∧
        SameLinks s (relinkLoop find isFirst s 0 ks).2 ↔ Inert find s ks) := by
    intro κ find isFirst ks hf
    refine ⟨fun ⟨hret, hsame⟩ => (relinkLoop_grows hf ks s 0).2 hsame.rank_eq hret, fun hi => ?_⟩
    obtain ⟨hret, hsame⟩ := @relinkLoop_inert κ find hf isFirst ks s 0 hi
    exact ⟨by rw [hret]; decide, hsame⟩
  refine ⟨fun tags => ?_, fun els => ?_, fun tags => ?_, fun els => ?_⟩
  · rw [audioPipelineLink, unlink_of_not_linked h]
    exact allOrNothing_iff (hlink lookup_tag)
  · rw [audioPipelineLinkMore, unlink_of_not_linked h]
    exact allOrNothing_iff (hlink lookup_handle)
  · rw [audioPipelineRelink, if_neg hnot]
    exact allOrNothing_iff (hrelink lookup_tag)
  · rw [audioPipelineRelinkMore, if_neg hnot]
    exact allOrNothing_iff (hrelink lookup_handle)

/-- A tag that nothing is registered under: linking fails, and the pipeline is as it was. -/
theorem all_or_nothing_pair :
    AllOrNothing pair (Completes getElItemByTag pair [['z']]
        (linkCreates getElItemByTag pair true [['z']])) (pair.audioPipelineLink [['z']]) :=
  ((all_or_nothing_iff pair rfl).1 [['z']]).mpr (Or.inr trivial)

/-- `audio_pipeline_link` fails at its second tag with a ring buffer created for the first one, and
`audio_pipeline_relink` succeeds without a ring buffer. -/
theorem not_all_or_nothing :
    ¬AllOrNothing pair (Completes getElItemByTag pair [['a'], ['z']]
        (linkCreates getElItemByTag pair true [['a'], ['z']]))
        (pair.audioPipelineLink [['a'], ['z']]) ∧
      ¬AllOrNothing { pair with memory := [false] }
        (Completes getElItemByTag { pair with memory := [false] } [['a'], ['b']]
          (relinkCreates getElItemByTag (fun i => i = 0) { pair with memory := [false] } 0
            [['a'], ['b']]))
        (({ pair with memory := [false] } : Links).audioPipelineRelink [['a'], ['b']]) := by
  refine ⟨fun h => ?_, fun h => ?_⟩
  · have hsame := (h fun hc => absurd (hc.1 ['z'] (by simp)) (by decide)).2
    exact absurd hsame.rbList (by decide)
  · have hret := (h fun hc => absurd hc.2.1 (by decide)).1
    exact absurd rfl hret

end Links

end AudioPipeline
