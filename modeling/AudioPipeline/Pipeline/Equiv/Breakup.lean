import Mathlib.Data.List.Perm.Subperm
import AudioPipeline.Pipeline.Equiv.Reuse
import AudioPipeline.Pipeline.Equiv.Undo

/-!
## Breaking up a chain

The header promises that `audio_pipeline_breakup_elements` keeps the working elements up to and
with `kept_ctx_el`, and none if that is `NULL` (`KeepsPrefix`).

The loop clears `kept` at the first element that writes to a ring buffer, whichever that is, so it
keeps at most the first element of the chain and `kept_ctx_el` (`breakup_brokenUp`); and
`kept_ctx_el` stays linked if it is the last element, which writes to no ring buffer.  The promise
is kept exactly when that makes no difference (`keepsPrefix_iff`).
-/

namespace AudioPipeline

/-- `AEL_STATE_RUNNING` or `AEL_STATE_PAUSED`. -/
def LinkEl.Working (e : LinkEl) : Prop := e.state = .running ∨ e.state = .paused

instance (e : LinkEl) : Decidable e.Working := inferInstanceAs (Decidable (_ ∨ _))

namespace Links

variable {s s' t : Links} {mark : ℕ → Prop}

/-- The ring buffers that are marked as kept. -/
def keptRings (s : Links) : List ℕ := (s.rbList.filter RingbufItem.keptCtx).map RingbufItem.rb

theorem mem_keptRings {r : ℕ} :
    r ∈ s.keptRings ↔ ∃ ring ∈ s.rbList, ring.keptCtx = true ∧ ring.rb = r := by
  simp [keptRings, and_assoc]

/-! ### What breaking up does to some elements -/

/-- The elements `els` are broken up: they read from no ring buffer, and only those of `mark` go on
writing to the one they had, which is marked as kept. -/
structure BrokenUp (s s' : Links) (els : List ℕ) (mark : ℕ → Prop) : Prop where
  input : ∀ e ∈ els, ∀ r, (s'.els e).input ≠ .rb (some r)
  output : ∀ e ∈ els, ∀ r,
    (s'.els e).output = .rb (some r) ↔ mark e ∧ (s.els e).output = .rb (some r)
  frame : ∀ e, e ∉ els → s'.els e = s.els e
  registered : s'.elList.items.map ElementItem.el = s.elList.items.map ElementItem.el
  others : ∀ item, item.el ∉ els → (item ∈ s'.elList.items ↔ item ∈ s.elList.items)
  items : ∀ item ∈ s'.elList.items, item.el ∈ els →
    item.linked = false ∧ (item.keptCtx = true ↔ mark item.el)
  kept : ∀ r, r ∈ s'.keptRings ↔
    r ∈ s.keptRings ∨ ∃ e ∈ els, mark e ∧ (s.els e).output = .rb (some r)
  ringbufs : s'.ringbufs = s.ringbufs
  rings : s'.rings = s.rings

theorem BrokenUp.nil (s : Links) (mark : ℕ → Prop) : BrokenUp s s [] mark where
  input e he := absurd he (by simp)
  output e he := absurd he (by simp)
  frame _ _ := rfl
  registered := rfl
  others _ _ := Iff.rfl
  items item _ he := absurd he (by simp)
  kept r := by simp
  ringbufs := rfl
  rings := rfl

/-- One element, and then others. -/
theorem BrokenUp.cons {el : ℕ} {els : List ℕ} (h : BrokenUp s s' [el] mark)
    (h' : BrokenUp s' t els mark) (hel : el ∉ els) : BrokenUp s t (el :: els) mark := by
  have hsame : ∀ e ∈ els, s'.els e = s.els e := fun e he =>
    h.frame e fun hm => hel (List.mem_singleton.mp hm ▸ he)
  refine ⟨fun e he r => ?_, fun e he r => ?_, fun e he => ?_, h'.registered.trans h.registered,
    fun item he => ?_, fun item hi he => ?_, fun r => ?_, h'.ringbufs.trans h.ringbufs,
    h'.rings.trans h.rings⟩
  · rcases List.mem_cons.mp he with rfl | he
    · rw [h'.frame e hel]
      exact h.input e (by simp) r
    · exact h'.input e he r
  · rcases List.mem_cons.mp he with rfl | he
    · rw [h'.frame e hel]
      exact h.output e (by simp) r
    · rw [h'.output e he, hsame e he]
  · rw [List.mem_cons, not_or] at he
    rw [h'.frame e he.2, h.frame e (by simpa using he.1)]
  · rw [List.mem_cons, not_or] at he
    rw [h'.others item he.2, h.others item (by simpa using he.1)]
  · rcases List.mem_cons.mp he with he | he
    · have hi' : item ∈ s'.elList.items := (h'.others item (by rw [he]; exact hel)).mp hi
      exact h.items item hi' (by simp [he])
    · exact h'.items item hi he
  · rw [h'.kept, h.kept, or_assoc]
    refine or_congr_right ⟨?_, ?_⟩
    · rintro (⟨e, he, hm, ho⟩ | ⟨e, he, hm, ho⟩)
      · exact ⟨e, List.mem_cons.mpr (Or.inl (List.mem_singleton.mp he)), hm, ho⟩
      · exact ⟨e, List.mem_cons_of_mem _ he, hm, by rw [← hsame e he]; exact ho⟩
    · rintro ⟨e, he, hm, ho⟩
      rcases List.mem_cons.mp he with rfl | he
      · exact Or.inl ⟨e, by simp, hm, ho⟩
      · exact Or.inr ⟨e, he, hm, by rw [hsame e he]; exact ho⟩

/-- One element is written, and its item; its ring buffer may be marked as kept. -/
theorem BrokenUp.one {item : ElementItem} (hi : item ∈ s.elList.items) (x : LinkEl)
    (keptCtx : Bool → Bool) (hels : s'.els = Function.update s.els item.el x)
    (hlist : s'.elList = s.elList.setFlags item.el (fun _ => false) keptCtx)
    (hinput : ∀ r, x.input ≠ .rb (some r))
    (houtput : ∀ r, x.output = .rb (some r) ↔
      mark item.el ∧ (s.els item.el).output = .rb (some r))
    (hflag : keptCtx item.keptCtx = true ↔ mark item.el)
    (hkept : ∀ r, r ∈ s'.keptRings ↔
      r ∈ s.keptRings ∨ mark item.el ∧ (s.els item.el).output = .rb (some r))
    (hrb : s'.ringbufs = s.ringbufs) (hrings : s'.rings = s.rings) :
    BrokenUp s s' [item.el] mark := by
  have hx : s'.els item.el = x := by rw [hels, Function.update_self]
  refine ⟨fun e he r => ?_, fun e he r => ?_, fun e he => ?_, ?_, fun item' he => ?_,
    fun item' hi' he => ?_, fun r => ?_, hrb, hrings⟩
  · rw [List.mem_singleton.mp he, hx]
    exact hinput r
  · rw [List.mem_singleton.mp he, hx]
    exact houtput r
  · rw [hels, Function.update_of_ne (by simpa using he)]
  · rw [hlist, ElList.setFlags_els]
  · rw [hlist, ElList.mem_setFlags_ne (by simpa using he)]
  · have hel : item'.el = item.el := by simpa using he
    rw [hlist, ElList.mem_setFlags_self hi hel] at hi'
    rw [hi']
    exact ⟨rfl, hflag⟩
  · rw [hkept]
    simp

/-! ### One element -/

theorem cleared_input (e : LinkEl) (r : ℕ) : e.cleared.input ≠ .rb (some r) := by
  intro h
  have hx : ∀ x : Io, x.setRingbuf none ≠ .rb (some r) := by
    rintro (_ | _) h <;> simp [Io.setRingbuf] at h
  exact hx e.input h

theorem cleared_output (e : LinkEl) (r : ℕ) : e.cleared.output ≠ .rb (some r) := by
  intro h
  have hx : ∀ x : Io, x.setRingbuf none ≠ .rb (some r) := by
    rintro (_ | _) h <;> simp [Io.setRingbuf] at h
  exact hx e.output h

theorem detach_eq (s : Links) (el : ℕ) : s.detach el = s.setEl el LinkEl.cleared := by
  simp [detach, audioElementSetInputRingbuf, audioElementSetOutputRingbuf, setEl, LinkEl.cleared]

/-- `release` on an element whose output, if it has one, is in the list: both of its sides are set
to `NULL`, its flags are cleared, and its ring buffer is given up if it is the first one. -/
theorem release_eq (s : Links) (el : ℕ) {items : List RingbufItem} (hne : items ≠ [])
    (hout : ∀ rb, (s.els el).output.ringbuf = some rb → rb ∈ items.map RingbufItem.rb) :
    (s.release el items).1 = (s.setFlags el (fun _ => false) fun _ => false).detach el ∧
      ((s.release el items).2 = items ∨
        ∃ ring rest, items = ring :: rest ∧ (s.els el).output.ringbuf = some ring.rb ∧
          (s.release el items).2 =
            { ring with keptCtx := false, linked := false, hostEl := none } :: rest) := by
  obtain ⟨ring, rest, rfl⟩ := List.exists_cons_of_ne_nil hne
  rw [release]
  split
  · next hnone =>
    refine ⟨?_, Or.inl rfl⟩
    -- there is no output to take away
    simp [detach, audioElementSetInputRingbuf, audioElementSetOutputRingbuf, setEl, setFlags,
      Io.setRingbuf_bare hnone]
  · next rb hrb =>
    split_ifs with heq
    · exact ⟨rfl, Or.inr ⟨ring, rest, rfl, by rw [hrb, heq], rfl⟩⟩
    · have hmem : rb ∈ rest.map RingbufItem.rb := by
        have hin := hout rb hrb
        rw [List.map_cons, List.mem_cons] at hin
        exact hin.resolve_left fun h => heq h.symm
      obtain ⟨ring', rest', rfl⟩ := List.exists_cons_of_ne_nil
        (show rest ≠ [] by rintro rfl; simp at hmem)
      -- the element has no output any more, so the next item ends the loop
      have hnone : ((s.detach el).els el).output.ringbuf = none := by
        rw [detach_els, if_pos rfl]
        cases hx : (s.els el).output <;> simp [LinkEl.cleared, hx, Io.setRingbuf, Io.ringbuf]
      rw [release, hnone]
      refine ⟨?_, Or.inl rfl⟩
      simp [detach, audioElementSetInputRingbuf, audioElementSetOutputRingbuf, setEl, setFlags,
        Io.setRingbuf_twice]

/-- An element is released. -/
theorem release_brokenUp {item : ElementItem} (hi : item ∈ s.elList.items) (hne : s.rbList ≠ [])
    (hout : ∀ r, (s.els item.el).output = .rb (some r) → r ∈ s.ringbufs ∧ r ∉ s.keptRings)
    (hmark : ¬mark item.el) :
    BrokenUp s { ((s.audioElementResetState item.el).release item.el s.rbList).1 with
      rbList := ((s.audioElementResetState item.el).release item.el s.rbList).2 } [item.el]
      mark := by
  have hself : (s.audioElementResetState item.el).els item.el =
      { s.els item.el with state := .init } := by
    simp [audioElementResetState, setEl]
  obtain ⟨hstate, hlist⟩ := release_eq (s.audioElementResetState item.el) item.el hne (by
    intro rb hrb
    rw [hself] at hrb
    exact (hout rb (ringbuf_eq_some.mp hrb)).1)
  rw [hstate, detach_eq]
  generalize ((s.audioElementResetState item.el).release item.el s.rbList).2 = rbList at hlist ⊢
  refine BrokenUp.one hi (LinkEl.cleared { s.els item.el with state := .init })
    (fun _ => false) ?_ rfl (cleared_input _) (fun r => ?_) (by simp [hmark])
    (fun r => ?_) ?_ rfl
  · show Function.update (s.audioElementResetState item.el).els item.el
      (LinkEl.cleared ((s.audioElementResetState item.el).els item.el)) = _
    rw [hself]
    simp [audioElementResetState, setEl]
  · exact iff_of_false (cleared_output _ r) fun h => hmark h.1
  · have hmine : ¬(mark item.el ∧ (s.els item.el).output = .rb (some r)) := fun h => hmark h.1
    rw [or_iff_left hmine]
    rcases hlist with hlist | ⟨ring, rest, hcons, ho, hlist⟩
    · simp only [keptRings, hlist]
    · -- the first ring buffer was not kept before
      rw [hself] at ho
      have hnot := (hout ring.rb (ringbuf_eq_some.mp ho)).2
      have hring : ring.keptCtx = false := by
        by_contra hk
        rw [Bool.not_eq_false] at hk
        exact hnot (mem_keptRings.mpr ⟨ring, by rw [hcons]; exact List.mem_cons_self, hk, rfl⟩)
      simp only [keptRings, hlist, hcons]
      rw [List.filter_cons_of_neg (by simp), List.filter_cons_of_neg (by simp [hring])]
  · rcases hlist with hlist | ⟨ring, rest, hcons, -, hlist⟩
    · simp only [Links.ringbufs, hlist]
    · simp only [Links.ringbufs, hlist, hcons, List.map_cons]

theorem markKept_kept {rb r : ℕ} (items : List RingbufItem) (h : rb ∈ items.map RingbufItem.rb) :
    (∃ ring ∈ markKept rb items, ring.keptCtx = true ∧ ring.rb = r) ↔
      (∃ ring ∈ items, ring.keptCtx = true ∧ ring.rb = r) ∨ rb = r := by
  induction items with
  | nil => simp at h
  | cons item items ih =>
    rw [markKept]
    split_ifs with hrb
    · subst hrb
      simp only [List.mem_cons, exists_eq_or_imp, true_and]
      constructor
      · rintro (h | h)
        · exact Or.inr h
        · exact Or.inl (Or.inr h)
      · rintro ((⟨-, h⟩ | h) | h)
        · exact Or.inl h
        · exact Or.inr h
        · exact Or.inl h
    · have hmem : rb ∈ items.map RingbufItem.rb := by
        rw [List.map_cons, List.mem_cons] at h
        exact h.resolve_left fun h => hrb h.symm
      simp only [List.mem_cons, exists_eq_or_imp, ih hmem, or_assoc]

/-- An element that may be kept, and writes to a ring buffer of the list, is kept if it works. -/
theorem keep_brokenUp {item : ElementItem} (hi : item ∈ s.elList.items)
    (hclear : item.keptCtx = false) {rb : ℕ} (ho : (s.els item.el).output = .rb (some rb))
    (hmem : rb ∈ s.ringbufs) (hmark : mark item.el ↔ (s.els item.el).Working) :
    ∃ t, s.keep item.el = some t ∧ BrokenUp s t [item.el] mark := by
  have hrb : (s.els item.el).output.ringbuf = some rb := ringbuf_eq_some.mpr ho
  unfold keep
  rw [hrb]
  dsimp only
  rw [if_pos (show rb ∈ s.rbList.map RingbufItem.rb from hmem)]
  by_cases hw : (s.els item.el).Working
  · rw [if_pos (show _ ∨ _ from hw)]
    refine ⟨_, rfl, BrokenUp.one hi
      { s.els item.el with input := (s.els item.el).input.setRingbuf none }
      (fun _ => true) rfl rfl (cleared_input (s.els item.el)) (fun r => ?_)
      (by simp [hmark, hw]) (fun r => ?_) (markKept_rb rb s.rbList) rfl⟩
    · simp [hmark, hw]
    · rw [mem_keptRings, mem_keptRings]
      refine (markKept_kept s.rbList hmem).trans (or_congr_right ?_)
      rw [ho]
      simp [hmark, hw]
  · rw [if_neg (show ¬(_ ∨ _) from hw)]
    refine ⟨_, rfl, BrokenUp.one hi (s.els item.el).cleared id ?_ rfl
      (cleared_input _) (fun r => ?_) (by simp [hmark, hw, hclear]) (fun r => ?_) rfl rfl⟩
    · simp [audioElementSetInputRingbuf, audioElementSetOutputRingbuf, setEl, setFlags,
        LinkEl.cleared]
    · exact iff_of_false (cleared_output _ r) fun h => hw (hmark.mp h.1)
    · have hmine : ¬(mark item.el ∧ (s.els item.el).output = .rb (some r)) :=
        fun h => hw (hmark.mp h.1)
      rw [or_iff_left hmine]
      exact Iff.rfl

/-! ### The loops -/

/-- The linked items of `its` can be broken up one by one: the ring buffers they write to are in
`rb_list`, are not kept and are not shared. -/
structure Separate (s : Links) (its : List ElementItem) : Prop where
  mem : ∀ item ∈ its, item ∈ s.elList.items
  nodup : (its.map ElementItem.el).Nodup
  clear : ∀ item ∈ its, item.keptCtx = false
  nonempty : s.ringbufs ≠ []
  out : ∀ item ∈ its, item.linked = true → ∀ r, (s.els item.el).output = .rb (some r) →
    r ∈ s.ringbufs ∧ r ∉ s.keptRings
  excl : ∀ e ∈ linkedEls its, ∀ e' ∈ linkedEls its, ∀ r, (s.els e).output = .rb (some r) →
    (s.els e').output = .rb (some r) → e = e'

theorem linkedEls_cons_pos {item : ElementItem} (h : item.linked = true) (its : List ElementItem) :
    linkedEls (item :: its) = item.el :: linkedEls its := by simp [linkedEls, h]

theorem linkedEls_cons_neg {item : ElementItem} (h : item.linked ≠ true) (its : List ElementItem) :
    linkedEls (item :: its) = linkedEls its := by simp [linkedEls, h]

theorem linkedEls_sub {its : List ElementItem} {e : ℕ} (h : e ∈ linkedEls its) :
    e ∈ its.map ElementItem.el := by
  obtain ⟨item, hi, -, rfl⟩ := mem_linkedEls.mp h
  exact List.mem_map_of_mem hi

theorem Separate.skip {item : ElementItem} {its : List ElementItem} (h : Separate s (item :: its)) :
    Separate s its where
  mem i hi := h.mem i (List.mem_cons_of_mem _ hi)
  nodup := (List.nodup_cons.mp h.nodup).2
  clear i hi := h.clear i (List.mem_cons_of_mem _ hi)
  nonempty := h.nonempty
  out i hi := h.out i (List.mem_cons_of_mem _ hi)
  excl := by
    have hsub : ∀ e ∈ linkedEls its, e ∈ linkedEls (item :: its) := by
      intro e he
      obtain ⟨i, hi, hl, rfl⟩ := mem_linkedEls.mp he
      exact mem_linkedEls.mpr ⟨i, List.mem_cons_of_mem _ hi, hl, rfl⟩
    exact fun e he e' he' => h.excl e (hsub e he) e' (hsub e' he')

/-- The same holds of the other items after one element is broken up. -/
theorem Separate.next {item : ElementItem} {its : List ElementItem} (h : Separate s (item :: its))
    (hl : item.linked = true) (hb : BrokenUp s s' [item.el] mark) : Separate s' its := by
  have hskip := h.skip
  have hnot : item.el ∉ its.map ElementItem.el := (List.nodup_cons.mp h.nodup).1
  have hels : ∀ e ∈ its.map ElementItem.el, s'.els e = s.els e := fun e he =>
    hb.frame e fun hm => hnot (List.mem_singleton.mp hm ▸ he)
  refine ⟨fun i hi => ?_, hskip.nodup, hskip.clear, by rw [hb.ringbufs]; exact h.nonempty,
    fun i hi hi' r ho => ?_, fun e he e' he' r ho ho' => ?_⟩
  · rw [hb.others i fun hm => hnot (List.mem_singleton.mp hm ▸ List.mem_map_of_mem hi)]
    exact hskip.mem i hi
  · rw [hels i.el (List.mem_map_of_mem hi)] at ho
    obtain ⟨hin, hfree⟩ := hskip.out i hi hi' r ho
    rw [hb.ringbufs, hb.kept]
    refine ⟨hin, ?_⟩
    rintro (hk | ⟨e, he, -, ho'⟩)
    · exact hfree hk
    · -- the ring buffer that is kept now is not shared
      obtain rfl := List.mem_singleton.mp he
      have hself : item.el ∈ linkedEls (item :: its) :=
        mem_linkedEls.mpr ⟨item, List.mem_cons_self, hl, rfl⟩
      have hother : i.el ∈ linkedEls (item :: its) :=
        mem_linkedEls.mpr ⟨i, List.mem_cons_of_mem _ hi, hi', rfl⟩
      exact hnot (h.excl _ hself _ hother r ho' ho ▸ List.mem_map_of_mem hi)
  · rw [hels e (linkedEls_sub he)] at ho
    rw [hels e' (linkedEls_sub he')] at ho'
    exact hskip.excl e he e' he' r ho ho'

/-- The loop after `kept` is cleared: of these elements only `kept_ctx_el` can be kept. -/
theorem breakupElements_brokenUp {keptCtxEl : Option ℕ} (its : List ElementItem)
    (h : Separate s its)
    (hmark : ∀ e ∈ linkedEls its, mark e ↔ keptCtxEl = some e ∧ (s.els e).Working)
    (hring : ∀ e ∈ linkedEls its, keptCtxEl = some e → ∃ r, (s.els e).output = .rb (some r)) :
    BrokenUp s (s.breakupElements keptCtxEl false its) (linkedEls its) mark := by
  induction its generalizing s with
  | nil => exact .nil s mark
  | cons item its ih =>
    have hi : item ∈ s.elList.items := h.mem item List.mem_cons_self
    have hnot : item.el ∉ its.map ElementItem.el := (List.nodup_cons.mp h.nodup).1
    rw [breakupElements]
    by_cases hl : item.linked = true
    · rw [if_pos hl]
      rw [linkedEls_cons_pos hl] at hmark hring ⊢
      have hout := h.out item List.mem_cons_self hl
      -- the rest of the loop, from what is made of this element
      have hrest : ∀ s', BrokenUp s s' [item.el] mark →
          BrokenUp s (s'.breakupElements keptCtxEl false its) (item.el :: linkedEls its) mark := by
        intro s' hb
        have hels : ∀ e ∈ linkedEls its, s'.els e = s.els e := fun e he =>
          hb.frame e fun hm => hnot (List.mem_singleton.mp hm ▸ linkedEls_sub he)
        refine hb.cons (ih (h.next hl hb) (fun e he => ?_) fun e he hk => ?_)
          fun hm => hnot (linkedEls_sub hm)
        · rw [hels e he]
          exact hmark e (List.mem_cons_of_mem _ he)
        · rw [hels e he]
          exact hring e (List.mem_cons_of_mem _ he) hk
      by_cases hk : keptCtxEl = some item.el
      · rw [if_neg fun hne => hne.2 hk]
        obtain ⟨r, hr⟩ := hring item.el List.mem_cons_self hk
        have hw : mark item.el ↔ (s.els item.el).Working := by
          rw [hmark item.el List.mem_cons_self, and_iff_right hk]
        obtain ⟨s', hs', hb⟩ := keep_brokenUp hi (h.clear item List.mem_cons_self) hr (hout r hr).1
          hw
        rw [hs']
        exact hrest s' hb
      · rw [if_pos ⟨rfl, hk⟩]
        have hw : ¬mark item.el := by
          rw [hmark item.el List.mem_cons_self]
          exact fun h => hk h.1
        refine hrest _ (release_brokenUp hi (fun hnil => ?_) hout hw)
        exact h.nonempty (by rw [Links.ringbufs, hnil, List.map_nil])
    · rw [if_neg hl]
      rw [linkedEls_cons_neg hl] at hmark hring ⊢
      exact ih h.skip hmark hring

/-- The whole loop: the first linked element, which writes to a ring buffer, clears `kept`. -/
theorem breakupElements_first {keptCtxEl : Option ℕ} (its : List ElementItem) (h : Separate s its)
    {first : ℕ} {rest : List ℕ} (hfirst : linkedEls its = first :: rest)
    (hout : ∃ r, (s.els first).output = .rb (some r)) (hwork : mark first ↔ (s.els first).Working)
    (hmark : ∀ e ∈ rest, mark e ↔ keptCtxEl = some e ∧ (s.els e).Working)
    (hring : ∀ e ∈ rest, keptCtxEl = some e → ∃ r, (s.els e).output = .rb (some r)) :
    BrokenUp s (s.breakupElements keptCtxEl true its) (first :: rest) mark := by
  induction its with
  | nil => exact absurd hfirst (by simp [linkedEls])
  | cons item its ih =>
    rw [breakupElements]
    by_cases hl : item.linked = true
    · rw [linkedEls_cons_pos hl] at hfirst
      obtain ⟨rfl, rfl⟩ := List.cons.inj hfirst
      have hnot : item.el ∉ its.map ElementItem.el := (List.nodup_cons.mp h.nodup).1
      rw [if_pos hl, if_neg fun hne => Bool.noConfusion hne.1]
      obtain ⟨r, hr⟩ := hout
      obtain ⟨s', hs', hb⟩ := keep_brokenUp (h.mem item List.mem_cons_self)
        (h.clear item List.mem_cons_self) hr (h.out item List.mem_cons_self hl r hr).1 hwork
      have hels : ∀ e ∈ linkedEls its, s'.els e = s.els e := fun e he =>
        hb.frame e fun hm => hnot (List.mem_singleton.mp hm ▸ linkedEls_sub he)
      rw [hs']
      refine hb.cons (breakupElements_brokenUp its (h.next hl hb) (fun e he => ?_) fun e he hk => ?_)
        fun hm => hnot (linkedEls_sub hm)
      · rw [hels e he]
        exact hmark e he
      · rw [hels e he]
        exact hring e he hk
    · rw [linkedEls_cons_neg hl] at hfirst
      rw [if_neg hl]
      exact ih h.skip hfirst

/-- The last loop resets a ring buffer that is not kept. -/
theorem resetRingbufs_reset {items : List RingbufItem} (hnodup : (items.map RingbufItem.rb).Nodup)
    {ring : RingbufItem} (hmem : ring ∈ items) (hk : ring.keptCtx = false) (s : Links) :
    (s.resetRingbufs items).1 ring.rb = rbReset (s.rings ring.rb) := by
  induction items generalizing s with
  | nil => exact absurd hmem (by simp)
  | cons item items ih =>
    rw [List.map_cons, List.nodup_cons] at hnodup
    rw [resetRingbufs]
    rcases List.mem_cons.mp hmem with rfl | hmem
    · -- it does not stand in the list again
      rw [if_neg (by simp [hk])]
      dsimp only
      rw [(resetRingbufs_spec items _).2 ring.rb fun i hi hrb =>
        absurd (hrb ▸ List.mem_map_of_mem hi) hnodup.1]
      exact Function.update_self _ _ _
    · have hne : ring.rb ≠ item.rb := fun h => hnodup.1 (h ▸ List.mem_map_of_mem hmem)
      split_ifs
      · exact ih hnodup.2 hmem s
      · dsimp only
        rw [ih hnodup.2 hmem]
        exact congrArg rbReset (Function.update_of_ne hne _ _)

/-! ### A chain -/

/-- The linked elements are `es`, in the order in which they were registered, and chained: each but
the last writes to a ring buffer of `rbs`, which the next one reads.  Nothing is marked as kept. -/
structure Chained (s : Links) (es rbs : List ℕ) : Prop where
  els : linkedEls s.elList.items = es
  long : 2 ≤ es.length
  length : rbs.length + 1 = es.length
  output : ∀ i e r : ℕ, es[i]? = some e → rbs[i]? = some r → (s.els e).output = .rb (some r)
  input : ∀ i e r : ℕ, es[i + 1]? = some e → rbs[i]? = some r → (s.els e).input = .rb (some r)
  last : ∀ e, es.getLast? = some e → (s.els e).output.ringbuf = none
  distinct : rbs.Nodup
  nodup : s.ringbufs.Nodup
  mem : ∀ r ∈ rbs, r ∈ s.ringbufs
  clearEl : ∀ item ∈ s.elList.items, item.keptCtx = false
  clearRb : ∀ ring ∈ s.rbList, ring.keptCtx = false

/-- After breaking up a chain, `kept` says which elements are kept, and with which ring buffers:
no element is linked; the elements that are kept are marked, and so are their ring buffers, which
they own and which have all of their bytes; the other ring buffers are reset, and no element of the
chain has one. -/
structure Keeps (s s' : Links) (es : List ℕ) (kept : ℕ → ℕ → Prop) : Prop where
  unlinked : ∀ item ∈ s'.elList.items, item.linked = false
  marks : ∀ item ∈ s'.elList.items, item.keptCtx = true ↔ ∃ r, kept item.el r
  ringMarks : ∀ ring ∈ s'.rbList, ring.keptCtx = true ↔ ∃ e, kept e ring.rb
  owns : ∀ e ∈ es, ∀ r, (s'.els e).output = .rb (some r) ↔ kept e r
  bytes : ∀ e r, kept e r → s'.rings r = s.rings r
  reset : ∀ r ∈ s.ringbufs, (∀ e, ¬kept e r) →
    s'.rings r = rbReset (s.rings r) ∧ ∀ e ∈ es, (s'.els e).input ≠ .rb (some r)

/-- What the header promises to keep: the working elements that write to a ring buffer, up to and
with `kept_ctx_el`. -/
def Reserved (s : Links) (es rbs : List ℕ) (keptCtxEl : Option ℕ) (e r : ℕ) : Prop :=
  ∃ i k el : ℕ, es[i]? = some e ∧ rbs[i]? = some r ∧ keptCtxEl = some el ∧
    es[k]? = some el ∧ i ≤ k ∧
    (s.els e).Working

/-- What is kept: the first element and `kept_ctx_el`, if they work. -/
def Spared (s : Links) (es rbs : List ℕ) (keptCtxEl : Option ℕ) (e r : ℕ) : Prop :=
  ∃ i : ℕ, es[i]? = some e ∧ rbs[i]? = some r ∧ (i = 0 ∨ keptCtxEl = some e) ∧ (s.els e).Working

variable {es rbs : List ℕ} {keptCtxEl : Option ℕ}

theorem Chained.nodupEls (h : Chained s es rbs) : es.Nodup := by
  rw [← h.els]
  exact s.elList.nodup.sublist (List.filter_sublist.map _)

/-- An element of the chain that is not the last one has a place in it, and a ring buffer. -/
theorem Chained.ring (h : Chained s es rbs) {e : ℕ} (he : e ∈ es) (hlast : es.getLast? ≠ some e) :
    ∃ i r : ℕ, es[i]? = some e ∧ rbs[i]? = some r := by
  obtain ⟨i, hi, rfl⟩ := List.getElem_of_mem he
  have hlen := h.length
  have hne : i + 1 ≠ es.length := by
    intro heq
    refine hlast ?_
    rw [List.getLast?_eq_getElem?, ← heq]
    exact List.getElem?_eq_getElem hi
  exact ⟨i, rbs[i], List.getElem?_eq_getElem hi, List.getElem?_eq_getElem (by omega)⟩

/-- The outputs of the chain are its ring buffers. -/
theorem Chained.output_iff (h : Chained s es rbs) {e r : ℕ} (he : e ∈ es) :
    (s.els e).output = .rb (some r) ↔ ∃ i : ℕ, es[i]? = some e ∧ rbs[i]? = some r := by
  constructor
  · intro ho
    have hlast : es.getLast? ≠ some e := by
      intro hl
      have hnone := h.last e hl
      rw [ho] at hnone
      exact absurd hnone (by simp [Io.ringbuf])
    obtain ⟨i, r', hi, hr'⟩ := h.ring he hlast
    have ho' := h.output i e r' hi hr'
    rw [ho] at ho'
    obtain rfl : r = r' := by simpa using ho'
    exact ⟨i, hi, hr'⟩
  · rintro ⟨i, hi, hr⟩
    exact h.output i e r hi hr

/-- A place in the chain is a place of one element only. -/
theorem Chained.place (h : Chained s es rbs) {i j e : ℕ} (hi : es[i]? = some e)
    (hj : es[j]? = some e) : i = j := by
  obtain ⟨hlt, rfl⟩ := List.getElem?_eq_some_iff.mp hi
  obtain ⟨hlt', heq⟩ := List.getElem?_eq_some_iff.mp hj
  exact (h.nodupEls.getElem_inj_iff.mp heq).symm

/-- The linked elements of a chain can be broken up one by one. -/
theorem Chained.ready (h : Chained s es rbs) : Separate s s.elList.items where
  mem _ hi := hi
  nodup := s.elList.nodup
  clear := h.clearEl
  nonempty := by
    have hlen := h.length
    have hlong := h.long
    have hr := h.mem (rbs.get ⟨0, by omega⟩) (List.get_mem _ _)
    exact List.ne_nil_of_mem hr
  out item hi hl r ho := by
    have he : item.el ∈ es := by
      rw [← h.els]
      exact mem_linkedEls.mpr ⟨item, hi, hl, rfl⟩
    obtain ⟨i, -, hr⟩ := (h.output_iff he).mp ho
    refine ⟨h.mem r (List.mem_of_getElem? hr), fun hk => ?_⟩
    obtain ⟨ring, hring, hk, -⟩ := mem_keptRings.mp hk
    rw [h.clearRb ring hring] at hk
    exact absurd hk (by decide)
  excl e he e' he' r ho ho' := by
    rw [h.els] at he he'
    obtain ⟨i, hi, hr⟩ := (h.output_iff he).mp ho
    obtain ⟨j, hj, hr'⟩ := (h.output_iff he').mp ho'
    -- the ring buffers are distinct
    obtain ⟨hlt, rfl⟩ := List.getElem?_eq_some_iff.mp hr
    obtain ⟨hlt', heq⟩ := List.getElem?_eq_some_iff.mp hr'
    obtain rfl := h.distinct.getElem_inj_iff.mp heq
    rw [hi] at hj
    exact Option.some.inj hj

/-- What the loop keeps of a chain. -/
def Marked (s : Links) (es : List ℕ) (keptCtxEl : Option ℕ) (e : ℕ) : Prop :=
  (es.head? = some e ∨ keptCtxEl = some e) ∧ (s.els e).Working

theorem Chained.spared_iff (h : Chained s es rbs) {e r : ℕ} (he : e ∈ es) :
    Spared s es rbs keptCtxEl e r ↔
      Marked s es keptCtxEl e ∧ (s.els e).output = .rb (some r) := by
  rw [h.output_iff he, Spared, Marked, List.head?_eq_getElem?]
  constructor
  · rintro ⟨i, hi, hr, hkept, hw⟩
    refine ⟨⟨hkept.imp_left ?_, hw⟩, i, hi, hr⟩
    rintro rfl
    exact hi
  · rintro ⟨⟨hkept, hw⟩, i, hi, hr⟩
    exact ⟨i, hi, hr, hkept.imp_left fun h0 => h.place hi h0, hw⟩

/-- Every element that the loop keeps has a ring buffer, if `kept_ctx_el` is not the last. -/
theorem Chained.marked_ring (h : Chained s es rbs)
    (hlast : ∀ el, keptCtxEl = some el → es.getLast? ≠ some el) {e : ℕ} (he : e ∈ es)
    (hm : Marked s es keptCtxEl e) : ∃ r, (s.els e).output = .rb (some r) := by
  have hnot : es.getLast? ≠ some e := by
    rcases hm.1 with hhead | hk
    · -- the first element of at least two
      intro hl
      rw [List.head?_eq_getElem?] at hhead
      rw [List.getLast?_eq_getElem?] at hl
      have hplace := h.place hhead hl
      have hlong := h.long
      omega
    · exact hlast e hk
  obtain ⟨i, r, hi, hr⟩ := h.ring he hnot
  exact ⟨r, h.output i e r hi hr⟩

/-- The loop on a chain, if `kept_ctx_el` is not the last element. -/
theorem Chained.brokenUp (h : Chained s es rbs)
    (hlast : ∀ el, keptCtxEl = some el → es.getLast? ≠ some el) :
    BrokenUp s (s.breakupElements keptCtxEl true s.elList.items) es (Marked s es keptCtxEl) := by
  obtain ⟨first, rest, hes⟩ : ∃ first rest, es = first :: rest :=
    List.exists_cons_of_ne_nil (by
      rintro rfl
      have hlong := h.long
      simp at hlong)
  have hfirst : linkedEls s.elList.items = first :: rest := by rw [h.els, hes]
  have hhead : es.head? = some first := by rw [hes]; rfl
  have hwork : Marked s es keptCtxEl first ↔ (s.els first).Working :=
    and_iff_right (Or.inl hhead)
  have hmem : ∀ e ∈ rest, e ∈ es ∧ es.head? ≠ some e := by
    intro e he
    have hd := h.nodupEls
    rw [hes, List.nodup_cons] at hd
    refine ⟨by rw [hes]; exact List.mem_cons_of_mem _ he, fun heq => ?_⟩
    rw [hhead] at heq
    obtain rfl := Option.some.inj heq
    exact hd.1 he
  have hout : ∃ r, (s.els first).output = .rb (some r) := by
    have hlen := h.length
    have hlong := h.long
    exact ⟨_, h.output 0 first _ (by rw [← List.head?_eq_getElem?]; exact hhead)
      (List.getElem?_eq_getElem (by omega))⟩
  have hmark : ∀ e ∈ rest, Marked s es keptCtxEl e ↔ keptCtxEl = some e ∧ (s.els e).Working := by
    intro e he
    rw [Marked, or_iff_right (hmem e he).2]
  have hring : ∀ e ∈ rest, keptCtxEl = some e → ∃ r, (s.els e).output = .rb (some r) := by
    intro e he hk
    obtain ⟨i, r, hi, hr⟩ := h.ring (hmem e he).1 (hlast e hk)
    exact ⟨r, h.output i e r hi hr⟩
  have hloop := breakupElements_first s.elList.items h.ready hfirst hout hwork hmark hring
  rwa [← hes] at hloop

/-- The states of the elements and the bytes of the ring buffers do not matter. -/
theorem Chained.of_eq (h : Chained s es rbs)
    (hels : ∀ e, (s'.els e).input = (s.els e).input ∧ (s'.els e).output = (s.els e).output)
    (hlist : s'.elList = s.elList) (hrb : s'.rbList = s.rbList) : Chained s' es rbs where
  els := by rw [hlist]; exact h.els
  long := h.long
  length := h.length
  output i e r he hr := by rw [(hels e).2]; exact h.output i e r he hr
  input i e r he hr := by rw [(hels e).1]; exact h.input i e r he hr
  last e he := by rw [(hels e).2]; exact h.last e he
  distinct := h.distinct
  nodup := by rw [ringbufs, hrb]; exact h.nodup
  mem := by rw [ringbufs, hrb]; exact h.mem
  clearEl := by rw [hlist]; exact h.clearEl
  clearRb := by rw [hrb]; exact h.clearRb

/-- What `audio_pipeline_breakup_elements` keeps of a chain. -/
theorem breakup_keeps (h : Chained s es rbs)
    (hlast : ∀ el, keptCtxEl = some el → es.getLast? ≠ some el) :
    Keeps s (s.audioPipelineBreakupElements keptCtxEl).2 es (Spared s es rbs keptCtxEl) := by
  obtain ⟨events, listener, hrem⟩ := s.removeListener_eq
  have h₁ : Chained s.audioPipelineRemoveListener.2 es rbs := by
    rw [hrem]
    exact h.of_eq (fun _ => ⟨rfl, rfl⟩) rfl rfl
  have hb := h₁.brokenUp hlast
  have hsame : s.audioPipelineRemoveListener.2.els = s.els ∧
      s.audioPipelineRemoveListener.2.elList = s.elList ∧
      s.audioPipelineRemoveListener.2.rbList = s.rbList ∧
      s.audioPipelineRemoveListener.2.rings = s.rings := by
    rw [hrem]
    exact ⟨rfl, rfl, rfl, rfl⟩
  obtain ⟨hels, hlist, hrbl, hrings⟩ := hsame
  unfold audioPipelineBreakupElements
  dsimp only
  generalize hs₁ : s.audioPipelineRemoveListener.2 = s₁ at h₁ hb hels hlist hrbl hrings ⊢
  generalize hs₂ : s₁.breakupElements keptCtxEl true s₁.elList.items = s₂ at hb ⊢
  have hmark : ∀ e, Marked s₁ es keptCtxEl e ↔ Marked s es keptCtxEl e := fun e => by
    rw [Marked, Marked, hels]
  have hmem : ∀ e r, Spared s es rbs keptCtxEl e r → e ∈ es := by
    rintro e r ⟨i, hi, -⟩
    exact List.mem_of_getElem? hi
  have hnodup : s₂.ringbufs.Nodup := by rw [hb.ringbufs]; exact h₁.nodup
  -- the ring buffers that are marked are those of the elements that are
  have hkept : ∀ r, r ∈ s₂.keptRings ↔ ∃ e, Spared s es rbs keptCtxEl e r := by
    intro r
    rw [hb.kept]
    constructor
    · rintro (hk | ⟨e, he, hm, ho⟩)
      · obtain ⟨ring, hring, hk, -⟩ := mem_keptRings.mp hk
        rw [h₁.clearRb ring hring] at hk
        exact absurd hk (by decide)
      · rw [hels] at ho
        exact ⟨e, (h.spared_iff he).mpr ⟨(hmark e).mp hm, ho⟩⟩
    · rintro ⟨e, hsp⟩
      have he := hmem e r hsp
      obtain ⟨hm, ho⟩ := (h.spared_iff he).mp hsp
      exact Or.inr ⟨e, he, (hmark e).mpr hm, by rw [hels]; exact ho⟩
  have hring : ∀ ring ∈ s₂.rbList, ring.keptCtx = true ↔ ring.rb ∈ s₂.keptRings := by
    intro ring hr
    rw [mem_keptRings]
    constructor
    · exact fun hk => ⟨ring, hr, hk, rfl⟩
    · rintro ⟨ring', hr', hk, heq⟩
      rwa [List.inj_on_of_nodup_map hnodup hr' hr heq] at hk
  obtain ⟨hmap, hbytes⟩ := resetRingbufs_spec s₂.rbList s₂
  refine ⟨fun item hi => ?_, fun item hi => ?_, fun ring hr => ?_, fun e he r => ?_,
    fun e r hsp => ?_, fun r hr hno => ?_⟩
  · by_cases he : item.el ∈ es
    · exact (hb.items item hi he).1
    · -- it was not linked
      have hi₁ : item ∈ s₁.elList.items := (hb.others item he).mp hi
      by_contra hl
      rw [Bool.not_eq_false] at hl
      exact he (by rw [← h₁.els]; exact mem_linkedEls.mpr ⟨item, hi₁, hl, rfl⟩)
  · by_cases he : item.el ∈ es
    · rw [(hb.items item hi he).2, hmark]
      constructor
      · intro hm
        obtain ⟨r, ho⟩ := h.marked_ring hlast he hm
        exact ⟨r, (h.spared_iff he).mpr ⟨hm, ho⟩⟩
      · rintro ⟨r, hsp⟩
        exact ((h.spared_iff he).mp hsp).1
    · have hi₁ : item ∈ s₁.elList.items := (hb.others item he).mp hi
      rw [h₁.clearEl item hi₁]
      exact iff_of_false (by decide) fun ⟨r, hsp⟩ => he (hmem item.el r hsp)
  · change ring ∈ (s₂.resetRingbufs s₂.rbList).2 at hr
    rw [hmap] at hr
    obtain ⟨ring₀, hr₀, rfl⟩ := List.mem_map.mp hr
    have hsame : (if ring₀.keptCtx then ring₀ else { ring₀ with linked := false }).keptCtx =
        ring₀.keptCtx ∧
        (if ring₀.keptCtx then ring₀ else { ring₀ with linked := false }).rb = ring₀.rb := by
      split_ifs <;> exact ⟨rfl, rfl⟩
    rw [hsame.1, hsame.2, hring ring₀ hr₀, hkept]
  · show (s₂.els e).output = .rb (some r) ↔ _
    rw [hb.output e he, hmark, hels, h.spared_iff he]
  · show (s₂.resetRingbufs s₂.rbList).1 r = s.rings r
    rw [hbytes r, hb.rings, hrings]
    intro ring hr heq
    rw [hring ring hr, heq, hkept]
    exact ⟨e, hsp⟩
  · have hr₂ : r ∈ s₂.ringbufs := by
      rw [hb.ringbufs, ringbufs, hrbl]
      exact hr
    obtain ⟨ring, hr', rfl⟩ := List.mem_map.mp hr₂
    have hk : ring.keptCtx = false := by
      by_contra hk
      rw [Bool.not_eq_false, hring ring hr', hkept] at hk
      obtain ⟨e, hsp⟩ := hk
      exact hno e hsp
    refine ⟨?_, fun e he => hb.input e he ring.rb⟩
    show (s₂.resetRingbufs s₂.rbList).1 ring.rb = _
    rw [resetRingbufs_reset hnodup hr' hk, hb.rings, hrings]

/-! ### The last element -/

/-- The element and its item are as before. -/
structure Untouched (el : ℕ) (s s' : Links) : Prop where
  els : s'.els el = s.els el
  items : ∀ item, item.el = el → (item ∈ s'.elList.items ↔ item ∈ s.elList.items)

theorem Untouched.trans {el : ℕ} (h : Untouched el s s') (h' : Untouched el s' t) :
    Untouched el s t :=
  ⟨h'.els.trans h.els, fun item hi => (h'.items item hi).trans (h.items item hi)⟩

theorem untouched_setEl {el e : ℕ} (h : el ≠ e) (s : Links) (f : LinkEl → LinkEl) :
    Untouched el s (s.setEl e f) :=
  ⟨Function.update_of_ne h _ _, fun _ _ => Iff.rfl⟩

theorem untouched_setInput {el e : ℕ} (h : el ≠ e) (s : Links) (rb : Option ℕ) :
    Untouched el s (s.audioElementSetInputRingbuf e rb) := untouched_setEl h s _

theorem untouched_setFlags {el e : ℕ} (h : el ≠ e) (s : Links) (linked keptCtx : Bool → Bool) :
    Untouched el s (s.setFlags e linked keptCtx) :=
  ⟨rfl, fun _ hi => ElList.mem_setFlags_ne (hi ▸ h)⟩

theorem untouched_detach {el e : ℕ} (h : el ≠ e) (s : Links) : Untouched el s (s.detach e) := by
  rw [detach_eq]
  exact untouched_setEl h s _

theorem untouched_release {el e : ℕ} (h : el ≠ e) (items : List RingbufItem) (s : Links) :
    Untouched el s (s.release e items).1 := by
  induction items generalizing s with
  | nil => exact ⟨rfl, fun _ _ => Iff.rfl⟩
  | cons item items ih =>
    have hflags := untouched_setFlags h s (fun _ => false) fun _ => false
    rw [release]
    split
    · exact hflags.trans (untouched_setInput h _ none)
    · split_ifs
      · exact hflags.trans (untouched_detach h _)
      · exact (untouched_detach h s).trans (ih _)

theorem untouched_keep {el e : ℕ} (h : el ≠ e) (hk : s.keep e = some s') : Untouched el s s' := by
  unfold keep at hk
  split at hk
  · exact absurd hk (by simp)
  · next rb _ =>
    split_ifs at hk with _ hst
    · obtain rfl := Option.some.inj hk
      have hflags := untouched_setFlags h s (fun _ => false) fun _ => true
      have hmark : Untouched el s { s.setFlags e (fun _ => false) (fun _ => true) with
          rbList := markKept rb s.rbList } := ⟨hflags.els, hflags.items⟩
      exact hmark.trans (untouched_setInput h _ none)
    · obtain rfl := Option.some.inj hk
      have hflags := untouched_setFlags h s (fun _ => false) id
      exact (hflags.trans (untouched_setEl h _ _)).trans (untouched_setInput h _ none)

/-- `kept_ctx_el` is left as it is, if it writes to no ring buffer. -/
theorem breakupElements_untouched {el : ℕ} (its : List ElementItem) (kept : Bool) (s : Links)
    (h : (s.els el).output.ringbuf = none) :
    Untouched el s (s.breakupElements (some el) kept its) := by
  induction its generalizing s kept with
  | nil => exact ⟨rfl, fun _ _ => Iff.rfl⟩
  | cons item its ih =>
    rw [breakupElements]
    by_cases hl : item.linked = true
    · rw [if_pos hl]
      by_cases he : item.el = el
      · -- the search for its output finds nothing
        have hkeep : s.keep el = none := by
          unfold keep
          rw [h]
        rw [he, if_neg fun hne => hne.2 rfl, hkeep]
        exact ih kept s h
      · have hne : el ≠ item.el := fun heq => he heq.symm
        split_ifs
        · have hreset : Untouched el s (s.audioElementResetState item.el) := untouched_setEl hne s _
          have hrel := hreset.trans (untouched_release hne s.rbList _)
          have hone : Untouched el s { ((s.audioElementResetState item.el).release item.el
              s.rbList).1 with rbList := ((s.audioElementResetState item.el).release item.el
              s.rbList).2 } := ⟨hrel.els, hrel.items⟩
          exact hone.trans (ih kept _ (by rw [hone.els]; exact h))
        · cases hkeep : s.keep item.el with
          | none => exact ih kept s h
          | some s' =>
            have hone := untouched_keep hne hkeep
            exact hone.trans (ih false s' (by rw [hone.els]; exact h))
    · rw [if_neg hl]
      exact ih kept s h

/-- The last element of a chain stays linked if it is `kept_ctx_el`. -/
theorem breakup_last (h : Chained s es rbs) {el : ℕ} (hlast : es.getLast? = some el) :
    ∃ item ∈ (s.audioPipelineBreakupElements (some el)).2.elList.items, item.linked = true := by
  have he : el ∈ linkedEls s.elList.items := by
    rw [h.els]
    exact List.mem_of_getLast? hlast
  obtain ⟨item, hi, hl, rfl⟩ := mem_linkedEls.mp he
  obtain ⟨events, listener, hrem⟩ := s.removeListener_eq
  refine ⟨item, ?_, hl⟩
  unfold audioPipelineBreakupElements
  rw [hrem]
  refine ((breakupElements_untouched _ true _ ?_).items item rfl).mpr hi
  exact h.last item.el hlast

/-! ### The promise of the header -/

/-- The promise of the header, for a chain. -/
def KeepsPrefix (s s' : Links) (es rbs : List ℕ) (keptCtxEl : Option ℕ) : Prop :=
  Keeps s s' es (Reserved s es rbs keptCtxEl)

/-- If `kept_ctx_el` is `NULL`, the first element does not work; otherwise it is not the last
element, and no element between the first and it works. -/
def EndsOnly (s : Links) (es : List ℕ) (keptCtxEl : Option ℕ) : Prop :=
  (keptCtxEl = none → ∀ e, es.head? = some e → ¬(s.els e).Working) ∧
    ∀ el, keptCtxEl = some el → es.getLast? ≠ some el ∧
      ∀ i k e : ℕ, es[k]? = some el → 0 < i → i < k → es[i]? = some e → ¬(s.els e).Working

/-- What is kept is what was promised. -/
theorem EndsOnly.spared_iff (hends : EndsOnly s es keptCtxEl)
    (hmem : ∀ el, keptCtxEl = some el → el ∈ es) (e r : ℕ) :
    Spared s es rbs keptCtxEl e r ↔ Reserved s es rbs keptCtxEl e r := by
  constructor
  · rintro ⟨i, hi, hr, hkept, hw⟩
    cases hk : keptCtxEl with
    | none =>
      rcases hkept with rfl | hkept
      · -- the first element does not work
        exact absurd hw (hends.1 hk e (by rw [List.head?_eq_getElem?]; exact hi))
      · rw [hk] at hkept
        exact absurd hkept (by simp)
    | some el =>
      rcases hkept with rfl | hkept
      · obtain ⟨k, hlt, rfl⟩ := List.getElem_of_mem (hmem el hk)
        exact ⟨0, k, _, hi, hr, rfl, List.getElem?_eq_getElem hlt, Nat.zero_le k, hw⟩
      · rw [hk] at hkept
        obtain rfl := Option.some.inj hkept
        exact ⟨i, i, el, hi, hr, rfl, hi, le_refl i, hw⟩
  · rintro ⟨i, k, el, hi, hr, hk, hel, hik, hw⟩
    refine ⟨i, hi, hr, ?_, hw⟩
    rcases Nat.eq_zero_or_pos i with h0 | hpos
    · exact Or.inl h0
    · right
      rcases Nat.eq_or_lt_of_le hik with rfl | hlt
      · rw [hk, ← hel, hi]
      · -- an element in between does not work
        exact absurd hw ((hends.2 el hk).2 i k e hel hpos hlt hi)

/-- **Breaking up**: for every chain, whatever the states of its elements, breaking up keeps the
promise of the header exactly when at most the first element and `kept_ctx_el` had to be kept, and
`kept_ctx_el` is not the last element. -/
theorem keepsPrefix_iff (h : Chained s es rbs) (hmem : ∀ el, keptCtxEl = some el → el ∈ es) :
    (s.audioPipelineBreakupElements keptCtxEl).1 = ESP_OK ∧
      (KeepsPrefix s (s.audioPipelineBreakupElements keptCtxEl).2 es rbs keptCtxEl ↔
        EndsOnly s es keptCtxEl) := by
  refine ⟨rfl, ?_, ?_⟩
  · intro hp
    have hlast : ∀ el, keptCtxEl = some el → es.getLast? ≠ some el := by
      rintro el rfl hl
      obtain ⟨item, hi, hlinked⟩ := breakup_last h hl
      rw [hp.unlinked item hi] at hlinked
      exact absurd hlinked (by decide)
    have hs := breakup_keeps h hlast
    have hsame : ∀ e ∈ es, ∀ r, Spared s es rbs keptCtxEl e r ↔ Reserved s es rbs keptCtxEl e r :=
      fun e he r => (hs.owns e he r).symm.trans (hp.owns e he r)
    have hlen := h.length
    have hlong := h.long
    refine ⟨?_, ?_⟩
    · rintro rfl e hhead hw
      have he : es[0]? = some e := by rwa [List.head?_eq_getElem?] at hhead
      have hr : rbs[0]? = some (rbs.get ⟨0, by omega⟩) := List.getElem?_eq_getElem _
      obtain ⟨-, -, el, -, -, hk, -⟩ := (hsame e (List.mem_of_getElem? he) _).mp
        ⟨0, he, hr, Or.inl rfl, hw⟩
      exact absurd hk (by simp)
    · intro el hk
      refine ⟨hlast el hk, fun i k e hel hpos hlt he hw => ?_⟩
      have hklt : k < es.length := (List.getElem?_eq_some_iff.mp hel).1
      have hr : rbs[i]? = some (rbs.get ⟨i, by omega⟩) := List.getElem?_eq_getElem _
      obtain ⟨j, hj, -, hkept, -⟩ := (hsame e (List.mem_of_getElem? he) _).mpr
        ⟨i, k, el, he, hr, hk, hel, hlt.le, hw⟩
      obtain rfl := h.place he hj
      rcases hkept with h0 | hkept
      · omega
      · rw [hk] at hkept
        obtain rfl := Option.some.inj hkept
        have hplace := h.place he hel
        omega
  · intro hends
    have hs := breakup_keeps h fun el hk => (hends.2 el hk).1
    have heq : Spared s es rbs keptCtxEl = Reserved s es rbs keptCtxEl := by
      funext e r
      exact propext (hends.spared_iff hmem e r)
    rw [heq] at hs
    exact hs

/-- The members of a list that keep its order. -/
theorem filter_mem_sublist {l es : List ℕ} (hl : l.Nodup) (h : es.Sublist l) :
    l.filter (fun e => e ∈ es) = es := by
  have hself : es.filter (fun e => e ∈ es) = es :=
    List.filter_eq_self.mpr fun e he => by simpa using he
  have hsub : es.Sublist (l.filter fun e => e ∈ es) := by
    have hfilter := h.filter fun e => decide (e ∈ es)
    rwa [hself] at hfilter
  refine (hsub.eq_of_length_le ?_).symm
  have hsubset : (l.filter fun e => e ∈ es) ⊆ es := fun e he => by
    simpa using (List.mem_filter.mp he).2
  exact (List.Nodup.subperm (hl.filter _) hsubset).length_le

/-- Linking makes a chain of elements that are named in the order of the list. -/
theorem link_chained (h : Unused s) {tags : List CString} (hn : Names getElItemByTag s tags es)
    (h2 : 2 ≤ es.length) (horder : es.Sublist (s.elList.items.map ElementItem.el))
    (hfree : ∀ e, es.getLast? = some e → (s.els e).Free)
    (hok : (s.audioPipelineLink tags).1 = ESP_OK) :
    Chained (s.audioPipelineLink tags).2 es (List.range' s.nextRb (es.length - 1)) := by
  have hd : es.Nodup := s.elList.nodup.sublist horder
  have hne : es ≠ [] := by
    rintro rfl
    simp at h2
  rw [audioPipelineLink, unlink_of_not_linked h.linked] at hok ⊢
  have hfirst : if true then 2 ≤ es.length else s.linkedRb.isSome := by simpa using h2
  have hw := (wired s none hne hd).core (linkLoop_wire lookup_tag hn hfirst hok)
  generalize (linkLoop getElItemByTag s true tags).2 = t at hw
  have hrings := hw.ringbufs
  rw [ringbufs, ringbufs, h.rbList, List.map_nil, List.nil_append] at hrings
  -- the ring buffers are created one after the other, in the order of the elements
  have hat : ∀ i r : ℕ, (List.range' s.nextRb (es.length - 1))[i]? = some r →
      i + 1 < es.length ∧ r = s.nextRb + i := by
    intro i r hr
    obtain ⟨hlt, rfl⟩ := List.getElem?_eq_some_iff.mp hr
    rw [List.length_range'] at hlt
    exact ⟨by omega, by simp⟩
  refine ⟨?_, h2, by rw [List.length_range']; omega, fun i e r he hr => ?_, fun i e r he hr => ?_,
    fun e he => ?_, List.nodup_range', by rw [ringbufs, hrings]; exact List.nodup_range',
    fun r hr => by rw [ringbufs, hrings]; exact hr, fun item hi => ?_, fun ring hr => ?_⟩
  · -- the items that are linked now are those of the list
    rw [linkedEls, hw.flags, List.filter_map, List.map_map]
    have hmap : ∀ item : ElementItem, (ElementItem.el ∘ fun item : ElementItem =>
        if item.el ∈ es then { item with linked := true, keptCtx := false } else item) item =
        item.el := by
      intro item
      simp only [Function.comp_apply]
      split_ifs <;> rfl
    have hfilter : ∀ item ∈ s.elList.items, (ElementItem.linked ∘ fun item : ElementItem =>
        if item.el ∈ es then { item with linked := true, keptCtx := false } else item) item =
        decide (item.el ∈ es) := by
      intro item hi
      simp only [Function.comp_apply]
      split_ifs with he
      · exact (decide_eq_true he).symm
      · rw [(h.items item hi).1, decide_eq_false he]
    rw [List.filter_congr hfilter, List.map_congr_left fun item _ => hmap item]
    have hels := filter_mem_sublist s.elList.nodup horder
    rw [List.filter_map] at hels
    exact hels
  · obtain ⟨hlt, rfl⟩ := hat i r hr
    exact (hw.next i e _ he (List.getElem?_eq_getElem hlt)).1
  · obtain ⟨hlt, rfl⟩ := hat i r hr
    exact (hw.next i _ e (List.getElem?_eq_getElem (by omega)) he).2
  · rw [hw.last e he]
    exact (hfree e he).2
  · rw [hw.flags] at hi
    obtain ⟨item₀, hi₀, rfl⟩ := List.mem_map.mp hi
    split_ifs
    · rfl
    · exact (h.items item₀ hi₀).2
  · rw [hw.rbList, h.rbList, List.nil_append] at hr
    obtain ⟨i, hi, rfl⟩ := List.mem_mapIdx.mp hr
    rfl

theorem Chained.elState (h : Chained s es rbs) (el : ℕ) (state : AelState) :
    Chained (s.call (.elState el state)).2 es rbs := by
  refine h.of_eq (fun e => ?_) rfl rfl
  by_cases he : e = el
  · subst he
    simp [call, setEl]
  · simp [call, setEl, he]

/-- Elements `1`, `2` and `3`, registered as `a`, `b` and `c`. -/
def triple : Links := (pair.audioPipelineRegister 3 (some ['c'])).2

/-- They are linked, and running. -/
def running3 : Links :=
  let s := (triple.audioPipelineLink [['a'], ['b'], ['c']]).2
  (((s.call (.elState 1 .running)).2.call (.elState 2 .running)).2.call (.elState 3 .running)).2

theorem running3_chained : Chained running3 [1, 2, 3] [0, 1] := by
  have hunused : Unused triple := ⟨rfl, by decide, rfl⟩
  have hnames : Names getElItemByTag triple [['a'], ['b'], ['c']] [1, 2, 3] :=
    .cons (by decide) (.cons (by decide) (.cons (by decide) .nil))
  have hlink := link_chained hunused hnames (by decide) (List.Sublist.refl [1, 2, 3])
      (fun e he => by
    obtain rfl : 3 = e := by simpa using he
    exact ⟨rfl, rfl⟩) (by decide)
  exact ((hlink.elState 1 .running).elState 2 .running).elState 3 .running

/-- Three running elements are broken up, and the first two are kept, as promised. -/
theorem keepsPrefix_running3 :
    (running3.audioPipelineBreakupElements (some 2)).1 = ESP_OK ∧
      KeepsPrefix running3 (running3.audioPipelineBreakupElements (some 2)).2 [1, 2, 3] [0, 1]
        (some 2) := by
  have hmem : ∀ el, some 2 = some el → el ∈ [1, 2, 3] := by
    intro el hel
    obtain rfl := Option.some.inj hel
    decide
  have h := keepsPrefix_iff running3_chained hmem
  refine ⟨h.1, h.2.mpr ⟨fun hnone => absurd hnone (by simp), fun el hel => ?_⟩⟩
  obtain rfl := Option.some.inj hel
  refine ⟨by decide, fun i k e hk hpos hlt he => ?_⟩
  have hplace := running3_chained.place hk (show [1, 2, 3][1]? = some 2 from rfl)
  omega

/-- With `NULL`, the first of them is kept all the same; and with the last one as `kept_ctx_el`, it
stays linked. -/
theorem breakup_keeps_first :
    ¬KeepsPrefix running3 (running3.audioPipelineBreakupElements none).2 [1, 2, 3] [0, 1] none ∧
      (⟨1, false, true⟩ : ElementItem) ∈
        (running3.audioPipelineBreakupElements none).2.elList.items ∧
      (⟨3, true, false⟩ : ElementItem) ∈
        (running3.audioPipelineBreakupElements (some 3)).2.elList.items := by
  have hmem : (⟨1, false, true⟩ : ElementItem) ∈
      (running3.audioPipelineBreakupElements none).2.elList.items := by decide
  refine ⟨fun hp => ?_, hmem, by decide⟩
  obtain ⟨r, i, k, el, -, -, hk, -⟩ := (hp.marks _ hmem).mp rfl
  exact absurd hk (by simp)

end Links

end AudioPipeline
