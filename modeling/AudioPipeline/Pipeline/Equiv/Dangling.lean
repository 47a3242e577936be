import AudioPipeline.Lib.Lts
import AudioPipeline.Pipeline.Equiv.Linkers

/-!
## Handles of destroyed ring buffers

The ring buffers of a pipeline stand in `rb_list`, and their handles in the elements on both sides.
Only `audio_pipeline_unlink` destroys them, and it clears the handles of the linked items of
`el_list` and of the elements that `rb_list` names as hosts.

`no_dangling`: no element holds the handle of a destroyed ring buffer, and none is destroyed twice,
as long as unlinking finds every element that holds one of the ring buffers, and no linking helper
reads a destroyed one from its static variable.  `dangling`: an element is unregistered first.
-/

namespace AudioPipeline

namespace Links

variable {s s' : Links} {κ : Type*} {find : Links → κ → Option ElementItem}

/-- The ring buffer was created and not destroyed. -/
def Live (s : Links) (r : ℕ) : Prop := r < s.nextRb ∧ r ∉ s.destroyed

instance (s : Links) (r : ℕ) : Decidable (s.Live r) :=
  inferInstanceAs (Decidable (_ ∧ _))

/-- The element has the ring buffer as its input or its output. -/
def Holds (s : Links) (e r : ℕ) : Prop :=
  (s.els e).input = .rb (some r) ∨ (s.els e).output = .rb (some r)

instance (s : Links) (e r : ℕ) : Decidable (s.Holds e r) :=
  inferInstanceAs (Decidable (_ ∨ _))

/-- The ring buffers of `rb_list`. -/
def ringbufs (s : Links) : List ℕ := s.rbList.map RingbufItem.rb

/-- The handles that elements hold are live, and so are the ring buffers of `rb_list`. -/
structure Sound (s : Links) : Prop where
  holds : ∀ e r, s.Holds e r → s.Live r
  live : ∀ r ∈ s.ringbufs, s.Live r
  nodup : s.ringbufs.Nodup
  destroyed : s.destroyed.Nodup
  created : ∀ r ∈ s.destroyed, r < s.nextRb

/-! ### Operations that attach nothing -/

/-- No element holds more than before, and the ring buffers are the same. -/
structure Fades (s s' : Links) : Prop where
  input : ∀ e r, (s'.els e).input = .rb (some r) → (s.els e).input = .rb (some r)
  output : ∀ e r, (s'.els e).output = .rb (some r) → (s.els e).output = .rb (some r)
  ringbufs : s'.ringbufs = s.ringbufs
  nextRb : s'.nextRb = s.nextRb
  destroyed : s'.destroyed = s.destroyed

theorem Fades.refl (s : Links) : Fades s s := ⟨fun _ _ h => h, fun _ _ h => h, rfl, rfl, rfl⟩

theorem Fades.trans {t : Links} (h : Fades s s') (h' : Fades s' t) : Fades s t :=
  ⟨fun e r hr => h.input e r (h'.input e r hr), fun e r hr => h.output e r (h'.output e r hr),
    h'.ringbufs.trans h.ringbufs, h'.nextRb.trans h.nextRb, h'.destroyed.trans h.destroyed⟩

theorem Fades.holds (h : Fades s s') {e r : ℕ} (hr : s'.Holds e r) : s.Holds e r :=
  hr.imp (h.input e r) (h.output e r)

theorem Fades.live (h : Fades s s') {r : ℕ} : s'.Live r ↔ s.Live r := by
  rw [Live, Live, h.nextRb, h.destroyed]

theorem Fades.sound (h : Fades s s') (hs : Sound s) : Sound s' where
  holds e r hr := h.live.mpr (hs.holds e r (h.holds hr))
  live r hr := h.live.mpr (hs.live r (h.ringbufs ▸ hr))
  nodup := h.ringbufs ▸ hs.nodup
  destroyed := h.destroyed ▸ hs.destroyed
  created := by
    rw [h.destroyed, h.nextRb]
    exact hs.created

/-- What does not write elements, `rb_list` or the allocated ring buffers. -/
theorem Fades.of_eq (hels : s'.els = s.els) (hrb : s'.rbList = s.rbList)
    (hn : s'.nextRb = s.nextRb) (hd : s'.destroyed = s.destroyed) : Fades s s' :=
  ⟨fun e r h => by rwa [hels] at h, fun e r h => by rwa [hels] at h,
    congrArg (List.map RingbufItem.rb) hrb, hn, hd⟩

/-- A state with the same elements, the same `rb_list` and the same allocated ring buffers. -/
theorem Sound.of_eq (hs : Sound s) (hels : s'.els = s.els) (hrb : s'.rbList = s.rbList)
    (hn : s'.nextRb = s.nextRb) (hd : s'.destroyed = s.destroyed) : Sound s' :=
  (Fades.of_eq hels hrb hn hd).sound hs

theorem Io.eq_of_setRingbuf_none {x : Io} {r : ℕ} (h : x.setRingbuf none = .rb (some r)) :
    x = .rb (some r) := by
  cases x <;> simp [Io.setRingbuf] at h

/-- The element is written so that it holds nothing new. -/
theorem fades_setEl (s : Links) (el : ℕ) {f : LinkEl → LinkEl}
    (hin : ∀ e r, (f e).input = .rb (some r) → e.input = .rb (some r))
    (hout : ∀ e r, (f e).output = .rb (some r) → e.output = .rb (some r)) :
    Fades s (s.setEl el f) := by
  refine ⟨fun e r h => ?_, fun e r h => ?_, rfl, rfl, rfl⟩
  · by_cases he : e = el
    · subst he
      exact hin _ r (by simpa [setEl] using h)
    · simpa [setEl, he] using h
  · by_cases he : e = el
    · subst he
      exact hout _ r (by simpa [setEl] using h)
    · simpa [setEl, he] using h

theorem fades_setInput_none (s : Links) (el : ℕ) :
    Fades s (s.audioElementSetInputRingbuf el none) :=
  fades_setEl s el (fun _ _ h => Io.eq_of_setRingbuf_none h) fun _ _ h => h

theorem fades_setOutput_none (s : Links) (el : ℕ) :
    Fades s (s.audioElementSetOutputRingbuf el none) :=
  fades_setEl s el (fun _ _ h => h) fun _ _ h => Io.eq_of_setRingbuf_none h

theorem fades_detach (s : Links) (el : ℕ) : Fades s (s.detach el) :=
  (s.fades_setOutput_none el).trans (fades_setInput_none _ el)

theorem fades_setFlags (s : Links) (el : ℕ) (linked keptCtx : Bool → Bool) :
    Fades s (s.setFlags el linked keptCtx) := .of_eq rfl rfl rfl rfl

/-- The items of `rb_list` are written, but not their ring buffers. -/
theorem fades_setRbList (s : Links) {rbList : List RingbufItem}
    (h : rbList.map RingbufItem.rb = s.rbList.map RingbufItem.rb) :
    Fades s { s with rbList := rbList } := ⟨fun _ _ h => h, fun _ _ h => h, h, rfl, rfl⟩

theorem calloc_fades (s : Links) : Fades s s.calloc.2 := by
  unfold calloc
  split <;> exact .of_eq rfl rfl rfl rfl

theorem removeListener_eq (s : Links) :
    ∃ events listener, s.audioPipelineRemoveListener.2 =
      { s with events := events, listener := listener } := by
  unfold audioPipelineRemoveListener
  split
  · exact ⟨_, _, rfl⟩
  · dsimp only
    split_ifs <;> exact ⟨_, _, rfl⟩

theorem removeListener_fades (s : Links) : Fades s s.audioPipelineRemoveListener.2 := by
  obtain ⟨events, listener, h⟩ := s.removeListener_eq
  rw [h]
  exact .of_eq rfl rfl rfl rfl

theorem setListener_fades (s : Links) (listener : ℕ) :
    Fades s (s.audioPipelineSetListener listener).2 := by
  unfold audioPipelineSetListener
  have hrem : Fades s (if s.listener.isSome then s.audioPipelineRemoveListener.2 else s) := by
    split_ifs
    · exact s.removeListener_fades
    · exact .refl s
  generalize (if s.listener.isSome then s.audioPipelineRemoveListener.2 else s) = s' at hrem ⊢
  dsimp only
  split_ifs <;> exact hrem.trans (.of_eq rfl rfl rfl rfl)

/-! ### Registering -/

theorem unregister_fades (s : Links) (el : ℕ) : Fades s (s.audioPipelineUnregister el).2 :=
  .of_eq rfl rfl rfl rfl

theorem setTag_fades (s : Links) (el : ℕ) (name : CString) :
    Fades s (s.audioElementSetTag el name) := by
  have hset := @fades_setEl s.calloc.2 el
    (fun e => { e with tag := if s.calloc.1 then some name else none }) (fun _ _ h => h)
    fun _ _ h => h
  exact (calloc_fades s).trans hset

/-- `audio_pipeline_register` behind the name, with the list that the new item is in. -/
def registered (s : Links) (elList : ElList) : ℤ × Links :=
  bif s.calloc.1 then (ESP_OK, { s.calloc.2 with elList := elList })
  else (ESP_ERR_NO_MEM, s.calloc.2)

theorem audioPipelineRegister_eq (s : Links) (el : ℕ) (name : Option CString) :
    s.audioPipelineRegister el name =
      (name.elim (s.audioPipelineUnregister el).2
        ((s.audioPipelineUnregister el).2.audioElementSetTag el)).registered
        ((s.elList.remove el).insertTail ⟨el, false, false⟩ (s.elList.not_mem_remove el)) := by
  unfold audioPipelineRegister registered
  cases name with
  | none =>
    dsimp only [Option.elim]
    rcases (s.audioPipelineUnregister el).2.calloc with ⟨_ | _, s'⟩ <;> rfl
  | some name =>
    dsimp only [Option.elim]
    rcases ((s.audioPipelineUnregister el).2.audioElementSetTag el name).calloc with ⟨_ | _, s'⟩ <;>
      rfl

theorem register_fades (s : Links) (el : ℕ) (name : Option CString) :
    Fades s (s.audioPipelineRegister el name).2 := by
  have hstart := s.unregister_fades el
  -- from here on the name is set, or not, and the item is allocated
  have hrest : ∀ (s' : Links) (elList : ElList), Fades s s' →
      Fades s (s'.registered elList).2 := by
    intro s' elList h
    have hc := h.trans (calloc_fades s')
    unfold registered
    rcases hcalloc : s'.calloc with ⟨_ | _, s''⟩
    · rw [hcalloc] at hc
      exact hc
    · rw [hcalloc] at hc
      exact hc.trans (.of_eq rfl rfl rfl rfl)
  rw [audioPipelineRegister_eq]
  cases name with
  | none => exact hrest _ _ hstart
  | some name => exact hrest _ _ (hstart.trans (setTag_fades _ el name))

theorem registerElement_fades (s : Links) (el : ℕ) :
    Fades s (s.audioPipelineRegisterElement el) := by
  unfold audioPipelineRegisterElement
  have hc := calloc_fades s
  split_ifs
  · exact .refl s
  · rcases hcalloc : s.calloc with ⟨_ | _, s'⟩
    · rw [hcalloc] at hc
      exact hc
    · rw [hcalloc] at hc
      exact hc.trans (.of_eq rfl rfl rfl rfl)

theorem foldl_fades {op : Links → ℕ → Links} (h : ∀ s el, Fades s (op s el)) (els : List ℕ)
    (s : Links) : Fades s (els.foldl op s) := by
  induction els generalizing s with
  | nil => exact .refl s
  | cons el els ih => exact (h s el).trans (ih (op s el))

/-! ### Breaking up -/

theorem resetRingbufItem_rb (rb : ℕ) (items : List RingbufItem) :
    (resetRingbufItem rb items).map RingbufItem.rb = items.map RingbufItem.rb := by
  induction items with
  | nil => rfl
  | cons item items ih =>
    rw [resetRingbufItem]
    split_ifs
    · rfl
    · rw [List.map_cons, ih, List.map_cons]

theorem resetKeptState_fades (s : Links) (el : ℕ) :
    Fades s (s.audioPipelineResetKeptState el).2 := by
  have h := (s.fades_setFlags el (fun _ => false) fun _ => false).trans (fades_setOutput_none _ el)
  refine h.trans ⟨fun _ _ h => h, fun _ _ h => h, ?_, rfl, rfl⟩
  rw [audioPipelineResetKeptState, ringbufs, ringbufs]
  split
  · exact resetRingbufItem_rb _ _
  · rfl

theorem release_fades (el : ℕ) (items : List RingbufItem) (s : Links) :
    Fades s (s.release el items).1 ∧
      (s.release el items).2.map RingbufItem.rb = items.map RingbufItem.rb := by
  induction items generalizing s with
  | nil => exact ⟨.refl s, rfl⟩
  | cons item items ih =>
    rw [release]
    split
    · exact ⟨(s.fades_setFlags el _ _).trans (fades_setInput_none _ el), rfl⟩
    · split_ifs
      · exact ⟨(s.fades_setFlags el _ _).trans (fades_detach _ el), rfl⟩
      · obtain ⟨hfades, hrb⟩ := ih (s.detach el)
        exact ⟨(s.fades_detach el).trans hfades, by rw [List.map_cons, hrb, List.map_cons]⟩

theorem markKept_rb (rb : ℕ) (items : List RingbufItem) :
    (markKept rb items).map RingbufItem.rb = items.map RingbufItem.rb := by
  induction items with
  | nil => rfl
  | cons item items ih =>
    rw [markKept]
    split_ifs
    · rfl
    · rw [List.map_cons, ih, List.map_cons]

theorem keep_fades {el : ℕ} (h : s.keep el = some s') : Fades s s' := by
  unfold keep at h
  split at h
  · exact absurd h (by simp)
  · next rb _ =>
    split_ifs at h with _ hst
    · obtain rfl := Option.some.inj h
      have h₁ := (s.fades_setFlags el (fun _ => false) fun _ => true).trans
        (fades_setRbList _ (markKept_rb rb s.rbList))
      exact h₁.trans (fades_setInput_none _ el)
    · obtain rfl := Option.some.inj h
      have h₁ := (s.fades_setFlags el (fun _ => false) id).trans (fades_setOutput_none _ el)
      exact h₁.trans (fades_setInput_none _ el)

theorem breakupElements_fades (keptCtxEl : Option ℕ) (items : List ElementItem) (kept : Bool)
    (s : Links) : Fades s (s.breakupElements keptCtxEl kept items) := by
  induction items generalizing s kept with
  | nil => exact .refl s
  | cons item items ih =>
    rw [breakupElements]
    split_ifs
    · have hreset : Fades s (s.audioElementResetState item.el) :=
        s.fades_setEl item.el (fun _ _ h => h) fun _ _ h => h
      obtain ⟨hrel, hrb⟩ := release_fades item.el s.rbList (s.audioElementResetState item.el)
      have hfinal : Fades ((s.audioElementResetState item.el).release item.el s.rbList).1
          { ((s.audioElementResetState item.el).release item.el s.rbList).1 with
            rbList := ((s.audioElementResetState item.el).release item.el s.rbList).2 } := by
        refine fades_setRbList _ (hrb.trans ?_)
        exact (hreset.trans hrel).ringbufs.symm
      exact ((hreset.trans hrel).trans hfinal).trans (ih kept _)
    · split
      · exact ih kept s
      · next hk => exact (keep_fades hk).trans (ih false _)
    · exact ih kept s

theorem resetRingbufs_rb (items : List RingbufItem) (s : Links) :
    (s.resetRingbufs items).2.map RingbufItem.rb = items.map RingbufItem.rb := by
  induction items generalizing s with
  | nil => rfl
  | cons item items ih =>
    rw [resetRingbufs]
    split_ifs
    · rw [List.map_cons, ih, List.map_cons]
    · rw [List.map_cons, ih, List.map_cons]

theorem breakup_fades (s : Links) (keptCtxEl : Option ℕ) :
    Fades s (s.audioPipelineBreakupElements keptCtxEl).2 := by
  unfold audioPipelineBreakupElements
  have h := s.removeListener_fades.trans (breakupElements_fades keptCtxEl
    s.audioPipelineRemoveListener.2.elList.items true s.audioPipelineRemoveListener.2)
  exact h.trans ⟨fun _ _ h => h, fun _ _ h => h, resetRingbufs_rb _ _, rfl, rfl⟩

/-! ### Unlinking -/

/-- The element holds no ring buffer. -/
def Bare (s : Links) (e : ℕ) : Prop := ∀ r, ¬s.Holds e r

theorem bare_detach (s : Links) (el : ℕ) : (s.detach el).Bare el := by
  intro r h
  have hnone : ∀ x : Io, x.setRingbuf none ≠ .rb (some r) := by
    rintro (_ | _) h <;> simp [Io.setRingbuf] at h
  rcases h with h | h
  · simp only [detach, audioElementSetInputRingbuf, setEl, Function.update_self] at h
    exact hnone _ h
  · simp only [detach, audioElementSetInputRingbuf, audioElementSetOutputRingbuf, setEl,
      Function.update_self] at h
    exact hnone _ h

theorem Fades.bare (h : Fades s s') {e : ℕ} (hb : s.Bare e) : s'.Bare e :=
  fun r hr => hb r (h.holds hr)

/-- The linked elements are detached. -/
theorem unlinkElements_spec (items : List ElementItem) (s : Links) :
    Fades s (s.unlinkElements items) ∧ (s.unlinkElements items).rbList = s.rbList ∧
      ∀ item ∈ items, item.linked = true → (s.unlinkElements items).Bare item.el := by
  induction items generalizing s with
  | nil => exact ⟨.refl s, rfl, by simp⟩
  | cons item items ih =>
    rw [unlinkElements]
    split_ifs with hl
    · have hstep := (s.fades_setFlags item.el (fun _ => false) fun _ => false).trans
        (fades_detach _ item.el)
      obtain ⟨hfades, hrb, hbare⟩ := ih
        ((s.setFlags item.el (fun _ => false) fun _ => false).detach item.el)
      refine ⟨hstep.trans hfades, hrb, fun item' hi hl' => ?_⟩
      rcases List.mem_cons.mp hi with rfl | hi
      · exact hfades.bare (bare_detach _ item'.el)
      · exact hbare item' hi hl'
    · obtain ⟨hfades, hrb, hbare⟩ := ih s
      refine ⟨hfades, hrb, fun item' hi hl' => ?_⟩
      rcases List.mem_cons.mp hi with rfl | hi
      · exact absurd hl' hl
      · exact hbare item' hi hl'

/-- The hosts are detached, and the ring buffers destroyed. -/
theorem unlinkRingbufs_spec (items : List RingbufItem) (s : Links) :
    (∀ e r, (s.unlinkRingbufs items).Holds e r → s.Holds e r) ∧
      (s.unlinkRingbufs items).nextRb = s.nextRb ∧
      (s.unlinkRingbufs items).destroyed = (items.map RingbufItem.rb).reverse ++ s.destroyed ∧
      ∀ item ∈ items, ∀ e, item.hostEl = some e → (s.unlinkRingbufs items).Bare e := by
  induction items generalizing s with
  | nil => exact ⟨fun _ _ h => h, rfl, rfl, by simp⟩
  | cons item items ih =>
    rw [unlinkRingbufs]
    cases hhost : item.hostEl with
    | none =>
      obtain ⟨hholds, hn, hd, hbare⟩ := ih { s with destroyed := item.rb :: s.destroyed }
      refine ⟨hholds, hn, by rw [hd]; simp, fun item' hi e he => ?_⟩
      rcases List.mem_cons.mp hi with rfl | hi
      · rw [hhost] at he
        exact absurd he (by simp)
      · exact hbare item' hi e he
    | some hostEl =>
      obtain ⟨hholds, hn, hd, hbare⟩ := ih
        { s.detach hostEl with destroyed := item.rb :: (s.detach hostEl).destroyed }
      refine ⟨fun e r h => (s.fades_detach hostEl).holds (hholds e r h), hn,
        by rw [hd]; simp [detach, audioElementSetInputRingbuf, audioElementSetOutputRingbuf, setEl],
        fun item' hi e he => ?_⟩
      rcases List.mem_cons.mp hi with rfl | hi
      · obtain rfl : hostEl = e := by
          rw [hhost] at he
          exact Option.some.inj he
        exact fun r h => s.bare_detach hostEl r (hholds hostEl r h)
      · exact hbare item' hi e he

/-- Unlinking finds every element that holds one of the ring buffers: its item is linked, or it is
the host of one. -/
def Reaches (s : Links) : Prop :=
  ∀ e r, s.Holds e r → r ∈ s.ringbufs →
    (∃ item ∈ s.elList.items, item.el = e ∧ item.linked = true) ∨
      ∃ item ∈ s.rbList, item.hostEl = some e

theorem unlink_sound (hs : Sound s) (hr : s.linked = true → Reaches s) :
    Sound s.audioPipelineUnlink ∧ ∀ r, s.Live r → (s.linked = true → r ∉ s.ringbufs) →
      s.audioPipelineUnlink.Live r := by
  unfold audioPipelineUnlink
  split_ifs with hl
  · obtain ⟨events, listener, hrem⟩ := s.removeListener_eq
    rw [hrem]
    generalize hs₁ : ({ s with events := events, listener := listener } : Links) = s₁
    have hels : ∀ e r, s₁.Holds e r ↔ s.Holds e r := by
      subst hs₁
      exact fun _ _ => Iff.rfl
    have hitems : s₁.elList = s.elList ∧ s₁.rbList = s.rbList ∧ s₁.nextRb = s.nextRb ∧
        s₁.destroyed = s.destroyed := by
      subst hs₁
      exact ⟨rfl, rfl, rfl, rfl⟩
    obtain ⟨hel, hrb, hn, hd⟩ := hitems
    -- the elements of the list lose both their ring buffers, then all ring buffers are destroyed
    obtain ⟨hfades, hrb₂, hbare₂⟩ := unlinkElements_spec s₁.elList.items s₁
    obtain ⟨hholds, hn₃, hd₃, hbare₃⟩ := unlinkRingbufs_spec
      (s₁.unlinkElements s₁.elList.items).rbList (s₁.unlinkElements s₁.elList.items)
    rw [hrb₂, hrb] at hholds hn₃ hd₃ hbare₃
    have hnext := (hn₃.trans hfades.nextRb).trans hn
    have hdest : ((s₁.unlinkElements s₁.elList.items).unlinkRingbufs s.rbList).destroyed =
        s.ringbufs.reverse ++ s.destroyed := by
      rw [hd₃, hfades.destroyed, hd]
      rfl
    have hlive : ∀ r, s.Live r → r ∉ s.ringbufs →
        r < ((s₁.unlinkElements s₁.elList.items).unlinkRingbufs s.rbList).nextRb ∧
          r ∉ ((s₁.unlinkElements s₁.elList.items).unlinkRingbufs s.rbList).destroyed := by
      rintro r ⟨hlt, hnot⟩ hout
      rw [hdest, hnext]
      exact ⟨hlt, by simp [hnot, hout]⟩
    dsimp only
    rw [hrb₂, hrb]
    refine ⟨⟨fun e r h => ?_, by simp [ringbufs], by simp [ringbufs], ?_, ?_⟩, fun r h hout =>
      hlive r h (hout hl)⟩
    · -- an element that still holds a ring buffer was not found, so it is none of these
      have h₂ := hholds e r h
      have h₀ : s.Holds e r := (hels e r).mp (hfades.holds h₂)
      refine hlive r (hs.holds e r h₀) fun hin => ?_
      rcases hr hl e r h₀ hin with ⟨item, hi, rfl, hlinked⟩ | ⟨item, hi, hhost⟩
      · exact hbare₂ item (hel ▸ hi) hlinked r h₂
      · exact hbare₃ item hi e hhost r h
    · show ((s₁.unlinkElements s₁.elList.items).unlinkRingbufs s.rbList).destroyed.Nodup
      rw [hdest]
      refine (List.nodup_reverse.mpr hs.nodup).append hs.destroyed fun r h1 h2 => ?_
      exact (hs.live r (List.mem_reverse.mp h1)).2 h2
    · intro r h
      change r ∈ ((s₁.unlinkElements s₁.elList.items).unlinkRingbufs s.rbList).destroyed at h
      rw [hdest, List.mem_append, List.mem_reverse] at h
      show r < ((s₁.unlinkElements s₁.elList.items).unlinkRingbufs s.rbList).nextRb
      rw [hnext]
      rcases h with h | h
      · exact (hs.live r h).1
      · exact hs.created r h
  · exact ⟨hs, fun r h _ => h⟩

/-! ### Attaching -/

theorem Sound.setInput (hs : Sound s) {el : ℕ} {rb : Option ℕ} (h : ∀ r, rb = some r → s.Live r) :
    Sound (s.audioElementSetInputRingbuf el rb) := by
  cases rb with
  | none => exact (s.fades_setInput_none el).sound hs
  | some rb =>
    refine ⟨fun e r hr => ?_, hs.live, hs.nodup, hs.destroyed, hs.created⟩
    by_cases he : e = el
    · subst he
      simp only [Holds, audioElementSetInputRingbuf, setEl, Function.update_self,
        Io.setRingbuf_some] at hr
      rcases hr with hr | hr
      · obtain rfl : rb = r := by simpa using hr
        exact h rb rfl
      · exact hs.holds e r (Or.inr hr)
    · exact hs.holds e r (by simpa [Holds, audioElementSetInputRingbuf, setEl, he] using hr)

theorem Sound.setOutput (hs : Sound s) {el rb : ℕ} (h : s.Live rb) :
    Sound (s.audioElementSetOutputRingbuf el (some rb)) := by
  refine ⟨fun e r hr => ?_, hs.live, hs.nodup, hs.destroyed, hs.created⟩
  by_cases he : e = el
  · subst he
    simp only [Holds, audioElementSetOutputRingbuf, setEl, Function.update_self,
      Io.setRingbuf_some] at hr
    rcases hr with hr | hr
    · exact hs.holds e r (Or.inl hr)
    · obtain rfl : rb = r := by simpa using hr
      exact h
  · exact hs.holds e r (by simpa [Holds, audioElementSetOutputRingbuf, setEl, he] using hr)

/-- The outcome of looking for a ring buffer: what was live is live, and so is the one found. -/
structure Provides (s : Links) (r : Option ℕ × Links) : Prop where
  sound : Sound r.2
  live : ∀ rb, s.Live rb → r.2.Live rb
  found : ∀ rb, r.1 = some rb → r.2.Live rb
  linkedRb : r.2.linkedRb = s.linkedRb
  itemRb : r.2.itemRb = s.itemRb

theorem createRing_provides (hs : Sound s) (el : ℕ) : Provides s (s.createRing el) := by
  rcases createRing_cases s el with ⟨memory, h⟩ | ⟨memory, h⟩
  · rw [h]
    have hf : Fades s { s with memory := memory } := .of_eq rfl rfl rfl rfl
    exact ⟨hf.sound hs, fun rb hl => hf.live.mpr hl, by simp, rfl, rfl⟩
  · rw [h]
    have hfresh : s.nextRb ∉ s.destroyed := fun hd => Nat.lt_irrefl _ (hs.created _ hd)
    have hkeep : ∀ rb, s.Live rb → rb < s.nextRb + 1 ∧ rb ∉ s.destroyed :=
      fun rb hl => ⟨Nat.lt_succ_of_lt hl.1, hl.2⟩
    have hnew : s.nextRb < s.nextRb + 1 ∧ s.nextRb ∉ s.destroyed := ⟨Nat.lt_succ_self _, hfresh⟩
    refine ⟨⟨fun e r hr => hkeep r (hs.holds e r hr), fun r hr => ?_, ?_, hs.destroyed,
      fun r hr => Nat.lt_succ_of_lt (hs.created r hr)⟩, hkeep, fun rb hrb => ?_, rfl, rfl⟩
    · rcases List.mem_append.mp (by simpa [ringbufs] using hr :
        r ∈ s.ringbufs ++ [s.nextRb]) with hr | hr
      · exact hkeep r (hs.live r hr)
      · obtain rfl := List.mem_singleton.mp hr
        exact hnew
    · have hout : s.nextRb ∉ s.ringbufs := fun h => Nat.lt_irrefl _ (hs.live _ h).1
      simpa [ringbufs] using hs.nodup.append (List.nodup_singleton _) (by simpa using hout)
    · obtain rfl := Option.some.inj hrb
      exact hnew

theorem takeKept_rb (el : ℕ) (items : List RingbufItem) :
    (takeKept el items).2.map RingbufItem.rb = items.map RingbufItem.rb ∧
      ∀ rb, (takeKept el items).1 = some rb → rb ∈ items.map RingbufItem.rb := by
  induction items with
  | nil => exact ⟨rfl, fun _ h => absurd h (by simp [takeKept])⟩
  | cons item items ih =>
    obtain ⟨hrb, hmem⟩ := ih
    rw [takeKept]
    split_ifs
    · exact ⟨rfl, fun rb h => by simp [Option.some.inj h]⟩
    · exact ⟨by rw [List.map_cons, hrb, List.map_cons],
        fun rb h => List.mem_cons_of_mem _ (hmem rb h)⟩

theorem takeFree_rb (el : ℕ) (items : List RingbufItem) :
    (takeFree el items).2.map RingbufItem.rb = items.map RingbufItem.rb ∧
      ∀ rb, (takeFree el items).1 = some rb → rb ∈ items.map RingbufItem.rb := by
  induction items with
  | nil => exact ⟨rfl, fun _ h => absurd h (by simp [takeFree])⟩
  | cons item items ih =>
    obtain ⟨hrb, hmem⟩ := ih
    rw [takeFree]
    split_ifs
    · exact ⟨rfl, fun rb h => by simp [Option.some.inj h]⟩
    · exact ⟨by rw [List.map_cons, hrb, List.map_cons],
        fun rb h => List.mem_cons_of_mem _ (hmem rb h)⟩
    · exact ⟨by rw [List.map_cons, hrb, List.map_cons],
        fun rb h => List.mem_cons_of_mem _ (hmem rb h)⟩

/-- A search of `rb_list` finds a ring buffer of the list, which stays as it is. -/
theorem provides_of_list (hs : Sound s) {s' : Links} {cur : Option ℕ} (hf : Fades s s')
    (hmem : ∀ rb, cur = some rb → rb ∈ s.ringbufs) (hl : s'.linkedRb = s.linkedRb)
    (hi : s'.itemRb = s.itemRb) : Provides s (cur, s') :=
  ⟨hf.sound hs, fun _ h => hf.live.mpr h, fun rb h => hf.live.mpr (hs.live rb (hmem rb h)), hl, hi⟩

theorem reuseRing_provides (hs : Sound s) (el : ℕ) (keptCtx : Bool) :
    Provides s (s.reuseRing el keptCtx) := by
  unfold reuseRing
  split_ifs
  · obtain ⟨hrb, hmem⟩ := takeKept_rb el s.rbList
    rcases htake : takeKept el s.rbList with ⟨_ | rb, rbList⟩
    · rw [htake] at hrb
      exact provides_of_list hs (s.fades_setRbList hrb) (by simp) rfl rfl
    · rw [htake] at hrb hmem
      have hf := (s.fades_setRbList hrb).trans (fades_setFlags _ el id fun _ => false)
      exact provides_of_list hs hf hmem rfl rfl
  · obtain ⟨hrb, hmem⟩ := takeFree_rb el s.rbList
    rcases htake : takeFree el s.rbList with ⟨_ | rb, rbList⟩
    · rw [htake] at hrb
      exact provides_of_list hs (s.fades_setRbList hrb) (by simp) rfl rfl
    · rw [htake] at hrb hmem
      have hf : Fades s { s with
          rbList := rbList, rings := Function.update s.rings rb (rbReset (s.rings rb)) } :=
        (s.fades_setRbList hrb).trans (.of_eq rfl rfl rfl rfl)
      exact provides_of_list hs hf hmem rfl rfl

theorem takeRing_provides (hs : Sound s) (el : ℕ) (keptCtx last : Bool) :
    Provides s (s.takeRing el keptCtx last) := by
  have hreuse := reuseRing_provides hs el keptCtx
  unfold takeRing
  split_ifs
  · have hcreate := createRing_provides hreuse.sound el
    exact ⟨hcreate.sound, fun rb h => hcreate.live rb (hreuse.live rb h), hcreate.found,
      hcreate.linkedRb.trans hreuse.linkedRb, hcreate.itemRb.trans hreuse.itemRb⟩
  · exact hreuse

/-! ### Linking -/

/-- The static variable of the helper holds a ring buffer that is live. -/
def LinkedRbLive (s : Links) : Prop := ∀ r, s.linkedRb = some r → s.Live r

/-- The static variable of the helper holds a ring buffer that is live. -/
def ItemRbLive (s : Links) : Prop := ∀ r, s.itemRb = some r → s.Live r

/-- `_pipeline_rb_linked` reads its static variable for every element but a first one that is not
the last, and leaves a live ring buffer in it. -/
theorem pipelineRbLinked_sound (hs : Sound s) (el : ℕ) {first last : Bool}
    (hold : first = false ∨ last = true → LinkedRbLive s) :
    Sound (s.pipelineRbLinked el first last).2 ∧
      ((s.pipelineRbLinked el first last).1 = ESP_OK → last = false →
        LinkedRbLive (s.pipelineRbLinked el first last).2) := by
  unfold pipelineRbLinked
  cases last with
  | true =>
    rw [if_pos rfl]
    exact ⟨hs.setInput (hold (Or.inr rfl)), fun _ h => absurd h (by decide)⟩
  | false =>
    rw [if_neg (by decide)]
    have hs₁ : Sound (if first then s else s.audioElementSetInputRingbuf el s.linkedRb) := by
      cases first with
      | true => exact hs
      | false => exact hs.setInput (hold (Or.inl rfl))
    have hring := createRing_provides hs₁ el
    dsimp only
    rcases hc : (if first then s else s.audioElementSetInputRingbuf el s.linkedRb).createRing el
      with ⟨_ | rb, s'⟩
    · rw [hc] at hring
      have hs₂ : Sound s' := hring.sound
      have hne : ESP_ERR_NO_MEM ≠ ESP_OK := by decide
      exact ⟨hs₂.of_eq rfl rfl rfl rfl, fun h => absurd h hne⟩
    · rw [hc] at hring
      have hlive : s'.Live rb := hring.found rb rfl
      have hs₁ : Sound s' := hring.sound
      have hs₂ : Sound { s' with linkedRb := some rb } := hs₁.of_eq rfl rfl rfl rfl
      refine ⟨hs₂.setOutput hlive, fun _ _ r hr => ?_⟩
      obtain rfl : rb = r := Option.some.inj hr
      exact hlive

theorem linkLoop_sound (hs : Sound s) {first : Bool} {ks : List κ}
    (hold : first = true ∧ ks.length ≠ 1 ∨ LinkedRbLive s) :
    Sound (linkLoop find s first ks).2 := by
  induction ks generalizing s first with
  | nil => exact hs.of_eq rfl rfl rfl rfl
  | cons k ks ih =>
    rw [linkLoop]
    split
    · exact hs
    · next item _ =>
      have hs₁ := (s.fades_setFlags item.el (fun _ => true) fun _ => false).sound hs
      have hold₁ : first = false ∨ ks.isEmpty = true →
          LinkedRbLive (s.setFlags item.el (fun _ => true) fun _ => false) := by
        intro h
        rcases hold with ⟨hfirst, hlen⟩ | hold
        · -- a first element that is the last one has been excluded
          rcases h with h | h
          · exact absurd (hfirst.symm.trans h) (by decide)
          · simp [List.isEmpty_iff.mp h] at hlen
        · exact hold
      obtain ⟨hs₂, hnext⟩ := pipelineRbLinked_sound hs₁ item.el hold₁
      dsimp only
      split_ifs with hret
      · exact hs₂
      · rcases ks with _ | ⟨k', ks⟩
        · exact hs₂.of_eq rfl rfl rfl rfl
        · exact ih hs₂ (Or.inr (hnext (not_not.mp hret) rfl))

/-! ### Relinking -/

/-- `audio_pipeline_el_item_link` reads its static variable for every element that gets a ring
buffer or is the last one, but not for the first that is not the last. -/
theorem elItemLink_sound (hs : Sound s) (el : ℕ) (keptCtx : Bool) {first last : Bool}
    (hold : first = false ∨ last = true → ItemRbLive s) :
    Sound (s.elItemLink el keptCtx first last).2 ∧
      (ItemRbLive s ∨ last = false ∧ (s.takeRing el keptCtx last).1 ≠ none →
        ItemRbLive (s.elItemLink el keptCtx first last).2) := by
  have hring := takeRing_provides hs el keptCtx last
  have hlive : ItemRbLive s → ItemRbLive (s.takeRing el keptCtx last).2 := by
    intro h r hr
    rw [hring.itemRb] at hr
    exact hring.live r (h r hr)
  unfold elItemLink attachRing
  generalize s.takeRing el keptCtx last = ring at hring hlive ⊢
  cases last with
  | true =>
    rw [if_pos rfl]
    refine ⟨hring.sound.setInput (hlive (hold (Or.inr rfl))), fun h => ?_⟩
    rcases h with h | ⟨h, _⟩
    · exact hlive h
    · exact absurd h (by decide)
  | false =>
    rw [if_neg (by decide)]
    obtain ⟨_ | rb, s'⟩ := ring
    · exact ⟨hring.sound, fun h => h.elim hlive fun h => absurd rfl h.2⟩
    · have hs₁ : Sound (if first then s' else s'.audioElementSetInputRingbuf el s'.itemRb) := by
        cases first with
        | true => exact hring.sound
        | false => exact hring.sound.setInput (hlive (hold (Or.inl rfl)))
      have hfound : s'.Live rb := hring.found rb rfl
      have hfound₁ :
          (if first then s' else s'.audioElementSetInputRingbuf el s'.itemRb).Live rb := by
        cases first <;> exact hfound
      dsimp only
      generalize (if first then s' else s'.audioElementSetInputRingbuf el s'.itemRb) = s₁
        at hs₁ hfound₁ ⊢
      have hs₂ : Sound { s₁ with itemRb := some rb } := hs₁.of_eq rfl rfl rfl rfl
      refine ⟨hs₂.setOutput hfound₁, fun _ r hr => ?_⟩
      obtain rfl : rb = r := Option.some.inj hr
      exact hfound₁

theorem relinkLoop_sound (hs : Sound s) (hold : ItemRbLive s) (isFirst : ℕ → Bool) (i : ℕ)
    (ks : List κ) : Sound (relinkLoop find isFirst s i ks).2 := by
  induction ks generalizing s i with
  | nil => exact hs.of_eq rfl rfl rfl rfl
  | cons k ks ih =>
    rw [relinkLoop]
    split
    · exact hs
    · next item _ =>
      have hs₁ := (s.fades_setFlags item.el (fun _ => true) id).sound hs
      have hold₁ : ItemRbLive (s.setFlags item.el (fun _ => true) id) := hold
      obtain ⟨hs₂, hnext⟩ := @elItemLink_sound _ hs₁ item.el item.keptCtx (isFirst i) ks.isEmpty
        fun _ => hold₁
      exact ih hs₂ (hnext (Or.inl hold₁)) (i + 1)

/-- The first element named gets a ring buffer, from `rb_list` or a new one, and is not the last
one. -/
def FirstGets (find : Links → κ → Option ElementItem) (s : Links) : List κ → Prop
  | [] => True
  | k :: ks => ∀ item, find s k = some item →
      ks ≠ [] ∧
        ((s.setFlags item.el (fun _ => true) id).takeRing item.el item.keptCtx false).1 ≠ none

theorem relink_sound (hs : Sound s) {isFirst : ℕ → Bool} (h0 : isFirst 0 = true) {ks : List κ}
    (hold : FirstGets find s ks ∨ ItemRbLive s) : Sound (relinkLoop find isFirst s 0 ks).2 := by
  rcases hold with hold | hold
  · rcases ks with _ | ⟨k, ks⟩
    · exact hs.of_eq rfl rfl rfl rfl
    · rw [relinkLoop]
      split
      · exact hs
      · next item hk =>
        obtain ⟨hks, hget⟩ := hold item hk
        have hlast : ks.isEmpty = false := by simpa using hks
        have hs₁ := (s.fades_setFlags item.el (fun _ => true) id).sound hs
        -- the first element reads nothing, and leaves its ring buffer to the next one
        obtain ⟨hs₂, hnext⟩ := @elItemLink_sound _ hs₁ item.el item.keptCtx (isFirst 0) ks.isEmpty
          fun h => by simp [h0, hlast] at h
        rw [hlast] at hs₂ hnext ⊢
        exact relinkLoop_sound hs₂ (hnext (Or.inr ⟨rfl, hget⟩)) isFirst 1 ks
  · exact relinkLoop_sound hs hold isFirst 0 ks

/-! ### Runs -/

/-- What unlinking preserves: a property that survives each of its writes. -/
theorem unlink_preserves {P : Links → Prop} (h : s.linked = false → P s)
    (hrem : s.linked = true → P s.audioPipelineRemoveListener.2)
    (hflags : ∀ (s : Links) el, P s → P (s.setFlags el (fun _ => false) fun _ => false))
    (hdetach : ∀ (s : Links) el, P s → P (s.detach el))
    (hdestroy : ∀ (s : Links) rb, P s → P { s with destroyed := rb :: s.destroyed })
    (hend : ∀ s : Links, P s → P { s with rbList := [], linked := false }) :
    P s.audioPipelineUnlink := by
  have hel : ∀ (items : List ElementItem) (s : Links), P s → P (s.unlinkElements items) := by
    intro items
    induction items with
    | nil => exact fun _ h => h
    | cons item items ih =>
      intro s h
      rw [unlinkElements]
      split_ifs
      · exact ih _ (hdetach _ _ (hflags _ _ h))
      · exact ih s h
  have hrb : ∀ (items : List RingbufItem) (s : Links), P s → P (s.unlinkRingbufs items) := by
    intro items
    induction items with
    | nil => exact fun _ h => h
    | cons item items ih =>
      intro s h
      rw [unlinkRingbufs]
      cases item.hostEl with
      | none => exact ih _ (hdestroy _ _ h)
      | some hostEl => exact ih _ (hdestroy _ _ (hdetach _ _ h))
  unfold audioPipelineUnlink
  split_ifs with hl
  · exact hend _ (hrb _ _ (hel _ _ (hrem hl)))
  · exact h (by simpa using hl)

theorem sameNames_detach (s : Links) (el : ℕ) : SameNames s (s.detach el) := by
  have hout := @sameNames_setEl s el (fun e => { e with output := e.output.setRingbuf none })
    fun _ => ⟨rfl, rfl⟩
  have hin := @sameNames_setEl (s.audioElementSetOutputRingbuf el none) el
    (fun e => { e with input := e.input.setRingbuf none }) fun _ => ⟨rfl, rfl⟩
  exact hout.trans hin

/-- Unlinking leaves the names as they are. -/
theorem unlink_names (s : Links) : SameNames s s.audioPipelineUnlink := by
  have hsame : ∀ t t' : Links, t'.elList = t.elList → t'.els = t.els → SameNames s t →
      SameNames s t' := fun t t' hl he h =>
    ⟨by rw [hl, h.els], by rw [he]; exact h.tag, by rw [he]; exact h.size⟩
  have hself : SameNames s s := ⟨rfl, fun _ => rfl, fun _ => rfl⟩
  obtain ⟨events, listener, hrem⟩ := s.removeListener_eq
  refine unlink_preserves (fun _ => hself) (fun _ => ?_)
    (fun t el h => h.trans (sameNames_setFlags t el _ _))
    (fun t el h => h.trans (sameNames_detach t el)) (fun t _ h => hsame t _ rfl rfl h)
    (fun t h => hsame t _ rfl rfl h)
  rw [hrem]
  exact hsame s _ rfl rfl hself

theorem unlink_linkedRb (s : Links) : s.audioPipelineUnlink.linkedRb = s.linkedRb := by
  obtain ⟨events, listener, hrem⟩ := s.removeListener_eq
  exact @unlink_preserves s (fun t => t.linkedRb = s.linkedRb) (fun _ => rfl)
    (fun _ => by rw [hrem]) (fun _ _ h => h) (fun _ _ h => h) (fun _ _ h => h) fun _ h => h

/-- A linking call on this list: unlinking finds every element that holds a ring buffer of the
pipeline, and a single element is not given a ring buffer that is destroyed by then. -/
def CarefulLink (find : Links → κ → Option ElementItem) (s : Links) (ks : List κ) : Prop :=
  (s.linked = true → Reaches s) ∧
    ∀ k r, ks = [k] → find s k ≠ none → s.linkedRb = some r →
      s.Live r ∧ (s.linked = true → r ∉ s.ringbufs)

theorem link_sound (hs : Sound s) (hf : Lookup find) {ks : List κ}
    (h : CarefulLink find s ks) : Sound (linkLoop find s.audioPipelineUnlink true ks).2 := by
  obtain ⟨hreach, hsingle⟩ := h
  obtain ⟨hunlink, hlive⟩ := unlink_sound hs hreach
  by_cases hlen : ks.length = 1
  · obtain ⟨k, rfl⟩ := List.length_eq_one_iff.mp hlen
    have hnames := hf.names s.unlink_names k
    cases hk : find s k with
    | none =>
      rw [hk, Option.map_none, Option.map_eq_none_iff] at hnames
      rw [linkLoop, hnames]
      exact hunlink
    | some item =>
      refine linkLoop_sound hunlink (Or.inr fun r hr => ?_)
      rw [unlink_linkedRb] at hr
      obtain ⟨hl, hout⟩ := hsingle k r rfl (by rw [hk]; exact Option.some_ne_none item) hr
      exact hlive r hl hout
  · exact linkLoop_sound hunlink (Or.inl ⟨rfl, hlen⟩)

/-- Unlinking finds every element that holds a ring buffer of the pipeline, and no helper gives out
a destroyed ring buffer from its static variable. -/
def Careful (s : Links) : Op → Prop
  | .unlink => s.linked = true → Reaches s
  | .link linkTag => CarefulLink getElItemByTag s linkTag
  | .linkMore els => CarefulLink getElItemByHandle s els
  | .relink linkTag => s.linked = false → FirstGets getElItemByTag s linkTag ∨ ItemRbLive s
  | .relinkMore els => s.linked = false → FirstGets getElItemByHandle s els ∨ ItemRbLive s
  | .linkInsert _ _ _ _ => False
  | _ => True

theorem call_sound (hs : Sound s) {op : Op} (h : Careful s op) : Sound (s.call op).2 := by
  cases op with
  | register el name => exact (s.register_fades el name).sound hs
  | registerMore els => exact (foldl_fades registerElement_fades els s).sound hs
  | unregister el => exact (s.unregister_fades el).sound hs
  | unregisterMore els => exact (foldl_fades unregister_fades els s).sound hs
  | link linkTag => exact link_sound hs lookup_tag h
  | linkMore els => exact link_sound hs lookup_handle h
  | linkInsert first prev conectRb next => exact h.elim
  | unlink => exact (unlink_sound hs h).1
  | relink linkTag =>
    unfold call audioPipelineRelink
    dsimp only
    split_ifs with hl
    · exact hs
    · exact relink_sound hs (by decide) (h (by simpa using hl))
  | relinkMore els =>
    unfold call audioPipelineRelinkMore
    dsimp only
    split_ifs with hl
    · exact hs
    · exact relink_sound hs (by decide) (h (by simpa using hl))
  | breakupElements keptCtxEl => exact (s.breakup_fades keptCtxEl).sound hs
  | resetKeptState el => exact (s.resetKeptState_fades el).sound hs
  | setListener listener => exact (s.setListener_fades listener).sound hs
  | removeListener => exact s.removeListener_fades.sound hs
  | elState el state =>
    have hf : Fades s (s.setEl el fun e => { e with state := state }) :=
      s.fades_setEl el (fun _ _ h => h) fun _ _ h => h
    exact hf.sound hs
  | io rb ring => exact hs.of_eq rfl rfl rfl rfl

/-- **No dangling handle**: in every run of calls that are careful in this sense, no element holds
the handle of a ring buffer that does not exist, and none is destroyed twice. -/
theorem no_dangling {heap : Heap} (h₀ : Sound ⟨heap, .init⟩)
    (hr : Lts.Reach step Careful ⟨heap, .init⟩ s) :
    (∀ e r, s.Holds e r → s.Live r) ∧ s.destroyed.Nodup := by
  have hs : Sound s := by
    refine hr.invariant h₀ fun s op s' hs hop hstep => ?_
    obtain rfl := Option.some.inj hstep
    exact call_sound hs hop
  exact ⟨hs.holds, hs.destroyed⟩

theorem start_sound : Sound ⟨.start, .init⟩ where
  holds e r h := by simp [Holds, Heap.start] at h
  live r h := by simp [ringbufs, Pipeline.init] at h
  nodup := List.nodup_nil
  destroyed := List.nodup_nil
  created r h := by simp [Heap.start] at h

/-- Elements `1` and `2`, linked. -/
def pairLinked : Links := (pair.audioPipelineLink [['a'], ['b']]).2

theorem pairLinked_reaches : Reaches pairLinked := by
  intro e r h _
  left
  -- the elements that hold a ring buffer are the two linked ones
  rcases e with _ | _ | _ | e
  · have hin : (pairLinked.els 0).input = .rb none := rfl
    have hout : (pairLinked.els 0).output = .rb none := rfl
    simp [Holds, hin, hout] at h
  · exact ⟨⟨1, true, false⟩, by decide, rfl, rfl⟩
  · exact ⟨⟨2, true, false⟩, by decide, rfl, rfl⟩
  · have hin : (pairLinked.els (e + 3)).input = .rb none := rfl
    have hout : (pairLinked.els (e + 3)).output = .rb none := rfl
    simp [Holds, hin, hout] at h

/-- Two elements are registered, linked and unlinked. -/
theorem no_dangling_pair :
    pairLinked.audioPipelineUnlink.destroyed = [0] ∧
      (∀ e r, pairLinked.audioPipelineUnlink.Holds e r → pairLinked.audioPipelineUnlink.Live r) ∧
      pairLinked.audioPipelineUnlink.destroyed.Nodup := by
  have hpair : Lts.Reach step Careful ⟨.start, .init⟩ pair :=
    (Lts.Reach.refl.tail (l := .register 1 (some ['a'])) trivial rfl).tail
      (l := .register 2 (some ['b'])) trivial rfl
  have hlink : Careful pair (.link [['a'], ['b']]) :=
    ⟨fun h => absurd h (by decide), fun k r h => by simp at h⟩
  have hlinked : Lts.Reach step Careful ⟨.start, .init⟩ pairLinked := hpair.tail hlink rfl
  have hunlink : Careful pairLinked .unlink := fun _ => pairLinked_reaches
  exact ⟨by decide, no_dangling start_sound (hlinked.tail hunlink rfl)⟩

/-- The tests unregister their elements before the pipeline is unlinked: the second element keeps
the ring buffer that unlinking destroys. -/
theorem dangling :
    ∃ s, Lts.run step (fun _ _ => True) ⟨.start, .init⟩
        [.register 1 (some ['a']), .register 2 (some ['b']), .link [['a'], ['b']], .unregister 2,
          .unlink] = some s ∧ s.Holds 2 0 ∧ ¬s.Live 0 := by
  obtain ⟨s, hs⟩ : ∃ s, Lts.run step (fun _ _ => True) ⟨.start, .init⟩
      [.register 1 (some ['a']), .register 2 (some ['b']), .link [['a'], ['b']], .unregister 2,
        .unlink] = some s := ⟨_, rfl⟩
  refine ⟨s, hs, ?_⟩
  obtain rfl := Option.some.inj hs
  decide

end Links

end AudioPipeline
