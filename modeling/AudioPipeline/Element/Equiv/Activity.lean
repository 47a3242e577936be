import AudioPipeline.Element.Equiv.Task
import AudioPipeline.Ringbuf.Equiv.Moves

/-!
# One activity of an element

The task of an element that nobody but the task itself touches, from the `RESUME` in its queue to
the result of the process callback that ends the activity (`EndsActivity`).

* Until then the task meets `liveSpec`: the element is not finished, its ring buffers keep their
  bytes, and none is marked done.
* From then on it meets `overSpec`: the task touches no ring buffer and makes no other call of the
  process callback, and the element is finished only if the result was `AEL_IO_DONE` or `AEL_IO_OK`.
-/

namespace AudioPipeline

open Prog

/-- No ring buffer has changed its bytes or was marked done. -/
structure NoneDone (rings rings' : ℕ → Ringbuf) : Prop where
  bytes : ∀ h, SameBytes (rings h) (rings' h)
  done : ∀ h, (rings' h).isDoneWrite = (rings h).isDoneWrite

namespace NoneDone

variable {rings rings₁ rings' : ℕ → Ringbuf}

theorem refl (rings : ℕ → Ringbuf) : NoneDone rings rings :=
  ⟨fun _ => SameBytes.refl _, fun _ => rfl⟩

theorem trans (h : NoneDone rings rings₁) (h' : NoneDone rings₁ rings') : NoneDone rings rings' :=
  ⟨fun k => (h.bytes k).trans (h'.bytes k), fun k => (h'.done k).trans (h.done k)⟩

theorem abort {m : Mem} (h : NoneDone rings m.rings) (hs : List ℕ) :
    NoneDone rings (m.onRings Ringbuf.abort hs).rings where
  bytes k := onRings_keeps (I := SameBytes (rings k)) (fun rb h => h.trans (SameBytes.abort rb)) hs
    (h.bytes k)
  done k := onRings_keeps (I := fun rb => rb.isDoneWrite = (rings k).isDoneWrite)
    (f := Ringbuf.abort) (fun _ h => h) hs (h.done k)

/-- `audio_element_abort_output_ringbuf` and `audio_element_abort_input_ringbuf`. -/
theorem aborted {m : Mem} (h : NoneDone rings m.rings) : NoneDone rings m.aborted.rings :=
  (h.abort _).abort _

end NoneDone

/-! ### Before the end -/

/-- A result of the process callback that ends the activity of the element. -/
def EndsActivity (processLen : ℤ) : Prop :=
  processLen = AEL_IO_DONE ∨ processLen = AEL_IO_OK ∨ ProcessFails processLen

/-- An element that runs if it could be opened, and none of the commands that it was sent is left;
or one that is still to be resumed. -/
def Resumable (el : Element) : Prop :=
  el.queue = [] ∧
      (el.isRunning = true → (el.state = .running ∨ el.state = .init) ∧ el.taskRun = true) ∨
    el.queue = [.resume] ∧ el.isRunning = false ∧ el.state = .init

/-- An element that does not run. -/
def Asleep (el : Element) : Prop :=
  (el.queue = [] ∨ el.queue = [.resume]) ∧ el.isRunning = false

/-- The task up to the end of the activity. -/
def liveSpec : TaskSpec where
  rely o m m' := m'.el = m.el ∧ ∀ v, o = some (.process, v) → ¬EndsActivity v
  seg m m' := SamePorts m m' ∧ NoneDone m.rings m'.rings
  here spot c m := m.el.state ≠ .finished ∧
    (c = some .process → spot = .proc ∧ m.el.state = .running ∧ m.el.queue = [])
  rest _ m := m.el.state ≠ .finished ∧ Resumable m.el
  idle m := m.el.state ≠ .finished ∧ Asleep m.el
  left m := m.el.state ≠ .finished ∧ Asleep m.el
  admits _ _ := True

namespace liveSpec

variable {m m₀ m' : Mem} {queue : List AelCmd} {o : Option (Callback × ℤ)} {c : Option Callback}

/-- A segment that writes neither the ports nor the ring buffers. -/
theorem seg_of (hseg : liveSpec.seg m₀ m) (hports : SamePorts m m') (hrings : m'.rings = m.rings) :
    liveSpec.seg m₀ m' := by
  refine ⟨hseg.1.trans hports, ?_⟩
  rw [hrings]
  exact hseg.2

theorem seg_refl (m : Mem) : liveSpec.seg m m := ⟨SamePorts.refl m, NoneDone.refl _⟩

/-- What holds at the scheduling points outside the process step. -/
theorem point_of {spot : Spot} (hc : c ≠ some .process) (hstate : m.el.state ≠ .finished)
    (hseg : liveSpec.seg m₀ m) : liveSpec.point spot c m₀ m :=
  ⟨⟨hstate, fun heq => absurd heq hc⟩, hseg⟩

theorem idle_stable (h : liveSpec.idle m) (hR : liveSpec.rely o m m') : liveSpec.idle m' := by
  show m'.el.state ≠ .finished ∧ Asleep m'.el
  rw [hR.1]
  exact h

theorem begin (h : liveSpec.idle m) :
    wp liveSpec.rely (liveSpec.point .begin) liveSpec.afterRest audioElementTaskBegin false m
      { m with el := { m.el with threadCreated := false } } := by
  have hcreated : liveSpec.idle { m with el := { m.el with threadCreated := false } }.created := h
  have hseg : ∀ {m m' : Mem}, SamePorts m m' → m'.rings = m.rings → liveSpec.seg m m' :=
    fun hports hrings => seg_of (seg_refl _) hports hrings
  -- the new state is `AEL_STATE_INIT`
  have hrest : ∀ el : Element, el.state = .init → Asleep el →
      el.state ≠ .finished ∧ Resumable el := by
    rintro el hst ⟨hempty | hresume, hoff⟩
    · exact ⟨by rw [hst]; decide, Or.inl ⟨hempty, fun hon => absurd hon (by rw [hoff]; decide)⟩⟩
    · exact ⟨by rw [hst]; decide, Or.inr ⟨hresume, hoff, hst⟩⟩
  refine wp_taskBegin (point_of nofun h.1 (hseg ⟨rfl, rfl, rfl, rfl⟩ rfl)) (fun s' hR _ => ?_)
    (fun s₁ s' v hR hR' => ?_) (fun s' hR _ => ?_)
  · exact point_of nofun nofun (hseg ⟨rfl, rfl, rfl, rfl⟩ rfl)
  · have hidle : liveSpec.idle s₁ := idle_stable hcreated hR
    have hel : s'.el = s₁.reset.el := hR'.1
    have hst : s'.el.state = .init := by rw [hel]; rfl
    have hasleep : Asleep s'.el := by
      rw [hel]
      exact hidle.2
    unfold Mem.allocated
    split_ifs
    · exact ⟨hrest _ hst hasleep, hseg ⟨rfl, rfl, rfl, rfl⟩ rfl⟩
    · exact ⟨hrest _ hst hasleep, hseg ⟨rfl, rfl, rfl, rfl⟩ rfl⟩
  · have hidle : liveSpec.idle s' := idle_stable hcreated hR
    exact ⟨hrest _ rfl hidle.2, hseg ⟨rfl, rfl, rfl, rfl⟩ rfl⟩

theorem ending (h : liveSpec.left m) :
    wp liveSpec.rely (liveSpec.point .ending) liveSpec.afterEnd audioElementTaskEnd false m m := by
  have hclosing : liveSpec.idle m.closing := h
  have hseg : ∀ {m m' : Mem}, SamePorts m m' → m'.rings = m.rings → liveSpec.seg m m' :=
    fun hports hrings => seg_of (seg_refl _) hports hrings
  have hended : ∀ (s : Mem) (st : AelState), liveSpec.idle s → st = .stopped ∨ st = s.el.state →
      liveSpec.point .ending none s (s.inState st).ended ∧ liveSpec.idle (s.inState st).ended := by
    intro s st hs hst
    have hne : st ≠ .finished := by
      rcases hst with rfl | rfl
      · decide
      · exact hs.1
    exact ⟨point_of nofun hne (hseg ⟨rfl, rfl, rfl, rfl⟩ rfl), hne, hs.2⟩
  refine wp_taskEnd (J := liveSpec.idle)
    ⟨fun _ _ => ?_, fun _ _ s' _ hR st hst => ?_, fun _ st hst => ?_⟩ (fun _ s' h hR => ?_)
    (fun _ s' h hR => ?_)
  · exact point_of nofun h.1 (hseg ⟨rfl, rfl, rfl, rfl⟩ rfl)
  · exact hended s' st (idle_stable hclosing hR) hst
  · exact hended m st h hst
  · have hidle : liveSpec.idle s' := idle_stable h hR
    exact ⟨point_of nofun hidle.1 (hseg ⟨rfl, rfl, rfl, rfl⟩ rfl), hidle⟩
  · have hidle : liveSpec.idle s' := idle_stable h hR
    exact ⟨hidle, hseg ⟨rfl, rfl, rfl, rfl⟩ rfl⟩

/-- What the `RESUME` handler keeps while it runs. -/
def Opening (s₀ s : Mem) : Prop :=
  s.el.state ≠ .finished ∧ s.el.queue = [] ∧ s.el.taskRun = true ∧ liveSpec.seg s₀ s

theorem Opening.others (h : Opening m₀ m) (hR : liveSpec.rely o m m') : Opening m' m' := by
  obtain ⟨hstate, hqueue, hrun, -⟩ := h
  rw [← hR.1] at hstate hqueue hrun
  exact ⟨hstate, hqueue, hrun, seg_refl m'⟩

theorem Opening.update (h : Opening m₀ m) (hstate : m'.el.state ≠ .finished)
    (hqueue : m'.el.queue = m.el.queue) (hrun : m'.el.taskRun = m.el.taskRun)
    (hports : SamePorts m m') (hrings : m'.rings = m.rings) : Opening m₀ m' :=
  ⟨hstate, hqueue.trans h.2.1, hrun.trans h.2.2.1, seg_of h.2.2.2 hports hrings⟩

theorem Opening.point (h : Opening m₀ m) (hc : c ≠ some .process) :
    liveSpec.point (.cmd .resume) c m₀ m := point_of hc h.1 h.2.2.2

theorem closing {Z : Mem → Mem → Prop} (h : Opening m₀ m)
    (hZ : ∀ s₀ s, Opening s₀ s → s.el.state = m.el.state → Z s₀ s) :
    Closing liveSpec.rely (liveSpec.point (.cmd .resume)) Z m₀ m := by
  have hclosing : Opening m₀ m.closing := h.update h.1 rfl rfl ⟨rfl, rfl, rfl, rfl⟩ rfl
  refine ⟨fun _ _ => hclosing.point nofun, fun _ _ s' v hR => ?_, fun _ => ?_⟩
  · have hs' : Opening s' s' := hclosing.others hR
    have hstate : s'.el.state = m.el.state := congrArg Element.state hR.1
    exact hZ s' s'.closed (hs'.update hs'.1 rfl rfl ⟨rfl, rfl, rfl, rfl⟩ rfl) hstate
  · exact hZ m₀ m.closed (h.update h.1 rfl rfl ⟨rfl, rfl, rfl, rfl⟩ rfl) rfl

/-- `audio_element_process_init` of an element that is being resumed. -/
theorem processInit (h : Opening m₀ m) (hinit : m.el.state = .init) :
    wp liveSpec.rely (liveSpec.point (.cmd .resume))
      (fun ret _ s₀ s => (ret = ESP_OK → s.el.state = .running ∨ s.el.state = .init) ∧ Opening s₀ s)
      audioElementProcessInit true m₀ m := by
  refine wp_processInit (h.point nofun) (fun s' hR _ => ?_) (fun s' hR _ => ?_)
    (fun s₁ s' v hR _ hR' => ?_)
  · have hs' : Opening s' s' := h.others hR
    have hstate : s'.el.state = .init := by
      rw [hR.1]
      exact hinit
    exact ⟨fun _ => Or.inr hstate, hs'.update hs'.1 rfl rfl ⟨rfl, rfl, rfl, rfl⟩ rfl⟩
  · have hs' : Opening s' s' := h.others hR
    have hopening : Opening s' s'.opening := hs'.update nofun rfl rfl ⟨rfl, rfl, rfl, rfl⟩ rfl
    exact hopening.point nofun
  · have hs₁ : Opening s₁ s₁ := h.others hR
    have hopening : Opening s₁ s₁.opening := hs₁.update nofun rfl rfl ⟨rfl, rfl, rfl, rfl⟩ rfl
    have hs' : Opening s' s' := hopening.others hR'
    have hstate : s'.el.state = .initializing := by
      rw [hR'.1]
      rfl
    have hopened : Opening s' (s'.opened v) := hs'.update hs'.1 rfl rfl ⟨rfl, rfl, rfl, rfl⟩ rfl
    refine wp_afterOpen (fun _ => ?_) (fun _ => ?_) (fun _ => ?_) (fun _ => ?_)
    · exact ⟨fun _ => Or.inl rfl, hopened.update nofun rfl rfl ⟨rfl, rfl, rfl, rfl⟩ rfl⟩
    · exact ⟨fun _ => Or.inl rfl, hopened.update nofun rfl rfl ⟨rfl, rfl, rfl, rfl⟩ rfl⟩
    · refine wp_onCmdStop (fun _ _ => closing hopened fun _ _ h _ => ?_) (fun _ hst => ?_)
        (fun hst _ => ?_)
      · exact ⟨nofun, h.update nofun rfl rfl ⟨rfl, rfl, rfl, rfl⟩ rfl⟩
      · exact absurd (hstate.symm.trans hst) (by decide)
      · rcases hst with hst | hst
        · exact absurd (hstate.symm.trans hst) (by decide)
        · exact absurd (hstate.symm.trans hst) (by decide)
    · have hfailing : Opening s' (s'.opened v).openFailing :=
        hopened.update nofun rfl rfl ⟨rfl, rfl, rfl, rfl⟩ rfl
      refine wp_onCmdError (fun hst => absurd hst nofun)
        (fun _ => closing hfailing fun _ _ h _ => ?_)
      exact ⟨nofun, h.update nofun rfl rfl ⟨rfl, rfl, rfl, rfl⟩ rfl⟩

theorem resume (h : Opening m₀ m) (hinit : m.el.state = .init) :
    wp liveSpec.rely (liveSpec.point (.cmd .resume))
      (fun ret _ s₀ s => (ret = ESP_OK ∨ ret = ESP_FAIL) ∧ Opening s₀ s ∧
        (s.el.isRunning = true → s.el.state = .running ∨ s.el.state = .init))
      audioElementOnCmdResume false m₀ m := by
  refine wp_onCmdResume (fun hrunning => ?_) fun _ rings hrings => ?_
  · exact absurd (hinit.symm.trans hrunning) (by decide)
  · -- the output ring buffers are not reset in `AEL_STATE_INIT`
    obtain rfl := hrings hinit
    have hresumed : Opening m₀ m.resumed := h.update h.1 rfl rfl ⟨rfl, rfl, rfl, rfl⟩ rfl
    refine wp_post _ ?_ (processInit hresumed hinit)
    rintro ret b s₀ s ⟨hok, h⟩
    refine wp_afterProcessInit (fun heq => ?_) (fun _ => ?_)
    · refine commit_of (J := fun s₀ s => Opening s₀ s ∧ (s.el.state = .running ∨ s.el.state = .init))
        ⟨h, hok heq⟩ (fun _ _ h => h.1.point nofun) (fun _ _ s' h hR => ⟨h.1.others hR, ?_⟩) ?_
      · rw [hR.1]
        exact h.2
      · rintro s₀ s ⟨h, hstate⟩
        exact ⟨Or.inl rfl, h.update h.1 rfl rfl ⟨rfl, rfl, rfl, rfl⟩ rfl, fun _ => hstate⟩
    · refine commit_of (J := Opening) h (fun _ _ h => h.point nofun)
        (fun _ _ _ h hR => h.others hR) ?_
      rintro s₀ s ⟨hstate, hqueue, hrun, hports, hrings⟩
      have hgivenUp : liveSpec.seg s₀ s.givenUp :=
        ⟨hports.trans ⟨rfl, rfl, rfl, rfl⟩, hrings.aborted⟩
      exact ⟨Or.inr rfl, ⟨hstate, hqueue, hrun, hgivenUp⟩, nofun⟩

/-- The loop goes on after the `RESUME`. -/
theorem after_cmd {ret : ℤ} {b : Bool} (hret : ret = ESP_OK ∨ ret = ESP_FAIL) (h : Opening m₀ m)
    (hon : m.el.isRunning = true → m.el.state = .running ∨ m.el.state = .init) :
    liveSpec.afterCmd .resume ret b m₀ m := by
  obtain ⟨hstate, hqueue, hrun, hseg⟩ := h
  refine TaskSpec.afterCmd_of_ne ?_ ⟨hstate, Or.inl ⟨hqueue, fun h => ⟨hon h, hrun⟩⟩⟩
    (seg_of hseg ⟨rfl, rfl, rfl, rfl⟩ rfl)
  rcases hret with rfl | rfl <;> decide

theorem cmd (c : AelCmd) (h : liveSpec.rest none m) (hrun : m.el.taskRun = true)
    (hq : m.el.queue = c :: queue) :
    wp liveSpec.rely (liveSpec.point (.cmd c)) (liveSpec.afterCmd c) (audioElementTaskCmd c)
      false m (Task.receive m c queue) := by
  obtain ⟨hempty, -⟩ | ⟨hresume, hoff, hinit⟩ := h.2
  · rw [hempty] at hq
    exact nomatch hq
  · rw [hresume] at hq
    obtain ⟨rfl, rfl⟩ := List.cons.inj hq
    have hreceive : Opening m (Task.receive m .resume []) :=
      ⟨h.1, rfl, hrun, seg_of (seg_refl m) ⟨rfl, rfl, rfl, rfl⟩ rfl⟩
    refine wp_taskCmd (wp_post _ ?_ (resume hreceive hinit))
    rintro ret b s₀ s ⟨hret, h, hon⟩
    refine ⟨fun _ => after_cmd hret h hon, fun _ => ?_⟩
    refine commit_of (J := fun s₀ s => Opening s₀ s ∧
        (s.el.isRunning = true → s.el.state = .running ∨ s.el.state = .init))
      ⟨h, hon⟩ (fun _ _ h => h.1.point nofun) (fun _ _ s' h hR => ⟨h.1.others hR, ?_⟩) ?_
    · rw [hR.1]
      exact h.2
    · rintro s₀ s ⟨h, hon⟩
      have hbit : Opening s₀ (s.withBit .stopped true) :=
        h.update h.1 rfl rfl ⟨rfl, rfl, rfl, rfl⟩ rfl
      exact after_cmd hret hbit hon

/-- A process step that goes on. -/
theorem processed {processLen : ℤ} (h : ¬EndsActivity processLen) {s₀ s : Mem}
    (hs : liveSpec.rest none s) (hseg : liveSpec.seg s₀ s) :
    wp liveSpec.rely (liveSpec.point .proc) liveSpec.afterRest (audioElementProcessed processLen)
      false s₀ s := by
  have hends : ¬ProcessEnds processLen := fun heq => h (heq.imp_right Or.inl)
  have hfails : ¬ProcessFails processLen := fun heq => h (Or.inr (Or.inr heq))
  refine wp_processed (fun _ _ => ⟨hs, hseg⟩) (fun heq => ?_) (fun heq => ?_) (fun heq => ?_)
    (fun heq => ?_)
  · exact absurd (Or.inl heq) hfails
  · exact absurd heq hends
  · exact absurd heq hends
  · exact absurd (Or.inr heq) hfails

theorem proc {last : Option (AelCmd × ℤ)} (h : liveSpec.rest last m) :
    wp liveSpec.rely (liveSpec.point .proc) liveSpec.afterRest audioElementProcessRunning
      false m m := by
  have hrest : liveSpec.rest none m := h
  rw [wp_processRunning, wp_callProcess]
  refine ⟨fun _ => ⟨hrest, ⟨rfl, rfl, rfl, rfl⟩, NoneDone.refl _⟩, fun hon => ?_⟩
  obtain ⟨hval, hoff⟩ := not_or.mp hon
  have hstate : m.el.state = .running ∧ m.el.queue = [] := by
    obtain ⟨hempty, hrunning⟩ | ⟨-, hasleep, -⟩ := h.2
    · obtain ⟨hstate | hstate, -⟩ := hrunning (by simpa using hoff)
      · exact ⟨hstate, hempty⟩
      · rw [hstate] at hval
        exact absurd (by decide) hval
    · exact absurd hasleep hoff
  refine ⟨⟨⟨h.1, fun _ => ⟨rfl, hstate⟩⟩, ⟨rfl, rfl, rfl, rfl⟩, NoneDone.refl _⟩, fun m' v hR => ?_⟩
  have hel : m'.el = m.el := hR.1
  refine processed (hR.2 v rfl) ?_ ⟨⟨rfl, rfl, rfl, rfl⟩, NoneDone.refl _⟩
  show m'.el.state ≠ .finished ∧ Resumable m'.el
  rw [hel]
  exact hrest

theorem valid : liveSpec.Valid where
  rely_trans h h' := ⟨h'.1.trans h.1, h'.2⟩
  seg_refl := seg_refl
  here_stable := by
    rintro spot c m m' h ⟨hel, -⟩
    show m'.el.state ≠ .finished ∧
      (c = some .process → spot = .proc ∧ m'.el.state = .running ∧ m'.el.queue = [])
    rw [hel]
    exact h
  rest_stable := by
    rintro last m m' h ⟨hel, -⟩
    show m'.el.state ≠ .finished ∧ Resumable m'.el
    rw [hel]
    exact h
  idle_stable h hR := idle_stable h hR
  left_stable h hR := idle_stable h hR
  begin := begin
  cmd h hrun hq _ := cmd _ h hrun hq
  proc := proc
  leave := by
    rintro m ⟨hstate, ⟨hempty, hrunning⟩ | ⟨hresume, hon, -⟩⟩ hrun
    · refine ⟨hstate, Or.inl hempty, ?_⟩
      by_contra hon
      rw [(hrunning (by simpa using hon)).2] at hrun
      exact nomatch hrun
    · exact ⟨hstate, Or.inr hresume, hon⟩
  ending := ending

end liveSpec

/-! ### After the end -/

/-- The element is finished only for the reason `E`, and has no commands to handle. -/
def FinishedFor (E : Prop) (el : Element) : Prop := el.queue = [] ∧ (el.state = .finished → E)

/-- The task after the end of the activity. -/
def overSpec (E : Prop) : TaskSpec where
  rely _ m m' := m'.el = m.el
  seg m m' := SamePorts m m' ∧ m'.rings = m.rings
  here _ c m := c ≠ some .process ∧ FinishedFor E m.el
  rest _ m := FinishedFor E m.el ∧ m.el.isRunning = false
  idle m := FinishedFor E m.el ∧ m.el.isRunning = false
  left m := FinishedFor E m.el ∧ m.el.isRunning = false
  admits _ _ := True

namespace overSpec

variable {E : Prop} {m s₀ s : Mem}

variable {m' : Mem} {o : Option (Callback × ℤ)} {c : Option Callback} {spot : Spot}

theorem seg_of (hseg : (overSpec E).seg s₀ s) (hports : SamePorts s m)
    (hrings : m.rings = s.rings) :
    (overSpec E).seg s₀ m := ⟨hseg.1.trans hports, hrings.trans hseg.2⟩

theorem seg_refl (m : Mem) : (overSpec E).seg m m := ⟨SamePorts.refl m, rfl⟩

theorem idle_stable (h : (overSpec E).idle m) (hR : (overSpec E).rely o m m') :
    (overSpec E).idle m' := by
  show FinishedFor E m'.el ∧ m'.el.isRunning = false
  rw [show m'.el = m.el from hR]
  exact h

theorem begin (h : (overSpec E).idle m) :
    wp (overSpec E).rely ((overSpec E).point .begin) (overSpec E).afterRest audioElementTaskBegin
      false m { m with el := { m.el with threadCreated := false } } := by
  have hcreated : (overSpec E).idle { m with el := { m.el with threadCreated := false } }.created :=
    h
  have hseg : ∀ {m m' : Mem}, SamePorts m m' → m'.rings = m.rings → (overSpec E).seg m m' :=
    fun hports hrings => seg_of (seg_refl _) hports hrings
  refine wp_taskBegin ⟨⟨nofun, h.1⟩, hseg ⟨rfl, rfl, rfl, rfl⟩ rfl⟩ (fun s' hR _ => ?_)
    (fun s₁ s' v hR hR' => ?_) (fun s' hR _ => ?_)
  · have hidle : (overSpec E).idle s' := idle_stable hcreated hR
    exact ⟨⟨nofun, hidle.1.1, nofun⟩, hseg ⟨rfl, rfl, rfl, rfl⟩ rfl⟩
  · have hreset : (overSpec E).idle s₁.reset := by
      have hidle : (overSpec E).idle s₁ := idle_stable hcreated hR
      exact ⟨⟨hidle.1.1, nofun⟩, hidle.2⟩
    have hidle : (overSpec E).idle s' := idle_stable hreset hR'
    unfold Mem.allocated
    split_ifs
    · exact ⟨hidle, hseg ⟨rfl, rfl, rfl, rfl⟩ rfl⟩
    · exact ⟨hidle, hseg ⟨rfl, rfl, rfl, rfl⟩ rfl⟩
  · have hidle : (overSpec E).idle s' := idle_stable hcreated hR
    exact ⟨⟨⟨hidle.1.1, nofun⟩, hidle.2⟩, hseg ⟨rfl, rfl, rfl, rfl⟩ rfl⟩

theorem ending (h : (overSpec E).left m) :
    wp (overSpec E).rely ((overSpec E).point .ending) (overSpec E).afterEnd audioElementTaskEnd
      false m m := by
  have hclosing : (overSpec E).idle m.closing := h
  have hseg : ∀ {m m' : Mem}, SamePorts m m' → m'.rings = m.rings → (overSpec E).seg m m' :=
    fun hports hrings => seg_of (seg_refl _) hports hrings
  have hended : ∀ (s : Mem) (st : AelState), (overSpec E).idle s → st = .stopped ∨ st = s.el.state →
      (overSpec E).point .ending none s (s.inState st).ended ∧
        (overSpec E).idle (s.inState st).ended := by
    intro s st hs hst
    have hfin : FinishedFor E (s.inState st).ended.el := by
      refine ⟨hs.1.1, fun hfinished => ?_⟩
      rcases hst with rfl | rfl
      · exact nomatch hfinished
      · exact hs.1.2 hfinished
    exact ⟨⟨⟨nofun, hfin⟩, hseg ⟨rfl, rfl, rfl, rfl⟩ rfl⟩, hfin, hs.2⟩
  refine wp_taskEnd (J := (overSpec E).idle)
    ⟨fun _ _ => ?_, fun _ _ s' _ hR st hst => ?_, fun _ st hst => ?_⟩ (fun _ s' h hR => ?_)
    (fun _ s' h hR => ?_)
  · exact ⟨⟨nofun, h.1⟩, hseg ⟨rfl, rfl, rfl, rfl⟩ rfl⟩
  · exact hended s' st (idle_stable hclosing hR) hst
  · exact hended m st h hst
  · have hidle : (overSpec E).idle s' := idle_stable h hR
    exact ⟨⟨⟨nofun, hidle.1⟩, hseg ⟨rfl, rfl, rfl, rfl⟩ rfl⟩, hidle⟩
  · have hidle : (overSpec E).idle s' := idle_stable h hR
    exact ⟨hidle, hseg ⟨rfl, rfl, rfl, rfl⟩ rfl⟩

theorem proc {last : Option (AelCmd × ℤ)} (h : (overSpec E).rest last m) :
    wp (overSpec E).rely ((overSpec E).point .proc) (overSpec E).afterRest
      audioElementProcessRunning false m m := by
  refine wp_running (fun _ => ⟨h, seg_refl m⟩) (fun _ hon => ?_) (fun _ hon => ?_)
  · exact absurd hon (by rw [h.2]; decide)
  · exact absurd hon (by rw [h.2]; decide)

/-- What holds when the activity ends: the element closes. -/
theorem closing {Z : Mem → Mem → Prop} (h : FinishedFor E s.el) (hseg : (overSpec E).seg s₀ s)
    (hZ : ∀ s₀ s, FinishedFor E s.el → (overSpec E).seg s₀ s → Z s₀ s) :
    Closing (overSpec E).rely ((overSpec E).point .proc) Z s₀ s where
  call _ _ := ⟨⟨nofun, h⟩, seg_of hseg ⟨rfl, rfl, rfl, rfl⟩ rfl⟩
  back _ _ s' v hR := by
    have hfin : FinishedFor E s'.el := by
      rw [show s'.el = s.el from hR]
      exact h
    exact hZ s' s'.closed hfin (seg_of (seg_refl s') ⟨rfl, rfl, rfl, rfl⟩ rfl)
  skip _ := hZ s₀ s.closed h (seg_of hseg ⟨rfl, rfl, rfl, rfl⟩ rfl)

/-- The end of a handler that halts the element. -/
theorem after_rest {ret : ℤ} {b : Bool} (hqueue : m.el.queue = [])
    (hfin : m.el.state = .finished → E)
    (hoff : m.el.isRunning = false) (hseg : (overSpec E).seg s₀ m) :
    (overSpec E).afterRest ret b s₀ m := ⟨⟨⟨hqueue, hfin⟩, hoff⟩, hseg⟩

/-- A process step that fails. -/
theorem failed {processLen : ℤ} (hfails : ProcessFails processLen) (hstate : s.el.state = .running)
    (hqueue : s.el.queue = []) (hseg : (overSpec E).seg s₀ s) :
    wp (overSpec E).rely ((overSpec E).point .proc) (overSpec E).afterRest
      (audioElementProcessed processLen) false s₀ s := by
  have hends : ¬ProcessEnds processLen := by
    rcases hfails with rfl | rfl | rfl <;> decide
  have hnot : ∀ {st : AelState}, st ≠ .running → s.el.state ≠ st :=
    fun hne heq => hne (heq.symm.trans hstate)
  have hfin : FinishedFor E s.el := ⟨hqueue, fun heq => absurd heq (hnot nofun)⟩
  refine wp_processed (fun _ hno => absurd hfails hno) (fun _ => ?_) (fun heq => absurd heq hends)
    (fun heq => absurd heq hends) (fun _ => ?_)
  · refine wp_onCmdStop (fun _ _ => closing hfin hseg fun _ _ h hseg => ?_) (fun _ hst => ?_)
      (fun hst _ => ?_)
    · exact after_rest h.1 nofun rfl (seg_of hseg ⟨rfl, rfl, rfl, rfl⟩ rfl)
    · exact absurd hst (hnot nofun)
    · exact absurd hst (not_or.mpr ⟨hnot nofun, hnot nofun⟩)
  · have hfailing : (overSpec E).seg s₀ s.processFailing := seg_of hseg ⟨rfl, rfl, rfl, rfl⟩ rfl
    refine wp_onCmdError (fun hst => absurd hst (hnot nofun)) (fun _ => ?_)
    refine closing (s := s.processFailing) hfin hfailing fun _ _ h hseg => ?_
    exact after_rest h.1 nofun rfl (seg_of hseg ⟨rfl, rfl, rfl, rfl⟩ rfl)

/-- `audio_element_on_cmd_finish` of an element that runs. -/
theorem finish (hstate : s.el.state = .running) (hqueue : s.el.queue = [])
    (hseg : (overSpec True).seg s₀ s) :
    wp (overSpec True).rely ((overSpec True).point .proc) (fun _ => (overSpec True).afterRest ESP_OK)
      audioElementOnCmdFinish false s₀ s := by
  refine wp_onCmdFinish (fun hst => ?_) (fun _ _ => ?_)
  · rcases hst with hst | hst
    · exact absurd (hstate.symm.trans hst) (by decide)
    · exact absurd (hstate.symm.trans hst) (by decide)
  · refine closing ⟨hqueue, fun _ => trivial⟩ hseg fun s₀ s h hseg => ?_
    exact after_rest h.1 (fun _ => trivial) rfl (seg_of hseg ⟨rfl, rfl, rfl, rfl⟩ rfl)

/-- A process step that comes to the end of the stream marks the output. -/
theorem ended {processLen : ℤ} (hends : processLen = AEL_IO_DONE ∨ processLen = AEL_IO_OK)
    (hstate : s.el.state = .running) (hqueue : s.el.queue = [])
    (hseg : (overSpec True).seg s₀ (s.onRings Ringbuf.doneWrite s.el.outputs)) :
    wp (overSpec True).rely ((overSpec True).point .proc) (overSpec True).afterRest
      (audioElementProcessed processLen) false s₀ s := by
  have hno : ¬ProcessFails processLen := by
    rcases hends with rfl | rfl <;> decide
  have hinit : s.el.state ≠ .init := by
    rw [hstate]
    decide
  refine wp_processed (fun hnot _ => absurd hends hnot) (fun habort => ?_)
    (fun _ heq => absurd heq hinit) (fun _ _ rings hrings => ?_) (fun hfail => ?_)
  · exact absurd (Or.inl habort) hno
  · subst hrings
    rw [← onRings_eq]
    refine finish ?_ ?_ hseg
    · rw [onRings_el]
      exact hstate
    · rw [onRings_el]
      exact hqueue
  · exact absurd (Or.inr hfail) hno

theorem valid : (overSpec E).Valid where
  rely_trans h h' := h'.trans h
  seg_refl := seg_refl
  here_stable := by
    rintro spot c m m' h hel
    show c ≠ some .process ∧ FinishedFor E m'.el
    rw [show m'.el = m.el from hel]
    exact h
  rest_stable := by
    rintro last m m' h hel
    show FinishedFor E m'.el ∧ m'.el.isRunning = false
    rw [show m'.el = m.el from hel]
    exact h
  idle_stable h hR := idle_stable h hR
  left_stable h hR := idle_stable h hR
  begin := begin
  cmd := by
    intro m c queue h _ hq
    rw [h.1.1] at hq
    exact nomatch hq
  proc := proc
  leave h _ := h
  ending := ending

end overSpec

/-- What is known of an element after its end, wherever its task stands. -/
theorem TaskOk.finishedFor {E : Prop} {t : Task} {m : Mem} (h : TaskOk (overSpec E) t m) :
    FinishedFor E m.el := by
  cases t with
  | absent | recv | proc | leave => exact h.1
  | begin | inCmd | inProc | ending => exact h.1.2

/-! ### The task -/

/-- The task waits for the process callback. -/
def atProcess : Point Mem Callback ℤ :=
  .call .process fun processLen => do
    note fun m => { m.hist with failed := m.hist.failed || ProcessFails processLen }
    audioElementProcessed processLen

/-- What is known of a task up to the end of the activity. -/
structure LiveTask (t : Task) (m : Mem) : Prop where
  ok : TaskOk liveSpec t m
  inProc : ∀ p, t = .inProc p → p = atProcess

/-- The process callback is called. -/
theorem processRunning_resume {m : Mem}
    (h : ¬(m.el.state.val < AelState.running.val ∨ m.el.isRunning = false)) :
    (audioElementProcessRunning.resume false m).2 = atProcess := by
  unfold audioElementProcessRunning
  show (Prog.resume (if m.el.state.val < AelState.running.val ∨ m.el.isRunning = false then _ else _)
    false m).2 = _
  rw [if_neg h]
  rfl

theorem processRunning_stopped {m : Mem}
    (h : m.el.state.val < AelState.running.val ∨ m.el.isRunning = false) :
    (audioElementProcessRunning.resume false m).2 = .done ESP_ERR_INVALID_STATE := by
  unfold audioElementProcessRunning
  show (Prog.resume (if m.el.state.val < AelState.running.val ∨ m.el.isRunning = false then _ else _)
    false m).2 = _
  rw [if_pos h]
  rfl

/-- The process callback has returned. -/
theorem step_atProcess (m : Mem) (processLen : ℤ) :
    (Task.inProc atProcess).step m processLen =
      some (((audioElementProcessed processLen).resume false (m.answered processLen)).1,
        .ofProc ((audioElementProcessed processLen).resume false (m.answered processLen)).2) := rfl

/-- A result that ends nothing. -/
theorem processed_resume {processLen : ℤ} (h : ¬EndsActivity processLen) (m : Mem) :
    (audioElementProcessed processLen).resume false m = (m, .done ESP_OK) := by
  unfold EndsActivity ProcessFails at h
  simp only [not_or] at h
  unfold audioElementProcessed
  split_ifs with hpos habort hdone hfails
  · rfl
  · exact absurd habort h.2.2.1
  · exact absurd hdone (not_or.mpr ⟨h.1, h.2.1⟩)
  · exact absurd hfails (not_or.mpr h.2.2.2)
  · rfl

/-- Only the process step leads into the process step. -/
theorem Task.step_inProc {t : Task} {m m' : Mem} {v : ℤ} {p : Point Mem Callback ℤ}
    (hs : t.step m v = some (m', .inProc p)) :
    (∃ last, t = .proc last) ∨ ∃ p₀, t = .inProc p₀ := by
  cases t with
  | proc last => exact Or.inl ⟨last, rfl⟩
  | inProc p₀ => exact Or.inr ⟨p₀, rfl⟩
  | absent =>
    simp only [Task.step] at hs
    split_ifs at hs
    have ht := (Prod.mk.inj (Option.some.inj hs)).2
    unfold Task.ofBegin at ht
    split at ht <;> cases ht
  | begin p₀ =>
    obtain ⟨r, -, hr⟩ := Option.map_eq_some_iff.mp hs
    have ht := (Prod.mk.inj hr).2
    unfold Task.ofBegin at ht
    split at ht <;> cases ht
  | recv =>
    simp only [Task.step] at hs
    split_ifs at hs
    · split at hs
      · cases (Prod.mk.inj (Option.some.inj hs)).2
      · have ht := congrArg Prod.snd (Option.some.inj hs)
        unfold Task.ofCmd at ht
        split at ht
        · dsimp only at ht
          split_ifs at ht
        · cases ht
    · cases (Prod.mk.inj (Option.some.inj hs)).2
  | inCmd c p₀ =>
    obtain ⟨r, -, hr⟩ := Option.map_eq_some_iff.mp hs
    have ht := congrArg Prod.snd hr
    unfold Task.ofCmd at ht
    split at ht
    · dsimp only at ht
      split_ifs at ht
    · cases ht
  | leave =>
    have ht := (Prod.mk.inj (Option.some.inj hs)).2
    unfold Task.ofEnd at ht
    split at ht <;> cases ht
  | ending p₀ =>
    obtain ⟨r, -, hr⟩ := Option.map_eq_some_iff.mp hs
    have ht := (Prod.mk.inj hr).2
    unfold Task.ofEnd at ht
    split at ht <;> cases ht

namespace LiveTask

variable {t t' : Task} {m m' : Mem} {v : ℤ}

theorem not_finished (h : LiveTask t m) : m.el.state ≠ .finished := by
  have hok := h.ok
  cases t with
  | absent | leave | recv | proc => exact hok.1
  | begin | inCmd | inProc | ending => exact hok.1.1

/-- The others change no more than the rings. -/
theorem others (h : LiveTask t m) (rings : ℕ → Ringbuf) :
    LiveTask t { m with rings := rings } :=
  ⟨h.ok.rely liveSpec.valid ⟨rfl, nofun⟩, h.inProc⟩

/-- Only in the process step is the process callback called. -/
theorem answer_process (h : LiveTask t m) {v' : ℤ} (hv : t.answer v = some (.process, v')) :
    t = .inProc atProcess ∧ v' = v := by
  have hpoint : ∀ {α : Type} (spot : Spot) {p : Point Mem Callback α}, spot ≠ .proc →
      liveSpec.here spot p.callback m → p.answer v ≠ some (.process, v') := by
    intro α spot p hspot hhere hans
    cases p with
    | call c k =>
      obtain ⟨rfl, -⟩ := Prod.mk.inj (Option.some.inj hans)
      exact hspot (hhere.2 rfl).1
    | done | cut => exact nomatch hans
  have hok := h.ok
  cases t with
  | begin p => exact absurd hv (hpoint .begin nofun hok.1)
  | inCmd c p => exact absurd hv (hpoint (.cmd c) nofun hok.1)
  | ending p => exact absurd hv (hpoint .ending nofun hok.1)
  | inProc p =>
    obtain rfl := h.inProc p rfl
    exact ⟨rfl, (Prod.mk.inj (Option.some.inj hv)).2.symm⟩
  | absent | recv | proc | leave => exact nomatch hv

/-- **A step before the end.** -/
theorem step (h : LiveTask t m) (hv : t = .inProc atProcess → ¬EndsActivity v)
    (hs : t.step m v = some (m', t')) : LiveTask t' m' ∧ liveSpec.seg m m' := by
  have hans : liveSpec.rely (t.answer v) m m := by
    refine ⟨rfl, fun v' hv' => ?_⟩
    obtain ⟨ht, rfl⟩ := h.answer_process hv'
    exact hv ht
  obtain ⟨hok, hseg⟩ := h.ok.step liveSpec.valid hans (fun _ _ _ _ _ => trivial) hs
  refine ⟨⟨hok, ?_⟩, hseg⟩
  rintro p rfl
  obtain ⟨last, rfl⟩ | ⟨p₀, rfl⟩ := Task.step_inProc hs
  · have ht := (Prod.mk.inj (Option.some.inj hs)).2
    by_cases hrun : m.el.state.val < AelState.running.val ∨ m.el.isRunning = false
    · rw [processRunning_stopped hrun] at ht
      exact nomatch ht
    · rw [processRunning_resume hrun] at ht
      exact (Task.inProc.inj ht).symm
  · obtain rfl := h.inProc p₀ rfl
    rw [step_atProcess, processed_resume (hv rfl)] at hs
    exact nomatch (Prod.mk.inj (Option.some.inj hs)).2

/-- What the process callback finds. -/
theorem processing (h : LiveTask (.inProc atProcess) m) :
    m.el.state = .running ∧ m.el.queue = [] := (h.ok.1.2 rfl).2

/-- **The step that ends the activity** after a failure. -/
theorem fails (h : LiveTask (.inProc atProcess) m) (hv : ProcessFails v)
    (hs : (Task.inProc atProcess).step m v = some (m', t')) :
    TaskOk (overSpec False) t' m' ∧ (overSpec False).seg m m' := by
  obtain ⟨hstate, hqueue⟩ := h.processing
  rw [step_atProcess] at hs
  obtain ⟨rfl, rfl⟩ := Prod.mk.inj (Option.some.inj hs)
  refine TaskOk.ofProc (Point.ends_resume _ (overSpec.failed hv hstate hqueue ?_))
  exact ⟨⟨rfl, rfl, rfl, rfl⟩, rfl⟩

/-- **The step that ends the activity** at the end of the stream. -/
theorem finishes (h : LiveTask (.inProc atProcess) m) (hv : v = AEL_IO_DONE ∨ v = AEL_IO_OK)
    (hs : (Task.inProc atProcess).step m v = some (m', t')) :
    TaskOk (overSpec True) t' m' ∧
      (overSpec True).seg ((m.answered v).onRings Ringbuf.doneWrite m.el.outputs) m' := by
  obtain ⟨hstate, hqueue⟩ := h.processing
  rw [step_atProcess] at hs
  obtain ⟨rfl, rfl⟩ := Prod.mk.inj (Option.some.inj hs)
  refine TaskOk.ofProc (Point.ends_resume _ (overSpec.ended hv hstate hqueue ?_))
  exact ⟨⟨rfl, rfl, rfl, rfl⟩, rfl⟩

end LiveTask

end AudioPipeline
