import AudioPipeline.Element.Equiv.Task

/-!
# From the `RESUME` handler to the first call of `process`

The `RESUME` handler resets the output ring buffers of an element unless it finds the element in
`AEL_STATE_INIT` or `AEL_STATE_PAUSED`.  From there to the call of `process` nothing that the task
does makes them dirty again, unless `open` fails.  `cleanSpec` says so, for an element whose output
ring buffers are clean where the handler does not reset them.
-/

namespace AudioPipeline

open Prog

/-- The output ring buffers of the element are clean. -/
def OutputsClean (m : Mem) : Prop := ∀ h ∈ m.el.outputs, (m.rings h).Clean

instance (m : Mem) : Decidable (OutputsClean m) := inferInstanceAs (Decidable (∀ h ∈ _, _))

/-- An element on its way to the first call of `process` has clean outputs; so far no element has
made that call with others. -/
structure Ready (m : Mem) : Prop where
  clean : m.hist.starting = true → OutputsClean m
  started : m.hist.startedDirty = false

/-- What the others do to an element.  When its `open` fails, or its process callback ends after the
state has been reset, this is known before the task goes on. -/
structure Alongside (o : Option (Callback × ℤ)) (m m' : Mem) : Prop where
  ready : Ready m → Ready m'
  starting : m'.hist.starting = true → m.hist.starting = true ∨
    ∃ v, o = some (.process, v) ∧ ProcessEnds v ∧ m'.el.state = .init
  failed : m.hist.openFailed = true → m'.hist.openFailed = true
  opens : ∀ v, o = some (.open, v) → OpenFails v → m'.hist.openFailed = true

/-- What a segment of the task does to the rest of the pipeline. -/
structure KeepsClean (m m' : Mem) : Prop where
  ports : SamePorts m m'
  restarted : m'.hist.restarted = m.hist.restarted
  starting : m'.hist.starting = true → m.hist.starting = true ∨ m.hist.restarted = true
  clean : ∀ h, (m.rings h).Clean → (m'.rings h).Clean ∨ h ∈ m.el.outputs ∨
    m.hist.openFailed = true ∧ h ∈ m.el.inputs

/-- The task of an element that is resumed without a reset only with clean outputs. -/
def cleanSpec : TaskSpec where
  rely := Alongside
  seg := KeepsClean
  here _ _ := Ready
  rest _ := Ready
  idle := Ready
  left := Ready
  admits cmd m := cmd = .resume → m.hist.restarted = true →
    m.el.state = .init ∨ m.el.state = .paused → OutputsClean m

/-- An update that leaves the ring buffers alone, and what the history says of them. -/
@[mk_iff]
structure Harmless (m m' : Mem) : Prop where
  ports : SamePorts m m'
  rings : m'.rings = m.rings
  restarted : m'.hist.restarted = m.hist.restarted
  starting : m'.hist.starting = m.hist.starting
  startedDirty : m'.hist.startedDirty = m.hist.startedDirty
  openFailed : m'.hist.openFailed = m.hist.openFailed

section

variable {m m' m₁ : Mem} {o : Option (Callback × ℤ)}

theorem KeepsClean.refl (m : Mem) : KeepsClean m m :=
  ⟨SamePorts.refl m, rfl, Or.inl, fun _ => Or.inl⟩

theorem Harmless.ready (h : Harmless m m') (hm : Ready m) : Ready m' := by
  refine ⟨fun hs k hk => ?_, h.startedDirty.trans hm.started⟩
  rw [h.starting] at hs
  rw [h.ports.outputs] at hk
  rw [h.rings]
  exact hm.clean hs k hk

theorem Harmless.keepsClean (h : KeepsClean m m₁) (h' : Harmless m₁ m') : KeepsClean m m' where
  ports := h.ports.trans h'.ports
  restarted := h'.restarted.trans h.restarted
  starting hs := by
    rw [h'.starting] at hs
    exact h.starting hs
  clean k hk := by
    rw [h'.rings]
    exact h.clean k hk

/-- An element that does not start stays so. -/
theorem Alongside.idle (h : Alongside o m m') (hm : m.hist.starting = false)
    (ho : ∀ v, o ≠ some (.process, v)) : m'.hist.starting = false := by
  by_contra hs
  rcases h.starting (by simpa using hs) with hs | ⟨v, hv, -⟩
  · rw [hm] at hs
    cases hs
  · exact ho v hv

theorem Alongside.trans (h : Alongside none m m₁) (h' : Alongside o m₁ m') : Alongside o m m' where
  ready hm := h'.ready (h.ready hm)
  starting hs := by
    rcases h'.starting hs with hs | hv
    · rcases h.starting hs with hs | ⟨v, hv, -⟩
      · exact Or.inl hs
      · cases hv
    · exact Or.inr hv
  failed hm := h'.failed (h.failed hm)
  opens := h'.opens

end

section Does

attribute [local simp] does_ite harmless_iff samePorts_iff element setEl note callClose
  audioElementForceSetState audioElementReportStatus audioEventIfaceSetCmdWaitingTimeout
  xEventGroupSetBits xEventGroupClearBits audioElementProcessDeinit

/-- A command other than `RESUME`. -/
theorem harmless_taskCmd {cmd : AelCmd} (h : cmd ≠ .resume) :
    (audioElementTaskCmd cmd).Does Harmless fun _ => True := by
  cases cmd with
  | finish => simp [audioElementTaskCmd, audioElementOnCmd, audioElementOnCmdFinish]
  | stop => simp [audioElementTaskCmd, audioElementOnCmd, audioElementOnCmdStop]
  | pause => simp [audioElementTaskCmd, audioElementOnCmd]
  | resume => exact absurd rfl h
  | destroy => simp [audioElementTaskCmd, audioElementOnCmd]
  | other => simp [audioElementTaskCmd, audioElementOnCmd]

/-- The end of a command. -/
theorem harmless_taskCmdEnd (ret : ℤ) :
    (do
      if ret ≠ ESP_OK then
        xEventGroupSetBits .stopped
      return ret : ElProg ℤ).Does Harmless fun _ => True := by
  simp

theorem harmless_onCmdStop : audioElementOnCmdStop.Does Harmless fun _ => True := by
  simp [audioElementOnCmdStop]

theorem harmless_onCmdError : audioElementOnCmdError.Does Harmless fun _ => True := by
  simp [audioElementOnCmdError]

theorem harmless_onCmdFinish : audioElementOnCmdFinish.Does Harmless fun _ => True := by
  simp [audioElementOnCmdFinish]

theorem harmless_taskBegin : audioElementTaskBegin.Does Harmless fun _ => True := by
  simp [audioElementTaskBegin]

theorem harmless_taskEnd : audioElementTaskEnd.Does Harmless fun _ => True := by
  simp [audioElementTaskEnd]

theorem harmless_afterOpen (ret : ℤ) :
    (afterOpen ret).Does Harmless fun r => r = ESP_OK ∨ OpenFails ret := by
  simp [afterOpen, audioElementOnCmdStop, audioElementOnCmdError, OpenFails]
  intro hok hdone
  simp [hok, hdone]

end Does

/-! ### Rings -/

theorem samePorts_onRings (f : Ringbuf → Ringbuf) (hs : List ℕ) (m : Mem) :
    SamePorts m (m.onRings f hs) := by
  rw [samePorts_iff, onRings_el]
  exact ⟨rfl, rfl, rfl, rfl⟩

/-- Whatever is done to the output ring buffers. -/
theorem KeepsClean.onOutputs {m m₁ : Mem} (h : KeepsClean m m₁) (f : Ringbuf → Ringbuf) :
    KeepsClean m (m₁.onRings f m₁.el.outputs) := by
  refine ⟨h.ports.trans (samePorts_onRings f _ m₁), ?_, ?_, fun k hk => ?_⟩
  · rw [onRings_hist]
    exact h.restarted
  · rw [onRings_hist]
    exact h.starting
  · by_cases hout : k ∈ m₁.el.outputs
    · rw [h.ports.outputs] at hout
      exact Or.inr (Or.inl hout)
    · rw [onRings_rings m₁ f _ hout]
      exact h.clean k hk

/-- The input ring buffers are touched only behind an `open` that has failed. -/
theorem KeepsClean.onInputs {m m₁ : Mem} (h : KeepsClean m m₁) (f : Ringbuf → Ringbuf)
    (hfailed : m.hist.openFailed = true) : KeepsClean m (m₁.onRings f m₁.el.inputs) := by
  refine ⟨h.ports.trans (samePorts_onRings f _ m₁), ?_, ?_, fun k hk => ?_⟩
  · rw [onRings_hist]
    exact h.restarted
  · rw [onRings_hist]
    exact h.starting
  · by_cases hin : k ∈ m₁.el.inputs
    · rw [h.ports.inputs] at hin
      exact Or.inr (Or.inr ⟨hfailed, hin⟩)
    · rw [onRings_rings m₁ f _ hin]
      exact h.clean k hk

/-- An element that is not on its way has nothing to lose. -/
theorem Ready.of_idle {m m₁ : Mem} (h : Ready m₁) (hhist : m.hist = m₁.hist)
    (hidle : m₁.hist.starting = false) : Ready m := by
  constructor
  · intro hs
    rw [hhist, hidle] at hs
    cases hs
  · rw [hhist]
    exact h.started

/-! ### The functions of the task -/

namespace cleanSpec

variable {m s₀ s : Mem} {spot : Spot}

/-- **A function that is harmless** keeps an element ready. -/
theorem harmless {α : Type} {p : ElProg α} {Q : α → Prop} {b : Bool} (h : p.Does Harmless Q)
    (hseg : KeepsClean s₀ s) (hs : Ready s) :
    wp cleanSpec.rely (cleanSpec.point spot) (fun a _ s₀ s => Q a ∧ KeepsClean s₀ s ∧ Ready s)
      p b s₀ s := by
  refine wp_of_does (J := fun s₀ s => KeepsClean s₀ s ∧ Ready s) ?_ ?_ ?_ ?_ p h ⟨hseg, hs⟩
  · rintro s₀ s s' ⟨hseg, hs⟩ hupd
    exact ⟨hupd.keepsClean hseg, hupd.ready hs⟩
  · rintro o s₀ s s' ⟨-, hs⟩ hR
    exact ⟨KeepsClean.refl s', hR.ready hs⟩
  · rintro c s₀ s ⟨hseg, hs⟩
    exact ⟨hs, hseg⟩
  · rintro a b s₀ s hQ ⟨hseg, hs⟩
    exact ⟨hQ, hseg, hs⟩

/-- Behind an `open` that has failed, up to the abort of the ring buffers. -/
structure Failing (s₀ s : Mem) : Prop where
  seg : KeepsClean s₀ s
  ready : Ready s
  idle : s.hist.starting = false
  failed : s.hist.openFailed = true
  before : s₀.hist.openFailed = true

theorem Failing.others {s' : Mem} {o : Option (Callback × ℤ)} (h : Failing s₀ s)
    (hR : cleanSpec.rely o s s') (ho : ∀ v, o ≠ some (.process, v)) : Failing s' s' where
  seg := KeepsClean.refl s'
  ready := hR.ready h.ready
  idle := hR.idle h.idle ho
  failed := hR.failed h.failed
  before := hR.failed h.failed

theorem Failing.update {s' : Mem} (h : Failing s₀ s) (hupd : Harmless s s') : Failing s₀ s' where
  seg := hupd.keepsClean h.seg
  ready := hupd.ready h.ready
  idle := hupd.starting.trans h.idle
  failed := hupd.openFailed.trans h.failed
  before := h.before

/-- The element is closed. -/
theorem Failing.deinit {Q : Unit → Bool → Mem → Mem → Prop} (h : Failing s₀ s)
    (hQ : ∀ s₀ s, Failing s₀ s → Q () false s₀ s) :
    wp cleanSpec.rely (cleanSpec.point spot) Q audioElementProcessDeinit false s₀ s := by
  rw [wp_processDeinit]
  constructor
  · intro _
    have hclose : Failing s₀ { s with hist := { s.hist with trace := s.hist.trace ++ [.close] } } :=
      h.update ⟨⟨rfl, rfl, rfl, rfl⟩, rfl, rfl, rfl, rfl, rfl⟩
    refine ⟨⟨hclose.ready, hclose.seg⟩, fun s' v hR => hQ _ _ ?_⟩
    exact (hclose.others hR fun _ => by simp).update ⟨⟨rfl, rfl, rfl, rfl⟩, rfl, rfl, rfl, rfl, rfl⟩
  · intro _
    exact hQ _ _ (h.update ⟨⟨rfl, rfl, rfl, rfl⟩, rfl, rfl, rfl, rfl, rfl⟩)

theorem Failing.onCmdStop (h : Failing s₀ s) :
    wp cleanSpec.rely (cleanSpec.point spot) (fun _ _ => Failing)
      audioElementOnCmdStop false s₀ s := by
  unfold audioElementOnCmdStop
  rw [wp_bind, wp_element, commit_false, wp_ite]
  constructor
  · intro _
    rw [wp_bind]
    refine h.deinit fun s₀ s h => ?_
    simp only [wp_bind, wp_forceSetState, wp_setWaiting, wp_reportStatus, wp_setEl, wp_setBits,
      wp_pure, commit_false]
    exact h.update ⟨⟨rfl, rfl, rfl, rfl⟩, rfl, rfl, rfl, rfl, rfl⟩
  · intro _
    rw [wp_ite]
    constructor
    · intro _
      exact h.update ⟨⟨rfl, rfl, rfl, rfl⟩, rfl, rfl, rfl, rfl, rfl⟩
    · intro _
      exact h.update ⟨⟨rfl, rfl, rfl, rfl⟩, rfl, rfl, rfl, rfl, rfl⟩

theorem Failing.onCmdError (h : Failing s₀ s) :
    wp cleanSpec.rely (cleanSpec.point spot) (fun _ _ => Failing) audioElementOnCmdError false
      s₀ s := by
  unfold audioElementOnCmdError
  rw [wp_bind, wp_element, commit_false, wp_ite]
  constructor
  · intro _
    rw [wp_bind]
    refine h.deinit fun s₀ s h => ?_
    simp only [wp_bind, wp_forceSetState, wp_setWaiting, wp_setEl, wp_setBits, wp_pure, commit_false]
    exact h.update ⟨⟨rfl, rfl, rfl, rfl⟩, rfl, rfl, rfl, rfl, rfl⟩
  · intro _
    exact h

/-- **An `open` that fails** leads to the abort of the ring buffers. -/
theorem afterOpen_fails {ret : ℤ} (hret : OpenFails ret) (h : Failing s₀ s) :
    wp cleanSpec.rely (cleanSpec.point spot) (fun ret _ s₀ s => ret = ESP_FAIL ∧ Failing s₀ s)
      (afterOpen ret) false s₀ s := by
  unfold afterOpen
  rw [if_neg hret.1, if_neg hret.2, wp_ite]
  constructor
  · intro _
    rw [wp_bind]
    exact wp_post _ (fun _ _ _ _ h => ⟨rfl, h⟩) h.onCmdStop
  · intro _
    simp only [wp_bind, wp_forceSetState, wp_reportStatus, commit_false]
    refine wp_post _ (fun _ _ _ _ h => ⟨rfl, h⟩) (Failing.onCmdError ?_)
    exact h.update ⟨⟨rfl, rfl, rfl, rfl⟩, rfl, rfl, rfl, rfl, rfl⟩

/-- **`audio_element_process_init`** opens the element, or fails as its `open` does. -/
theorem processInit (hseg : KeepsClean s₀ s) (hs : Ready s) :
    wp cleanSpec.rely (cleanSpec.point spot)
      (fun ret _ s₀ s => KeepsClean s₀ s ∧ Ready s ∧ (ret ≠ ESP_OK → Failing s₀ s))
      audioElementProcessInit true s₀ s := by
  unfold audioElementProcessInit
  rw [wp_bind, wp_element, commit_true]
  refine ⟨⟨hs, hseg⟩, fun s₁ hR => ?_⟩
  have hs₁ : Ready s₁ := hR.ready hs
  rw [wp_ite]
  constructor
  · intro _
    have hinit : (do
        setEl fun el => { el with isOpen := true }
        xEventGroupSetBits .started
        return ESP_OK : ElProg ℤ).Does Harmless fun ret => ret = ESP_OK := by
      simp [setEl, xEventGroupSetBits, harmless_iff, samePorts_iff]
    refine wp_post _ ?_ (harmless hinit (KeepsClean.refl s₁) hs₁)
    rintro ret b s₀ s ⟨rfl, hseg, hs⟩
    exact ⟨hseg, hs, fun hne => absurd rfl hne⟩
  · intro _
    simp only [wp_bind, wp_setEl, wp_forceSetState, wp_callOpen, commit_false]
    refine ⟨⟨⟨hs₁.clean, hs₁.started⟩, ⟨⟨rfl, rfl, rfl, rfl⟩, rfl, Or.inl, fun _ => Or.inl⟩⟩, ?_⟩
    intro s₂ v hR₂
    have hs₂ : Ready s₂ := hR₂.ready ⟨hs₁.clean, hs₁.started⟩
    by_cases hv : OpenFails v
    · have hfailed : s₂.hist.openFailed = true := hR₂.opens v rfl hv
      refine wp_post _ ?_ (afterOpen_fails hv ⟨?_, ?_, ?_, ?_, hfailed⟩)
      · rintro ret b s₀ s ⟨-, h⟩
        exact ⟨h.seg, h.ready, fun _ => h⟩
      · exact ⟨⟨rfl, rfl, rfl, rfl⟩, rfl, by simp [hv], fun _ => Or.inl⟩
      · exact ⟨by simp [hv], hs₂.started⟩
      · simp [hv]
      · simp [hv]
    · refine wp_post _ ?_ (harmless (harmless_afterOpen v) ⟨⟨rfl, rfl, rfl, rfl⟩, rfl, ?_, ?_⟩ ?_)
      · rintro ret b s₀ s ⟨hret, hseg, hs⟩
        exact ⟨hseg, hs, fun hne => absurd (hret.resolve_left hne) hv⟩
      · simp [hv]
        exact Or.inl
      · exact fun _ => Or.inl
      · exact ⟨fun hs => hs₂.clean (by simpa [hv] using hs), hs₂.started⟩

/-- The end of the `RESUME` handler: the ring buffers are aborted behind an `open` that has
failed. -/
theorem afterProcessInit {ret : ℤ} {b : Bool} (hseg : KeepsClean s₀ s) (hs : Ready s)
    (hfails : ret ≠ ESP_OK → Failing s₀ s) :
    wp cleanSpec.rely (cleanSpec.point spot) (fun _ _ s₀ s => KeepsClean s₀ s ∧ Ready s)
      (AudioPipeline.afterProcessInit ret) b s₀ s := by
  unfold AudioPipeline.afterProcessInit
  rw [wp_ite]
  constructor
  · intro hne
    have habort : ∀ s₀ s, Failing s₀ s →
        wp cleanSpec.rely (cleanSpec.point spot) (fun _ _ s₀ s => KeepsClean s₀ s ∧ Ready s)
          (do
            audioElementAbortInputRingbuf
            note fun m => { m.hist with openFailed := false }
            setEl fun el => { el with isRunning := false }
            return ESP_FAIL : ElProg ℤ) false s₀ (s.onRings Ringbuf.abort s.el.outputs) := by
      intro s₀ s h
      have hseg := (h.seg.onOutputs Ringbuf.abort).onInputs Ringbuf.abort h.before
      have hready : Ready ((s.onRings Ringbuf.abort s.el.outputs).onRings Ringbuf.abort
          (s.onRings Ringbuf.abort s.el.outputs).el.inputs) := by
        refine h.ready.of_idle ?_ h.idle
        rw [onRings_hist, onRings_hist]
      simp only [wp_bind, audioElementAbortInputRingbuf, wp_onInputs, wp_note, wp_setEl, wp_pure,
        commit_false]
      have hports := hseg.ports
      exact ⟨⟨⟨hports.input, hports.output, hports.multiIn, hports.multiOut⟩, hseg.restarted,
        hseg.starting, hseg.clean⟩, hready.clean, hready.started⟩
    rw [wp_bind, audioElementAbortOutputRingbuf, wp_onOutputs]
    cases b with
    | false => exact habort s₀ s (hfails hne)
    | true => exact ⟨⟨hs, hseg⟩, fun s' hR => habort s' s' ((hfails hne).others hR fun _ => by simp)⟩
  · intro _
    have hresumed : (do
        audioEventIfaceSetCmdWaitingTimeout 0
        xEventGroupClearBits .stopped
        return ESP_OK : ElProg ℤ).Does Harmless fun _ => True := by
      simp [audioEventIfaceSetCmdWaitingTimeout, setEl, xEventGroupClearBits, harmless_iff,
        samePorts_iff]
    exact wp_post _ (fun _ _ _ _ h => h.2) (harmless hresumed hseg hs)

/-- **`audio_element_on_cmd_resume`** opens the element with clean outputs: either it resets them,
or they were clean before. -/
theorem resume (hseg : KeepsClean s₀ s) (hstarted : s.hist.startedDirty = false)
    (hclean : s.hist.starting = true → s.el.state ≠ .running ∧
      (s.el.state = .init ∨ s.el.state = .paused → OutputsClean s)) :
    wp cleanSpec.rely (cleanSpec.point spot) (fun _ _ s₀ s => KeepsClean s₀ s ∧ Ready s)
      audioElementOnCmdResume false s₀ s := by
  have hopen : ∀ s₀ s, KeepsClean s₀ s → Ready s →
      wp cleanSpec.rely (cleanSpec.point spot) (fun _ _ s₀ s => KeepsClean s₀ s ∧ Ready s)
        (do
          setEl fun el => { el with isRunning := true }
          xEventGroupSetBits .resumed
          let ret ← audioElementProcessInit
          AudioPipeline.afterProcessInit ret : ElProg ℤ) false s₀ s := by
    intro s₀ s hseg hs
    simp only [wp_bind, wp_setEl, wp_setBits, commit_false]
    have hupd : Harmless s s.resumed := ⟨⟨rfl, rfl, rfl, rfl⟩, rfl, rfl, rfl, rfl, rfl⟩
    refine wp_post _ ?_ (processInit (hupd.keepsClean hseg) (hupd.ready hs))
    rintro ret b s₀ s ⟨hseg, hs, hfails⟩
    exact afterProcessInit hseg hs hfails
  unfold audioElementOnCmdResume
  rw [wp_bind, wp_element, commit_false, wp_ite]
  constructor
  · intro hrunning
    have hs : Ready s := ⟨fun hs => absurd hrunning (hclean hs).1, hstarted⟩
    have hresumed : (do
        setEl fun el => { el with isRunning := true }
        xEventGroupSetBits .resumed
        return ESP_OK : ElProg ℤ).Does Harmless fun _ => True := by
      simp [setEl, xEventGroupSetBits, harmless_iff, samePorts_iff]
    exact wp_post _ (fun _ _ _ _ h => h.2) (harmless hresumed hseg hs)
  · intro hne
    rw [wp_ite]
    constructor
    · -- the output ring buffers are reset, and nothing else
      intro _
      rw [wp_bind, audioElementResetOutputRingbuf, wp_onOutputs, commit_false]
      refine hopen s₀ _ (hseg.onOutputs rbReset) ⟨fun _ k hk => ?_, ?_⟩
      · rw [onRings_el] at hk
        exact onRings_makes (fun _ => clean_reset) hk
      · rw [onRings_hist]
        exact hstarted
    · intro hkept
      refine hopen s₀ s hseg ⟨fun hs => (hclean hs).2 ?_, hstarted⟩
      by_contra hother
      rw [not_or] at hother
      exact hkept ⟨hother.1, hne, hother.2⟩

theorem cmd (c : AelCmd) {queue : List AelCmd} (h : Ready m) (hadm : cleanSpec.admits c m) :
    wp cleanSpec.rely (cleanSpec.point (.cmd c)) (cleanSpec.afterCmd c)
      (audioElementTaskCmd c) false m (Task.receive m c queue) := by
  have hafter : ∀ ret b s₀ s, KeepsClean s₀ s → Ready s → cleanSpec.afterCmd c ret b s₀ s := by
    intro ret b s₀ s hseg hs
    have hupd : Harmless s (Task.handled s) := ⟨⟨rfl, rfl, rfl, rfl⟩, rfl, rfl, rfl, rfl, rfl⟩
    refine ⟨?_, hupd.keepsClean hseg⟩
    split_ifs <;> exact hupd.ready hs
  by_cases hc : c = .resume
  · subst hc
    have hseg : KeepsClean m (Task.receive m .resume queue) := by
      refine ⟨⟨rfl, rfl, rfl, rfl⟩, rfl, fun hs => Or.inr ?_, fun _ => Or.inl⟩
      exact (Bool.and_eq_true_iff.mp hs).1
    unfold audioElementTaskCmd audioElementOnCmd
    rw [wp_bind]
    refine wp_post _ ?_ (resume hseg h.started fun hs => ?_)
    · rintro ret b s₀ s ⟨hseg, hs⟩
      refine wp_post _ ?_ (harmless (harmless_taskCmdEnd ret) hseg hs)
      rintro ret b s₀ s ⟨-, hseg, hs⟩
      exact hafter ret b s₀ s hseg hs
    · have ⟨hrestarted, hne⟩ := Bool.and_eq_true_iff.mp hs
      exact ⟨of_decide_eq_true hne, hadm rfl hrestarted⟩
  · have hupd : Harmless m (Task.receive m c queue) := by
      simp [Task.receive, if_neg hc, harmless_iff, samePorts_iff]
    refine wp_post _ ?_ (harmless (harmless_taskCmd hc) (hupd.keepsClean (KeepsClean.refl m))
      (hupd.ready h))
    rintro ret b s₀ s ⟨-, hseg, hs⟩
    exact hafter ret b s₀ s hseg hs

/-- The process callback has returned. -/
theorem processed (processLen : ℤ) (hseg : KeepsClean s₀ s) (hs : Ready s)
    (hstarts : s.hist.starting = true → ProcessEnds processLen ∧ s.el.state = .init) :
    wp cleanSpec.rely (cleanSpec.point .proc) cleanSpec.afterRest
      (audioElementProcessed processLen) false s₀ s := by
  have hquiet : ∀ {p : ElProg ℤ} {s₀ s : Mem}, p.Does Harmless (fun _ => True) →
      KeepsClean s₀ s → Ready s →
      wp cleanSpec.rely (cleanSpec.point .proc) cleanSpec.afterRest p false s₀ s := by
    intro p s₀ s hp hseg hs
    refine wp_post _ ?_ (harmless hp hseg hs)
    rintro ret b s₀ s ⟨-, hseg, hs⟩
    exact ⟨hs, hseg⟩
  unfold audioElementProcessed
  rw [wp_ite]
  refine ⟨fun _ => ⟨hs, hseg⟩, fun _ => ?_⟩
  rw [wp_ite]
  refine ⟨fun _ => hquiet ?_ hseg hs, fun _ => ?_⟩
  · simpa using harmless_onCmdStop
  rw [wp_ite]
  constructor
  · intro _
    rw [wp_bind, wp_element, commit_false, wp_ite]
    constructor
    · intro hinit
      refine wp_post _ ?_ (resume hseg hs.started fun hst => ?_)
      · rintro ret b s₀ s ⟨hseg, hs⟩
        exact ⟨hs, hseg⟩
      · rw [hinit]
        exact ⟨by decide, fun _ => hs.clean hst⟩
    · -- the outputs are marked done, and the element is not on its way
      intro hne
      have hidle : s.hist.starting = false := by
        by_contra hst
        exact hne (hstarts (by simpa using hst)).2
      rw [wp_bind, audioElementSetRingbufDone, wp_onOutputs, commit_false]
      refine hquiet ?_ (hseg.onOutputs Ringbuf.doneWrite) (hs.of_idle (onRings_hist ..) hidle)
      simpa using harmless_onCmdFinish
  · intro _
    rw [wp_ite]
    refine ⟨fun _ => hquiet ?_ hseg hs, fun _ => ⟨hs, hseg⟩⟩
    rw [does_bind, audioElementReportStatus, setEl, does_modify]
    refine ⟨fun m => ⟨⟨rfl, rfl, rfl, rfl⟩, rfl, rfl, rfl, rfl, rfl⟩, ?_⟩
    simpa using harmless_onCmdError

theorem proc {last : Option (AelCmd × ℤ)} (h : cleanSpec.rest last m) :
    wp cleanSpec.rely (cleanSpec.point .proc) cleanSpec.afterRest
      audioElementProcessRunning false m m := by
  have hm : Ready m := h
  rw [wp_processRunning, wp_callProcess]
  refine ⟨fun _ => ⟨h, KeepsClean.refl m⟩, fun _ => ?_⟩
  -- the outputs are clean where the element is on its way
  have hdirty : (m.hist.startedDirty ||
      m.hist.starting && !m.el.outputs.all fun k => (m.rings k).Clean) = false := by
    rw [hm.started, Bool.false_or]
    cases hst : m.hist.starting with
    | false => rfl
    | true =>
      have hall : (m.el.outputs.all fun k => (m.rings k).Clean) = true :=
        List.all_eq_true.mpr fun k hk => decide_eq_true (hm.clean hst k hk)
      rw [hall]
      rfl
  have hcalled : Ready { m with hist := { m.hist with
      starting := false
      startedDirty := m.hist.startedDirty ||
        m.hist.starting && !m.el.outputs.all fun k => (m.rings k).Clean } } :=
    ⟨fun hst => absurd hst Bool.false_ne_true, hdirty⟩
  refine ⟨⟨hcalled, ?_⟩, fun m' v hR => ?_⟩
  · exact ⟨⟨rfl, rfl, rfl, rfl⟩, rfl, fun hst => absurd hst Bool.false_ne_true, fun _ => Or.inl⟩
  · have hm' := hR.ready hcalled
    refine processed v ⟨⟨rfl, rfl, rfl, rfl⟩, rfl, Or.inl, fun _ => Or.inl⟩
      ⟨hm'.clean, hm'.started⟩ fun hst => ?_
    rcases hR.starting hst with hst | ⟨v', hv, hends, hinit⟩
    · exact absurd hst Bool.false_ne_true
    · obtain rfl : v = v' := (Prod.mk.inj (Option.some.inj hv)).2
      exact ⟨hends, hinit⟩

theorem begin (h : cleanSpec.idle m) :
    wp cleanSpec.rely (cleanSpec.point .begin) cleanSpec.afterRest audioElementTaskBegin
      false m { m with el := { m.el with threadCreated := false } } := by
  have hupd : Harmless m { m with el := { m.el with threadCreated := false } } :=
    ⟨⟨rfl, rfl, rfl, rfl⟩, rfl, rfl, rfl, rfl, rfl⟩
  refine wp_post _ ?_ (harmless harmless_taskBegin (hupd.keepsClean (KeepsClean.refl m))
    (hupd.ready h))
  rintro ret b s₀ s ⟨-, hseg, hs⟩
  exact ⟨hs, hseg⟩

theorem ending (h : cleanSpec.left m) :
    wp cleanSpec.rely (cleanSpec.point .ending) cleanSpec.afterEnd audioElementTaskEnd
      false m m := by
  refine wp_post _ ?_ (harmless harmless_taskEnd (KeepsClean.refl m) h)
  rintro ret b s₀ s ⟨-, hseg, hs⟩
  exact ⟨hs, hseg⟩

theorem valid : cleanSpec.Valid where
  rely_trans h h' := h.trans h'
  seg_refl := KeepsClean.refl
  here_stable h hR := hR.ready h
  rest_stable h hR := hR.ready h
  idle_stable h hR := hR.ready h
  left_stable h hR := hR.ready h
  begin := begin
  cmd h _ _ hadm := cmd _ h hadm
  proc := proc
  leave h _ := h
  ending := ending

end cleanSpec

/-- An element is ready wherever its task stands. -/
theorem TaskOk.ready {t : Task} {m : Mem} (h : TaskOk cleanSpec t m) : Ready m := by
  cases t with
  | absent | recv | proc last | leave => exact h
  | begin p | inCmd c p | inProc p | ending p => exact h.1

end AudioPipeline
