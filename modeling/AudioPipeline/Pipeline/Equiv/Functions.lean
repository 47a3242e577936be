import AudioPipeline.Pipeline.Equiv.Asked
import AudioPipeline.Pipeline.Equiv.Control

/-!
# The functions that run a pipeline

One rule for each of them, over the assertions of `Cell`.  `X` says each time whether the stronger
assertion is known: that the tasks last, or that the elements are at rest.
-/

namespace AudioPipeline

open Prog Pipe

variable {X : Prop} {goes : Pipe → Prop} {st : AelState} {items : List ElementItem}
  {called : List (ℕ × ElApi)} {e : ℕ} {fl : Bool} {p₀ p : Pipe}

/-! ### What the others keep -/

theorem stable_true {b : Prop} : Stable b st called e fun _ => True := fun _ _ _ _ _ => trivial

theorem stable_atRest {b : Prop} : Stable b st called e fun c => X → c.AtRest :=
  fun _ _ hg h hm hx => (h hx).move hg hm

theorem stable_askable {b : Prop} : Stable b st called e fun c => X → c.Askable :=
  fun _ _ hg h hm hx => (h hx).move hg hm

theorem stable_asked {b : Prop} : Stable b st called e fun c => X → c.Asked :=
  fun _ _ hg h hm hx => (h hx).move hg hm

theorem stable_awaitable {b : Prop} : Stable b st called e fun c => X → c.Awaitable :=
  fun _ _ hg h hm hx => (h hx).move hg hm

theorem stable_lasting {b : Prop} : Stable b st called e fun c => X → c.Lasting :=
  fun _ _ hg h hm hx => (h hx).move hg hm

/-- What `audio_pipeline_resume` makes of an element. -/
def Resumed (X : Prop) (ret : ℤ) (c : Cell) : Prop :=
  X → c.Lasting ∧ (ret = ESP_OK → c.m.el.taskRun = true)

theorem stable_resumed {ret : ℤ} (hst : st ≠ .error) (hcalled : (e, .resume 0) ∈ called) :
    Stable X st called e (Resumed X ret) := by
  intro c c' hg h hm hx
  have ⟨hl, hon⟩ := h hx
  exact ⟨hl.move hg hm, fun hret => hm.taskRun hg hl ⟨hx, hcalled, hst⟩ (hon hret)⟩

/-- What is known of the linked elements of the list. -/
theorem Pipe.Has.linked {A : Cell → Prop}
    (h : p.Has st items called fun e c => e ∈ linkedEls items → A c) :
    ∀ e, p.Linked e → A (p.cell e) := by
  intro e he
  rw [← mem_linkedEls, h.items] at he
  exact h.cells e he

/-- The state of the pipeline is written. -/
theorem wp_changeState {b : Prop} {A : ℕ → Cell → Prop} {Q : Unit → Bool → Pipe → Pipe → Prop}
    {newState : AelState} (h : p.Has st items called A) (hA : ∀ e, Stable b st called e (A e))
    (hQ : ∀ fl p₀ p, p.Has newState items called A → Q () fl p₀ p) :
    wp (Others b goes) Sound Q (audioPipelineChangeState newState) fl p₀ p := by
  unfold audioPipelineChangeState
  rw [wp_modify]
  refine commit_has h hA ?_
  intro p₀ p h
  exact hQ _ _ _ ⟨rfl, h.items, h.called, h.good, h.cells⟩

/-! ### `audio_pipeline_resume` -/

theorem lor_results {ret v : ℤ} (hret : ret = ESP_OK ∨ ret = ESP_FAIL)
    (hv : v = ESP_OK ∨ v = ESP_FAIL) :
    (Int.lor ret v = ESP_OK ∨ Int.lor ret v = ESP_FAIL) ∧
      (Int.lor ret v = ESP_OK → ret = ESP_OK ∧ v = ESP_OK) := by
  rcases hret with rfl | rfl <;> rcases hv with rfl | rfl <;> decide +kernel

/-- **`audio_pipeline_resume`** returns `ESP_OK` only with all tasks there. -/
theorem wp_audioPipelineResume {Q : ℤ → Bool → Pipe → Pipe → Prop} (hst : X → st ≠ .error)
    (h : p.Has st items called fun e c => e ∈ linkedEls items → X → c.Lasting)
    (hQ : ∀ ret fl p₀ p called, (ret = ESP_OK ∨ ret = ESP_FAIL) →
      (∀ e ∈ linkedEls items, (e, .resume 0) ∈ called) →
      p.Has .running items called (fun e c => e ∈ linkedEls items → Resumed X ret c) →
      Q ret fl p₀ p) :
    wp (Others X goes) Sound Q audioPipelineResume fl p₀ p := by
  -- a task is relied on from the call on
  have hstable : ∀ ret e called, (e, .resume 0) ∈ called →
      Stable X st called e (Resumed X ret) := by
    intro ret e called hcalled c c' hg hres hm hx
    exact stable_resumed (hst hx) hcalled c c' hg hres hm hx
  unfold audioPipelineResume
  simp only [wp_bind, wp_get]
  refine commit_has h ?_ ?_
  · intro e c c' hg hl hm he
    exact stable_lasting c c' hg (hl he) hm
  intro p₀ p h
  rw [h.items]
  refine wp_forLinked_callEl (V := fun v => v = ESP_OK ∨ v = ESP_FAIL)
    (A := fun c => X → c.Lasting) (fun e called => ?_) (fun _ _ => stable_lasting) hstable hstable
    (fun _ _ _ _ h => h) ?_ ?_ (Or.inl rfl) h
  · refine Cell.meets_resume.mono fun hx => ?_
    exact ⟨hx, List.mem_cons_self, hst hx⟩
  · intro ret v hret hv
    obtain ⟨hres, hok⟩ := lor_results hret hv
    refine ⟨hres, ?_⟩
    rintro c (hc | hc) hx
    · exact ⟨(hc hx).1, fun h => (hc hx).2 (hok h).1⟩
    · exact ⟨(hc hx).1, fun h => (hc hx).2 (hok h).2⟩
  · intro ret fl p₀ p called hret hcalled hp
    rw [wp_bind]
    refine wp_changeState hp (fun e c c' hg hc hm he => ?_) fun fl p₀ p hp => ?_
    · exact hstable ret e called (hcalled e he) c c' hg (hc he) hm
    · exact hQ ret fl p₀ p called hret hcalled hp

/-! ### Loops that do not start an element -/

/-- A loop of calls that keep what is at rest. -/
theorem wp_forLinked_rest {api : ElApi} {Q : ℤ → Bool → Pipe → Pipe → Prop} {ret : ℤ}
    (hapi : api.Controls) (hrun : api ≠ .run) (hX : X → api.starts = false ∧ ¬api.Sends .resume)
    (h : p.Has st items called fun e c => e ∈ linkedEls items → X → c.AtRest)
    (hQ : ∀ ret fl p₀ p called, (∀ e ∈ linkedEls items, (e, api) ∈ called) →
      p.Has st items called (fun e c => e ∈ linkedEls items → X → c.AtRest) → Q ret fl p₀ p) :
    wp (Others False goes) Sound Q (forLinked (callEl · api) ret items) fl p₀ p := by
  refine wp_forLinked_callEl (V := fun _ => True) (A := fun c => X → c.AtRest)
    (B := fun _ c => X → c.AtRest) (fun e called => ?_) (fun _ _ => stable_atRest)
    (fun _ _ _ _ => stable_atRest) (fun _ _ _ _ => stable_atRest) (fun _ _ _ _ h => h) ?_ ?_
    trivial h
  · intro c hg hc
    refine wp_post _ ?_ ((Cell.meets_rest hapi hrun hX).mono False.elim c hg hc)
    intro v _ _ c hc
    exact ⟨hc.1, trivial, hc.2.1⟩
  · intro ret v _ _
    exact ⟨trivial, fun c hc => hc.elim id id⟩
  · intro ret fl p₀ p called _ hcalled hp
    exact hQ ret fl p₀ p called hcalled hp

/-- What a call that starts nothing leaves. -/
structure Kept (X : Prop) (p p' : Pipe) : Prop where
  good : p'.Good
  state : p'.state = p.state
  rest : X → ∀ e, p'.Linked e → (p'.cell e).AtRest

theorem wp_kept (api : ElApi) (hapi : api.Controls) (hrun : api ≠ .run)
    (hX : X → api.starts = false ∧ ¬api.Sends .resume) (hg : p.Good)
    (hrest : X → ∀ e, p.Linked e → (p.cell e).AtRest) :
    wp (Others False goes) Sound
      (fun _ _ _ p' => Kept X p p' ∧ ∀ e, p'.Linked e → (e, api) ∈ p'.called)
      (forLinked (callEl · api) ESP_OK p.items) false p p := by
  have hhas : p.Has p.state p.items p.called fun e c => e ∈ linkedEls p.items → X → c.AtRest :=
    ⟨rfl, rfl, rfl, hg, fun e he hx => hrest hx e (mem_linkedEls.mp he)⟩
  refine wp_forLinked_rest hapi hrun hX hhas ?_
  intro _ _ _ p' called hcalled hp
  refine ⟨⟨hp.good, hp.state, fun hx e he => hp.linked e he hx⟩, fun e he => ?_⟩
  rw [hp.called]
  refine hcalled e ?_
  rw [← hp.items, mem_linkedEls]
  exact he

/-- **`audio_pipeline_pause`.** -/
theorem wp_audioPipelinePause (hg : p.Good) (hrest : X → ∀ e, p.Linked e → (p.cell e).AtRest) :
    wp (Others False goes) Sound (fun _ _ _ p' => Kept X p p') audioPipelinePause false p p := by
  unfold audioPipelinePause
  simp only [wp_bind, wp_get, commit_false]
  refine wp_post _ (fun _ _ _ _ h => h.1)
    (wp_kept .pause trivial (by decide) (fun _ => ?_) hg hrest)
  exact ⟨rfl, by rintro ⟨⟩⟩

/-- **`audio_pipeline_terminate`.** -/
theorem wp_terminate_kept (hg : p.Good) (hrest : X → ∀ e, p.Linked e → (p.cell e).AtRest) :
    wp (Others False goes) Sound (fun _ _ _ p' => Kept X p p') audioPipelineTerminate
      false p p := by
  unfold audioPipelineTerminate
  simp only [wp_bind, wp_get, commit_false]
  refine wp_post _ (fun _ _ _ _ h => h.1)
    (wp_kept .terminate trivial (by decide) (fun _ => ?_) hg hrest)
  exact ⟨rfl, by rintro ⟨⟩⟩

/-- **`audio_pipeline_stop`** does nothing, or asks every linked element to stop. -/
theorem wp_audioPipelineStop (hg : p.Good)
    (hask : X → p.state = .running → ∀ e, p.Linked e → (p.cell e).Askable) :
    wp (Others False goes) Sound (fun v _ _ p' => p'.Good ∧
      (v = ESP_FAIL ∧ p.state ≠ .running ∧ p' = p ∨
        v = ESP_OK ∧ p'.state = .running ∧ (X → ∀ e, p'.Linked e → (p'.cell e).Asked)))
      audioPipelineStop false p p := by
  unfold audioPipelineStop
  rw [wp_bind, wp_get, commit_false, wp_ite]
  refine ⟨fun hne => ⟨hg, Or.inl ⟨rfl, hne, rfl⟩⟩, fun hrun => ?_⟩
  have hrun : p.state = .running := not_not.mp hrun
  have hhas : p.Has .running p.items p.called fun e c => e ∈ linkedEls p.items → X → c.Askable :=
    ⟨hrun, rfl, rfl, hg, fun e he hx => hask hx hrun e (mem_linkedEls.mp he)⟩
  rw [wp_bind]
  refine wp_forLinked_callEl (V := fun _ => True) (A := fun c => X → c.Askable)
    (B := fun _ c => X → c.Asked) (fun e called => ?_) (fun _ _ => stable_askable)
    (fun _ _ _ _ => stable_asked) (fun _ _ _ _ => stable_asked) (fun _ _ _ _ h => h) ?_ ?_
    trivial hhas
  · intro c hg hc
    refine wp_post _ ?_ ((Cell.meets_stop.when trivial nofun).mono False.elim c hg hc)
    exact fun v _ _ c hc => ⟨hc.1, trivial, hc.2⟩
  · intro ret v _ _
    exact ⟨trivial, fun c hc => hc.elim id id⟩
  · intro ret fl p₀ p' called _ _ hp
    exact ⟨hp.good, Or.inr ⟨rfl, hp.state, fun hx e he => hp.linked e he hx⟩⟩

/-! ### `audio_pipeline_wait_for_stop` -/

/-- The loop of `__audio_pipeline_wait_stop`, for one element: a wait that does not time out brings
it to rest. -/
theorem wp_waitOrReset {A : ℕ → Cell → Prop}
    (hgoes : X → ∀ p, goes p → p.Returns .waitForStopMs (· ≠ ESP_ERR_TIMEOUT))
    (hA : ∀ e, Stable False st called e (A e)) (hfront : ∀ c, A e c → X → c.Awaitable)
    (h : p.Has st items called A) :
    wp (Others False goes) Sound (fun _ _ _ p => ∃ called', called ⊆ called' ∧
        p.Has st items called' (Function.update A e fun c => X → c.AtRest))
      (waitOrReset e) fl p₀ p := by
  unfold waitOrReset
  rw [wp_bind]
  refine wp_callEl h hA (B := fun v c => X → v = ESP_ERR_TIMEOUT ∨ c.AtRest) ?_
    (fun _ _ _ hg hc hm hx => (hc hx).imp_right fun ha => ha.move hg hm) ?_
  · intro c hg hc
    exact (Cell.meets_wait.when trivial nofun).mono False.elim c hg (hfront c hc)
  · intro v p₀ p₁ hp hgo
    -- the wait has not timed out, if that is asked for
    have hp : p₁.Has st items ((e, .waitForStopMs) :: called)
        (Function.update A e fun c => X → c.AtRest) := by
      refine hp.mono fun e' c hc => ?_
      by_cases he : e' = e
      · subst he
        rw [Function.update_self] at hc ⊢
        exact fun hx => (hc hx).resolve_left (hgoes hx _ hgo e' v rfl)
      · rw [Function.update_of_ne he] at hc ⊢
        exact hc
    rw [wp_ite]
    refine ⟨fun _ => ⟨_, List.subset_cons_self _ _, hp⟩, fun _ => ?_⟩
    rw [wp_bind]
    refine wp_callEl hp (stable_update (fun e => (hA e).cons _) stable_atRest)
      (B := fun _ c => X → c.AtRest) ?_ (fun _ => stable_atRest) ?_
    · intro c hg hc
      rw [Function.update_self] at hc
      have hmeets : Cell.Meets False (fun c => X → c.AtRest) .resetState _ :=
        Cell.meets_rest trivial (by decide) fun _ => ⟨rfl, by rintro ⟨⟩⟩
      refine wp_post _ ?_ (hmeets.mono False.elim c hg hc)
      exact fun _ _ _ c hc => ⟨hc.1, hc.2.1⟩
    · intro _ p₀ p₂ hp _
      rw [Function.update_idem] at hp
      exact ⟨_, fun call hcall => List.mem_cons_of_mem _ (List.mem_cons_of_mem _ hcall), hp⟩

/-- **`audio_pipeline_wait_for_stop`** leaves the elements at rest if none of its waits times
out. -/
theorem wp_audioPipelineWaitForStop
    (hgoes : X → ∀ p, goes p → p.Returns .waitForStopMs (· ≠ ESP_ERR_TIMEOUT)) (hg : p.Good)
    (hwait : X → p.state = .running → ∀ e, p.Linked e → (p.cell e).Awaitable) :
    wp (Others False goes) Sound (fun _ _ _ p' => p'.Good ∧
      (p.state ≠ .running ∧ p' = p ∨
        p'.state = .init ∧ (X → ∀ e, p'.Linked e → (p'.cell e).AtRest)))
      audioPipelineWaitForStop false p p := by
  unfold audioPipelineWaitForStop
  rw [wp_bind, wp_get, commit_false, wp_ite]
  refine ⟨fun hne => ⟨hg, Or.inl ⟨hne, rfl⟩⟩, fun hrun => ?_⟩
  have hrun : p.state = .running := not_not.mp hrun
  have hhas : p.Has .running p.items p.called fun e c => e ∈ linkedEls p.items → X → c.Awaitable :=
    ⟨hrun, rfl, rfl, hg, fun e he hx => hwait hx hrun e (mem_linkedEls.mp he)⟩
  rw [wp_bind]
  refine wp_phase none (V := fun _ => True) (B := fun _ c => X → c.AtRest)
    (fun _ _ => stable_awaitable) (fun _ _ _ _ => stable_atRest)
    (fun _ _ _ _ => ⟨trivial, fun _ hc => hc.elim id id⟩) ?_ ?_ trivial hhas
  · intro e called A' fl p₀ p hA' hfront hp
    refine wp_post _ ?_ (wp_waitOrReset hgoes hA' hfront hp)
    rintro v fl p₀ p ⟨called', hsub, hp⟩
    exact ⟨trivial, called', hsub, marked_none called' e, hp⟩
  · intro ret fl p₀ p₁ called _ _ hp
    rw [wp_bind]
    refine wp_changeState hp (fun e c c' hg hc hm he => ?_) fun fl p₀ p₂ hp => ?_
    · exact stable_atRest c c' hg (hc he) hm
    · exact ⟨hp.good, Or.inr ⟨hp.state, fun hx e he => hp.linked e he hx⟩⟩

/-! ### `audio_pipeline_run` -/

/-- The point at which a failed call of `audio_element_terminate` returns. -/
def TerminatesAll (p : Pipe) : Prop :=
  ∀ e v, p.returned = some (e, .terminate, v) → v ≠ ESP_OK → (p.cell e).AtRest

/-- `audio_pipeline_terminate`, after a resume has failed. -/
theorem wp_audioPipelineTerminate {Q : ℤ → Bool → Pipe → Pipe → Prop} {b : Prop}
    (hgoes : ∀ p, goes p → TerminatesAll p)
    (h : p.Has st items called fun _ _ => True)
    (hQ : ∀ fl p₀ p called, p.Has st items called (fun e c => e ∈ linkedEls items → c.AtRest) →
      Q ESP_OK fl p₀ p) :
    wp (Others b goes) Sound Q audioPipelineTerminate fl p₀ p := by
  unfold audioPipelineTerminate
  simp only [wp_bind, wp_get]
  refine commit_has h (fun _ => stable_true) ?_
  intro p₀ p h
  rw [h.items]
  have hstable : ∀ (v : ℤ) e called, (e, .terminate) ∈ called →
      Stable b st called e fun c => v = ESP_OK → c.AtRest := fun _ _ _ _ => stable_atRest
  refine wp_forLinked_callEl (V := fun _ => True) (A := fun _ => True) (B := fun _ c => c.AtRest)
    (fun e called => ?_) (fun _ _ => stable_true) hstable (fun _ e called _ => ?_)
    (fun e v p hg hc => ?_) ?_ ?_ trivial (h.mono fun _ _ _ _ => trivial)
  · intro c hg _
    have hmeets : Cell.Meets False (fun c => False → c.AtRest) .terminate _ :=
      Cell.meets_rest trivial (by decide) False.elim
    refine wp_post _ ?_ (hmeets.mono False.elim c hg False.elim)
    intro v _ _ c hc
    exact ⟨hc.1, trivial, hc.2.2 rfl⟩
  · intro c c' hg ha hm
    exact ha.move hg hm
  · by_cases hv : v = ESP_OK
    · exact hc hv
    · exact hgoes _ hg e v rfl hv
  · intro ret v _ _
    exact ⟨trivial, fun c hc => hc.elim id id⟩
  · intro ret fl p₀ p called _ _ hp
    exact hQ fl p₀ p called hp

/-- What `audio_pipeline_run` does to an element that may be started. -/
theorem wp_runStartable {b : Prop} {A : ℕ → Cell → Prop} (hA : ∀ e, Stable b st called e (A e))
    (hfront : ∀ c, A e c → c.m.el.threadCreated = false ∧ (X → c.Lasting))
    (h : p.Has st items called A) :
    wp (Others b goes) Sound (fun _ _ _ p => ∃ called', called ⊆ called' ∧
      p.Has st items called' (Function.update A e fun c => X → c.Lasting))
      (runStartable e) fl p₀ p := by
  have hB : ∀ c, A e c → X → c.Lasting := fun c hc => (hfront c hc).2
  unfold runStartable onEl element
  simp only [wp_bind, wp_sync]
  refine ⟨h.good, ?_⟩
  rintro p₁ ⟨hm, _⟩
  have h₁ := h.moves hA hm
  show wp _ _ _ (if (p₁.cell e).m.el.state.startable then callEl e .run else pure ESP_OK) _ _ _
  rw [wp_ite]
  constructor
  · intro _
    refine wp_callEl h₁ hA (B := fun _ c => X → c.Lasting) ?_ (fun _ => stable_lasting) ?_
    · intro c hg hc
      exact Cell.meets_run.mono False.elim c hg (hfront c hc)
    · intro v p₀ p hp _
      exact ⟨_, List.subset_cons_self _ _, hp⟩
  · intro _
    refine ⟨called, List.Subset.refl _, h₁.mono fun e' c hc => ?_⟩
    by_cases he : e' = e
    · subst he
      rw [Function.update_self]
      exact hB c hc
    · rw [Function.update_of_ne he]
      exact hc

/-- How `audio_pipeline_run` ends. -/
inductive RunResult (X : Prop) (p : Pipe) : ℤ → Pipe → Prop
  /-- it had nothing to do -/
  | skipped (h : p.state ≠ .init) : RunResult X p ESP_OK p
  | running {p' : Pipe} (hstate : p'.state = .running)
    (hon : X → ∀ e, p'.Linked e → (p'.cell e).m.el.taskRun = true) : RunResult X p ESP_OK p'
  | failed {p' : Pipe} (hrest : ∀ e, p'.Linked e → (p'.cell e).AtRest) : RunResult X p ESP_FAIL p'

/-- **`audio_pipeline_run`.** -/
theorem wp_audioPipelineRun (hgoes : ∀ p, goes p → TerminatesAll p) (hg : p.Good)
    (hpre : p.state = .init → ∀ e, p.Linked e →
      (p.cell e).m.el.threadCreated = false ∧ (X → (p.cell e).Lasting)) :
    wp (Others X goes) Sound (fun v _ _ p' => p'.Good ∧ RunResult X p v p') audioPipelineRun
      false p p := by
  unfold audioPipelineRun
  simp only [wp_bind, wp_get, commit_false, wp_ite, wp_pure]
  refine ⟨fun hne => ⟨hg, .skipped hne⟩, fun hinit => ?_⟩
  have hinit : p.state = .init := not_not.mp hinit
  -- the elements are started
  have hhas : p.Has .init p.items p.called fun e c => e ∈ linkedEls p.items →
      c.m.el.threadCreated = false ∧ (X → c.Lasting) :=
    ⟨hinit, rfl, rfl, hg, fun e he => hpre hinit e (mem_linkedEls.mp he)⟩
  refine wp_phase none (V := fun _ => True) (B := fun _ c => X → c.Lasting) ?_
    (fun _ _ _ _ => stable_lasting) (fun _ _ _ _ => ⟨trivial, fun _ hc => hc.elim id id⟩) ?_ ?_
    trivial hhas
  · intro e called c c' hg hc hm
    refine ⟨?_, stable_lasting c c' hg hc.2 hm⟩
    exact (hm.rely hg).created hc.1
  · intro e called A' fl p₀ p hA' hfront hp
    refine wp_post _ ?_ (wp_runStartable hA' hfront hp)
    rintro v fl p₀ p ⟨called', hsub, hp⟩
    exact ⟨trivial, called', hsub, marked_none called' e, hp⟩
  · intro _ fl p₀ p₁ called _ _ hp
    -- and resumed
    rw [wp_bind]
    refine wp_audioPipelineResume (fun _ => by decide) hp ?_
    intro ret fl p₀ p₂ called hret hcalled hp
    have hstable : ∀ e called, (e, .resume 0) ∈ called →
        Stable X .running called e (Resumed X ret) :=
      fun e called => stable_resumed (by decide)
    have hkeep : ∀ e, Stable X .running called e
        fun c => e ∈ linkedEls p.items → Resumed X ret c :=
      fun e c c' hg hc hm he => hstable e called (hcalled e he) c c' hg (hc he) hm
    rw [wp_ite]
    refine ⟨fun hfail => ?_, fun hok => ?_⟩
    · rw [wp_bind]
      refine wp_changeState hp hkeep fun fl p₀ p₃ hp => ?_
      rw [wp_bind]
      refine wp_audioPipelineTerminate hgoes (hp.mono fun _ _ _ => trivial) ?_
      intro fl p₀ p₄ called hp
      exact ⟨hp.good, .failed hp.linked⟩
    · have hret : ret = ESP_OK := hret.resolve_right hok
      rw [wp_bind]
      refine wp_changeState hp hkeep fun fl p₀ p₃ hp => ?_
      refine ⟨hp.good, .running hp.state fun hx e he => ?_⟩
      exact (hp.linked e he hx).2 hret

end AudioPipeline
