import AudioPipeline.Pipeline.Equiv.Running

/-!
# A pipeline can be stopped while it runs

`audio_pipeline_stop` does nothing unless the pipeline is in `AEL_STATE_RUNNING`, and
`audio_pipeline_wait_for_stop` leaves that state whether its waits have succeeded or not.
`WaitsCarefully` says in which runs an element that runs can still be stopped, and is asked to stop
by `audio_pipeline_stop`: `stoppable`.  When a wait times out the pipeline is in `AEL_STATE_INIT`
with an element that runs (`wait_timed_out`), and so it is when a `RESUME` still waits for an
element that seems to have stopped (`resume_left_waiting`).
-/

namespace AudioPipeline

open Prog Pipe

/-- `audio_pipeline_run` finds no thread that has yet to begin, and the calls of
`audio_element_terminate` that it makes return `ESP_OK`; `audio_pipeline_stop` finds that the
elements can be asked to stop; and `audio_pipeline_wait_for_stop` finds neither a `RESUME` that
waits nor a `STOPPED_BIT` of an earlier session, and none of its waits times out. -/
def WaitsCarefully (s : PipeSys) : PipeLabel → Prop
  | .links _ => False
  | .call .run => s.pipe.state = .init →
      ∀ e, s.pipe.Linked e → (s.pipe.cell e).m.el.threadCreated = false
  | .call .stop => s.pipe.state = .running → ∀ e, s.pipe.Linked e → (s.pipe.cell e).Askable
  | .call .waitForStop =>
      s.pipe.state = .running → ∀ e, s.pipe.Linked e → (s.pipe.cell e).Awaitable
  | .ctl => (s.ctl.api = some .run → s.pipe.Returns .terminate (· = ESP_OK)) ∧
      (s.ctl.api = some .waitForStop → s.pipe.Returns .waitForStopMs (· ≠ ESP_ERR_TIMEOUT))
  | .call _ | .task _ _ | .io _ _ => True

instance (s : PipeSys) : ∀ l, Decidable (WaitsCarefully s l)
  | .links _ => inferInstanceAs (Decidable False)
  | .call .run | .call .stop | .call .waitForStop => inferInstanceAs (Decidable (_ → _))
  | .ctl => inferInstanceAs (Decidable (_ ∧ _))
  | .call .pause | .call .resume | .call .terminate | .task _ _ | .io _ _ =>
    inferInstanceAs (Decidable True)

/-- The calls of an application that does not touch the lists. -/
def PipeLabel.Plain : PipeLabel → Bool
  | .links _ => false
  | _ => true

/-- **The pipeline can be stopped**: between calls, if a linked element runs, the pipeline is in
`AEL_STATE_RUNNING`; and when `audio_pipeline_stop` returns, a request to stop waits for the task of
each linked element that runs, unless the call was refused and none of them runs. -/
structure Stoppable (s : PipeSys) : Prop where
  running : s.ctl = .idle → (∃ e, s.pipe.Linked e ∧ (s.pipe.cell e).m.el.isRunning = true) →
    s.pipe.state = .running
  stop : ∀ v, s.answered = some (.stop, v) →
    v = ESP_OK ∧ (∀ e, s.pipe.Linked e → (s.pipe.cell e).m.el.isRunning = true →
        (s.pipe.cell e).StopWaits) ∨
      v = ESP_FAIL ∧ ∀ e, s.pipe.Linked e → (s.pipe.cell e).m.el.isRunning = false

/-- What holds between two calls. -/
def RestsUnlessRunning (p : Pipe) : Prop :=
  p.state ≠ .running → ∀ e, p.Linked e → (p.cell e).AtRest

/-- What `WaitsCarefully` asks and `Stoppable` promises. -/
def stoppingSpec : PipeSpec where
  relied _ := False
  goes api p := (api = .run → p.Returns .terminate (· = ESP_OK)) ∧
    (api = .waitForStop → p.Returns .waitForStopMs (· ≠ ESP_ERR_TIMEOUT))
  pre
    | .run, p => p.state = .init → ∀ e, p.Linked e → (p.cell e).m.el.threadCreated = false
    | .stop, p => p.state = .running → ∀ e, p.Linked e → (p.cell e).Askable
    | .waitForStop, p => p.state = .running → ∀ e, p.Linked e → (p.cell e).Awaitable
    | .pause, _ | .resume, _ | .terminate, _ => True
  relinks := False
  rest := RestsUnlessRunning
  post api v p := api = .stop →
    v = ESP_OK ∧ (∀ e, p.Linked e → (p.cell e).m.el.isRunning = true → (p.cell e).StopWaits) ∨
      v = ESP_FAIL ∧ ∀ e, p.Linked e → (p.cell e).m.el.isRunning = false

theorem RestsUnlessRunning.move {p p' : Pipe} (h : RestsUnlessRunning p) (hg : p.Good)
    (hm : Move False p p') : RestsUnlessRunning p' := by
  have hsame := hm.same
  intro hne e he
  rw [hsame.state] at hne
  rw [Linked, hsame.items] at he
  exact (h hne e he).move (hg e) (hm.cell e)

/-- A call that starts nothing. -/
theorem Kept.rests {X : Prop} {p p' : Pipe} (h : Kept X p p') (hX : p.state ≠ .running → X) :
    RestsUnlessRunning p' := by
  intro hne
  rw [h.state] at hne
  exact h.rest (hX hne)

theorem stoppingSpec_valid : stoppingSpec.Valid where
  rest_move hg h hm := h.move hg hm
  rest_relink h := h.elim
  call {api p} hg hrest hpre := by
    cases api with
    | run =>
      have hends : ∀ p, stoppingSpec.goes .run p → TerminatesAll p :=
        fun p hgo e v hret hv => absurd (hgo.1 rfl e v hret) hv
      refine wp_post _ ?_ (wp_audioPipelineRun (X := False) hends hg
        fun hinit e he => ⟨hpre hinit e he, False.elim⟩)
      rintro v _ _ p' ⟨hg', hres⟩
      refine ⟨hg', ?_, nofun⟩
      cases hres with
      | skipped => exact hrest
      | running hstate => exact fun hne => absurd hstate hne
      | failed hrest' => exact fun _ => hrest'
    | pause =>
      refine wp_post _ ?_ (wp_audioPipelinePause hg hrest)
      exact fun v _ _ p' h => ⟨h.good, h.rests id, nofun⟩
    | resume =>
      refine wp_audioPipelineResume (X := False) False.elim
        ⟨rfl, rfl, rfl, hg, fun _ _ h => h.elim⟩ ?_
      intro v _ _ p' called _ _ hp
      exact ⟨hp.good, fun hne => absurd hp.state hne, nofun⟩
    | stop =>
      refine wp_post _ ?_ (wp_audioPipelineStop (X := True) hg fun _ => hpre)
      rintro v _ _ p' ⟨hg', ⟨rfl, hne, rfl⟩ | ⟨rfl, hstate, hasked⟩⟩
      · exact ⟨hg', hrest, fun _ => Or.inr ⟨rfl, fun e he => (hrest hne e he).1⟩⟩
      · refine ⟨hg', fun hne => absurd hstate hne, fun _ => Or.inl ⟨rfl, fun e he => ?_⟩⟩
        exact (hasked trivial e he).2
    | waitForStop =>
      refine wp_post _ ?_ (wp_audioPipelineWaitForStop (X := True) (fun _ p hgo => hgo.2 rfl) hg
        fun _ => hpre)
      rintro v _ _ p' ⟨hg', ⟨hne, rfl⟩ | ⟨hstate, hrest'⟩⟩
      · exact ⟨hg', hrest, nofun⟩
      · exact ⟨hg', fun _ => hrest' trivial, nofun⟩
    | terminate =>
      refine wp_post _ ?_ (wp_terminate_kept hg hrest)
      exact fun v _ _ p' h => ⟨h.good, h.rests id, nofun⟩

/-- **Every run that waits carefully** can be stopped. -/
theorem stoppable {config : ℕ → AudioElementCfg} {links : Links} {s : PipeSys}
    (h : Lts.Reach PipeSys.step WaitsCarefully (PipeSys.start config links) s) : Stoppable s := by
  have hheeds : ∀ s l, WaitsCarefully s l → stoppingSpec.Heeds s l := by
    intro s l hl
    cases l with
    | links op => exact hl
    | call api => cases api <;> exact hl
    | ctl =>
      intro api hapi
      constructor
      · rintro rfl
        exact hl.1 hapi
      · rintro rfl
        exact hl.2 hapi
    | task e v => exact fun _ _ hrel => hrel.elim
    | io rb ring => trivial
  have hstart : RestsUnlessRunning (PipeSys.start config links).pipe := by
    intro _ e _
    constructor
    · rfl
    · intro _
      exact List.not_mem_nil
  have hinv : stoppingSpec.Inv s := .of_reach stoppingSpec_valid hstart (h.mono hheeds)
  constructor
  · rintro hidle ⟨e, he, hrun⟩
    by_contra hne
    have hoff := ((hinv.idle hidle).1 hne e he).1
    rw [hoff] at hrun
    exact nomatch hrun
  · intro v hans
    cases hctl : s.ctl with
    | idle => exact (hinv.idle hctl).2 .stop v hans rfl
    | calling api pt =>
      rw [(hinv.calling api pt hctl).1] at hans
      exact nomatch hans

/-- A pipeline of one element. -/
def onePipeline : Links := ((newPipeline.call (.registerMore [0])).2.call (.linkMore [0])).2

/-- The element is asked to stop. -/
def stopOne : List PipeLabel := [.call .stop, .ctl, .ctl, .ctl]

/-- The wait begins when the task is in the handler of `STOP`, and ends when it has returned. -/
def waitOne : List PipeLabel :=
  [.task 0 1, .task 0 1, .task 0 1, .call .waitForStop, .ctl, .task 0 1, .ctl, .ctl, .ctl, .ctl,
    .ctl]

/-- The element runs when `audio_pipeline_stop` returns, and has been asked to stop; it does not
when `audio_pipeline_wait_for_stop` returns. -/
theorem stoppable_one :
    (∃ s, Lts.Reach PipeSys.step WaitsCarefully (PipeSys.start (fun _ => plainCfg) onePipeline) s ∧
      s.answered = some (.stop, ESP_OK) ∧ (s.pipe.cell 0).m.el.isRunning = true ∧ Stoppable s) ∧
    ∃ s, Lts.Reach PipeSys.step WaitsCarefully (PipeSys.start (fun _ => plainCfg) onePipeline) s ∧
      s.answered = some (.waitForStop, ESP_OK) ∧ (s.pipe.cell 0).m.el.isRunning = false ∧
        Stoppable s := by
  constructor
  · have hrun : (Lts.run PipeSys.step WaitsCarefully
        (PipeSys.start (fun _ => plainCfg) onePipeline) (runOne ++ stopOne)).map
          (fun s => (s.answered, (s.pipe.cell 0).m.el.isRunning)) =
            some (some (.stop, ESP_OK), true) := by
      decide
    obtain ⟨s, hs, heq⟩ := Option.map_eq_some_iff.mp hrun
    have ⟨hans, hon⟩ := Prod.mk.inj heq
    have hr := Lts.Reach.of_run _ Lts.Reach.refl hs
    exact ⟨s, hr, hans, hon, stoppable hr⟩
  · have hrun : (Lts.run PipeSys.step WaitsCarefully
        (PipeSys.start (fun _ => plainCfg) onePipeline) (runOne ++ stopOne ++ waitOne)).map
          (fun s => (s.answered, (s.pipe.cell 0).m.el.isRunning)) =
            some (some (.waitForStop, ESP_OK), false) := by
      decide
    obtain ⟨s, hs, heq⟩ := Option.map_eq_some_iff.mp hrun
    have ⟨hans, hoff⟩ := Prod.mk.inj heq
    have hr := Lts.Reach.of_run _ Lts.Reach.refl hs
    exact ⟨s, hr, hans, hoff, stoppable hr⟩

/-- An element that runs in a pipeline in `AEL_STATE_INIT`. -/
theorem not_stoppable {s : PipeSys} (h : ((s.ctl.api, s.pipe.state), (linkedEls s.pipe.items,
    (s.pipe.cell 0).m.el.isRunning)) = ((none, .init), ([0], true))) : ¬Stoppable s := by
  intro hstop
  have ⟨hfirst, hsecond⟩ := Prod.mk.inj h
  have ⟨hapi, hstate⟩ := Prod.mk.inj hfirst
  have ⟨hlinked, hrunning⟩ := Prod.mk.inj hsecond
  have hidle : s.ctl = .idle := by
    cases hctl : s.ctl with
    | idle => rfl
    | calling api pt =>
      rw [hctl] at hapi
      exact nomatch hapi
  have hin : s.pipe.Linked 0 := by
    rw [← mem_linkedEls, hlinked]
    exact List.mem_singleton_self 0
  have hon := hstop.running hidle ⟨0, hin, hrunning⟩
  rw [hstate] at hon
  exact nomatch hon

/-- The wait times out before the element handles the request. -/
def waitTooShort : List PipeLabel := [.call .waitForStop, .ctl, .ctl, .ctl, .ctl]

/-- A wait that times out leaves an element that runs in a pipeline in `AEL_STATE_INIT`. -/
theorem wait_timed_out :
    ¬∀ (config : ℕ → AudioElementCfg) (links : Links) (s : PipeSys),
      Lts.Reach PipeSys.step (fun _ l => l.Plain = true) (PipeSys.start config links) s →
        Stoppable s := by
  intro hall
  have hrun : (Lts.run PipeSys.step (fun _ l => l.Plain = true)
      (PipeSys.start (fun _ => plainCfg) onePipeline) (runOne ++ stopOne ++ waitTooShort)).map
        (fun s => ((s.ctl.api, s.pipe.state), (linkedEls s.pipe.items,
          (s.pipe.cell 0).m.el.isRunning))) = some ((none, .init), ([0], true)) := by
    decide
  obtain ⟨s, hs, heq⟩ := Option.map_eq_some_iff.mp hrun
  exact not_stoppable heq (hall _ _ s (Lts.Reach.of_run _ Lts.Reach.refl hs))

/-- No wait of `audio_pipeline_wait_for_stop` times out. -/
def WaitsInTime (s : PipeSys) (l : PipeLabel) : Prop :=
  l.Plain = true ∧ (s.ctl.api = some .waitForStop →
    s.pipe.Returns .waitForStopMs (· ≠ ESP_ERR_TIMEOUT))

instance (s : PipeSys) (l : PipeLabel) : Decidable (WaitsInTime s l) :=
  inferInstanceAs (Decidable (_ ∧ (_ → _)))

/-- The element has stopped; `audio_element_resume` times out before its task takes the `RESUME` off
the queue, which happens after the next stop and wait. -/
def resumeLate : List PipeLabel :=
  [.call .resume, .ctl, .ctl, .ctl, .ctl, .ctl, .call .stop, .ctl, .ctl, .ctl,
    .call .waitForStop, .ctl, .ctl, .ctl, .ctl, .task 0 1, .task 0 1]

/-- A `RESUME` that still waits when the pipeline is stopped starts the element afterwards. -/
theorem resume_left_waiting :
    ¬∀ (config : ℕ → AudioElementCfg) (links : Links) (s : PipeSys),
      Lts.Reach PipeSys.step WaitsInTime (PipeSys.start config links) s → Stoppable s := by
  intro hall
  have hrun : (Lts.run PipeSys.step WaitsInTime (PipeSys.start (fun _ => plainCfg) onePipeline)
      (runOne ++ stopOne ++ waitOne ++ resumeLate)).map
        (fun s => ((s.ctl.api, s.pipe.state), (linkedEls s.pipe.items,
          (s.pipe.cell 0).m.el.isRunning))) = some ((none, .init), ([0], true)) := by
    decide
  obtain ⟨s, hs, heq⟩ := Option.map_eq_some_iff.mp hrun
  exact not_stoppable heq (hall _ _ s (Lts.Reach.of_run _ Lts.Reach.refl hs))

end AudioPipeline
