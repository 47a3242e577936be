import AudioPipeline.Element.Equiv.Sys
import AudioPipeline.Pipeline.Equiv.Functions
import AudioPipeline.Pipeline.Equiv.Runs

/-!
# A run that is reported really runs

`audio_pipeline_run` returns `ESP_OK` at once unless the pipeline is in `AEL_STATE_INIT`, and
otherwise reports what the calls of `audio_element_resume` have returned.  `RunsCarefully` says in
which runs this is the truth: `run_really_runs`.  After a call that has failed the pipeline is in
`AEL_STATE_ERROR`, and the next one returns `ESP_OK` with no task at all: `run_again`.
-/

namespace AudioPipeline

open Prog Pipe

instance (p : Pipe) (P : ℕ → Prop) [DecidablePred P] : Decidable (∀ e, p.Linked e → P e) :=
  decidable_of_iff (∀ e ∈ linkedEls p.items, P e) (by simp only [mem_linkedEls])

/-- `audio_pipeline_run` may be called: there is nothing left to do, or it finds no thread that has
yet to begin and no task that is about to end. -/
def Pipe.Runnable (p : Pipe) : Prop :=
  (p.state = .init → ∀ e, p.Linked e →
      (p.cell e).m.el.threadCreated = false ∧ (p.cell e).Lasting) ∧
    (p.state ≠ .init → p.state = .running ∧ ∀ e, p.Linked e → (p.cell e).m.el.taskRun = true)

instance (p : Pipe) : Decidable p.Runnable := inferInstanceAs (Decidable (_ ∧ _))

instance (p : Pipe) : Decidable (TerminatesAll p) :=
  match h : p.returned with
  | some (e, .terminate, v) =>
    decidable_of_iff (v ≠ ESP_OK → (p.cell e).AtRest) (by
      rw [TerminatesAll, h]
      constructor
      · rintro hrest _ _ ⟨⟩
        exact hrest
      · exact fun hrest => hrest e v rfl)
  | none => .isTrue (by rw [TerminatesAll, h]; nofun)
  | some (_, .run, _) | some (_, .pause, _) | some (_, .resume _, _) | some (_, .stop, _)
  | some (_, .waitForStopMs, _) | some (_, .changeCmd _, _) | some (_, .resetState, _) =>
    .isTrue (by rw [TerminatesAll, h]; rintro _ _ ⟨⟩)

instance (v : ℤ) : DecidablePred (Task.AllocFails v)
  | .begin _ => inferInstanceAs (Decidable (_ ∧ _))
  | .absent | .recv | .inCmd _ _ | .proc _ | .inProc _ | .leave | .ending _ =>
    inferInstanceAs (Decidable False)

/-- `audio_pipeline_run` is called only when it can do its work; the elements that it fails to
terminate rest; and no task whose element it has called `audio_element_resume` for ends for want of
memory before the call returns. -/
def RunsCarefully (s : PipeSys) : PipeLabel → Prop
  | .call api => api = .run → s.pipe.Runnable
  | .ctl => s.ctl.api = some .run → TerminatesAll s.pipe
  | .task e v => s.ctl.api = some .run → s.pipe.Relies e → ¬(s.pipe.cell e).task.AllocFails v
  | .links _ | .io _ _ => True

instance (s : PipeSys) : ∀ l, Decidable (RunsCarefully s l)
  | .call _ => inferInstanceAs (Decidable (_ → _))
  | .ctl => inferInstanceAs (Decidable (_ → _))
  | .task _ _ => inferInstanceAs (Decidable (_ → _ → _))
  | .links _ | .io _ _ => inferInstanceAs (Decidable True)

/-- What `audio_pipeline_run` reports. -/
structure RunReport (v : ℤ) (p : Pipe) : Prop where
  ok : v = ESP_OK → p.state = .running ∧ ∀ e, p.Linked e → (p.cell e).m.el.taskRun = true
  fail : v = ESP_FAIL → ∀ e, p.Linked e → (p.cell e).m.el.isRunning = false

/-- What `RunsCarefully` asks and `RunReport` promises. -/
def runSpec : PipeSpec where
  relied api := api = .run
  goes api p := api = .run → TerminatesAll p
  pre api p := api = .run → p.Runnable
  relinks := True
  rest _ := True
  post api v p := api = .run → RunReport v p

theorem runSpec_valid : runSpec.Valid where
  rest_move _ _ _ := trivial
  rest_relink _ _ _ _ := trivial
  call {api p} hg _ hpre := by
    -- the calls other than `run` keep the elements good
    have hother : ∀ {f : PipeProg ℤ} {Q : ℤ → Bool → Pipe → Pipe → Prop}, api ≠ .run →
        (∀ v b p₀ p, Q v b p₀ p → p.Good) →
        wp (Others False fun _ => True) Sound Q f false
          { p with called := [], returned := none } { p with called := [], returned := none } →
        wp (Others (api = .run) fun p => api = .run → TerminatesAll p) Sound
          (fun v _ _ => runSpec.Returned api v) f false
          { p with called := [], returned := none } { p with called := [], returned := none } := by
      intro f Q hne hQ hwp
      refine wp_mono _ ?_ (fun _ _ _ h => h) ?_ hwp
      · intro o p p' h
        rw [eq_false hne] at h
        exact ⟨h.1, trivial⟩
      · intro v b p₀ p h
        exact ⟨hQ v b p₀ p h, trivial, fun heq => absurd heq hne⟩
    cases api with
    | run =>
      have hrun := hpre rfl
      refine wp_post _ ?_ (wp_audioPipelineRun (X := runSpec.relied .run)
        (fun p hgo => hgo rfl) hg fun hinit e he => ?_)
      · rintro v _ _ p' ⟨hg', hres⟩
        refine ⟨hg', trivial, fun _ => ?_⟩
        cases hres with
        | skipped hne => exact ⟨fun _ => hrun.2 hne, nofun⟩
        | running hstate hon => exact ⟨fun _ => ⟨hstate, hon rfl⟩, nofun⟩
        | failed hrest => exact ⟨nofun, fun _ e he => (hrest e he).1⟩
      · have ⟨hcreated, hlasts⟩ := hrun.1 hinit e he
        exact ⟨hcreated, fun _ => hlasts⟩
    | pause =>
      exact hother (by decide) (fun _ _ _ _ h => h.good) (wp_audioPipelinePause hg False.elim)
    | resume =>
      refine hother (Q := fun _ _ _ p => p.Good) (by decide) (fun _ _ _ _ h => h) ?_
      exact wp_audioPipelineResume (X := False) False.elim
        ⟨rfl, rfl, rfl, hg, fun _ _ h => h.elim⟩ fun _ _ _ _ _ _ _ hp => hp.good
    | stop =>
      exact hother (by decide) (fun _ _ _ _ h => h.1) (wp_audioPipelineStop hg False.elim)
    | waitForStop =>
      exact hother (by decide) (fun _ _ _ _ h => h.1)
        (wp_audioPipelineWaitForStop False.elim hg False.elim)
    | terminate =>
      exact hother (by decide) (fun _ _ _ _ h => h.good) (wp_terminate_kept hg False.elim)

/-- **When `audio_pipeline_run` returns `ESP_OK`, the pipeline runs**; when it returns `ESP_FAIL`,
no linked element does. -/
theorem run_really_runs {config : ℕ → AudioElementCfg} {links : Links} {s : PipeSys} {v : ℤ}
    (h : Lts.Reach PipeSys.step RunsCarefully (PipeSys.start config links) s)
    (hans : s.answered = some (.run, v)) : RunReport v s.pipe := by
  have hheeds : ∀ s l, RunsCarefully s l → runSpec.Heeds s l := by
    intro s l hl
    cases l with
    | links op => trivial
    | call api => exact hl
    | ctl =>
      rintro api hapi rfl
      exact hl hapi
    | task e v =>
      rintro api hapi rfl
      exact hl hapi
    | io rb ring => trivial
  have hinv : runSpec.Inv s := .of_reach runSpec_valid trivial (h.mono hheeds)
  cases hctl : s.ctl with
  | idle => exact (hinv.idle hctl).2 .run v hans rfl
  | calling api pt =>
    rw [(hinv.calling api pt hctl).1] at hans
    exact nomatch hans

/-- A pipeline of nothing, before its elements are registered. -/
def newPipeline : Links := ⟨Heap.start, Pipeline.init⟩

/-- One element is registered and linked. -/
def linkedOne : List PipeLabel := [.links (.registerMore [0]), .links (.linkMore [0])]

/-- The thread begins at once, and the element is opened. -/
def runOne : List PipeLabel :=
  [.call .run, .ctl, .ctl, .ctl, .task 0 1, .task 0 1, .ctl, .ctl, .ctl, .ctl, .ctl,
    .task 0 0, .task 0 0, .task 0 0, .task 0 0, .ctl, .ctl, .ctl]

/-- A call that returns `ESP_OK`. -/
theorem run_really_runs_one :
    ∃ s, Lts.Reach PipeSys.step RunsCarefully (PipeSys.start (fun _ => plainCfg) newPipeline) s ∧
      s.answered = some (.run, ESP_OK) ∧ s.pipe.Linked 0 ∧ RunReport ESP_OK s.pipe := by
  have hrun : (Lts.run PipeSys.step RunsCarefully (PipeSys.start (fun _ => plainCfg) newPipeline)
      (linkedOne ++ runOne)).map (fun s => (s.answered, linkedEls s.pipe.items)) =
        some (some (.run, ESP_OK), [0]) := by
    decide
  obtain ⟨s, hs, heq⟩ := Option.map_eq_some_iff.mp hrun
  have ⟨hans, hlinked⟩ := Prod.mk.inj heq
  have hr := Lts.Reach.of_run _ Lts.Reach.refl hs
  refine ⟨s, hr, hans, ?_, run_really_runs hr hans⟩
  rw [← mem_linkedEls, hlinked]
  exact List.mem_singleton_self 0

/-- The thread is created too late: `audio_pipeline_run` fails and leaves the pipeline in
`AEL_STATE_ERROR`.  It is called once more. -/
def runTwice : List PipeLabel :=
  [.call .run, .ctl, .ctl, .ctl, .ctl, .ctl, .ctl, .ctl, .ctl, .ctl, .ctl, .call .run]

/-- The second call returns `ESP_OK`, and there is no task. -/
theorem run_again :
    ¬∀ (config : ℕ → AudioElementCfg) (links : Links) (s : PipeSys) (v : ℤ),
      Lts.Reach PipeSys.step (fun _ _ => True) (PipeSys.start config links) s →
        s.answered = some (.run, v) → RunReport v s.pipe := by
  intro hall
  have hrun : (Lts.run PipeSys.step (fun _ _ => True)
      (PipeSys.start (fun _ => plainCfg) newPipeline) (linkedOne ++ runTwice)).map
        (fun s => (s.answered, s.pipe.state)) = some (some (.run, ESP_OK), .error) := by
    decide +kernel
  obtain ⟨s, hs, heq⟩ := Option.map_eq_some_iff.mp hrun
  have ⟨hans, hstate⟩ := Prod.mk.inj heq
  have hreport := hall _ _ s _ (Lts.Reach.of_run _ Lts.Reach.refl hs) hans
  rw [(hreport.ok rfl).1] at hstate
  exact absurd hstate (by decide)

end AudioPipeline
