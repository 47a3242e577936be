import AudioPipeline.Element.Equiv.Task

/-!
# The life of a task

`task_run` and `is_running` tell the other threads whether the task of an element is there and
whether it works.  `lifeSpec` follows the two through `audio_element_task`; `Task.Known` is what
can be said of the code that the task has still to perform without looking at the memory: which
fields it leaves alone, and how it ends.  `Task.Moves` puts the two together: everything that one
step of a task may do to what the controlling threads look at.
-/

namespace AudioPipeline

open Prog

/-- What a task assumes of the others: they write neither flag while it is there. -/
structure Steady (m m' : Mem) : Prop where
  isRunning : m'.el.isRunning = m.el.isRunning
  taskRun : m'.el.taskRun = m.el.taskRun

theorem Steady.refl (m : Mem) : Steady m m := ⟨rfl, rfl⟩

/-- What a segment of the task does to `is_running`, to `stopping`, and to the bits that a
controlling thread waits for when it ends an element. -/
structure LifeSeg (m m' : Mem) : Prop where
  /-- Only a received `RESUME` sets `is_running`. -/
  runs : m.el.isRunning = false →
    m'.el.isRunning = false ∨ m.el.queue = .resume :: m'.el.queue
  /-- The bit is set when the task is gone. -/
  destroyed : m'.el.stateEvent .taskDestroyed = true →
    m.el.stateEvent .taskDestroyed = true ∨ m'.el.taskRun = false
  /-- `STOPPED_BIT` is set when the element does not run. -/
  stopped : m'.el.isRunning = true → m'.el.stateEvent .stopped = true →
    m.el.stateEvent .stopped = true
  /-- A stop request is not the task's. -/
  stopping : m'.el.stopping = true → m.el.stopping = true

/-- The task and its two flags. -/
def lifeSpec : TaskSpec where
  rely _ := Steady
  seg := LifeSeg
  here
    | .begin, _, m => m.el.isRunning = false
    | .cmd cmd, c, m => m.el.taskRun = true ∧ (cmd = .stop → c = none → m.el.isRunning = false)
    | .proc, c, m => m.el.taskRun = true ∧ (c = some .process → m.el.isRunning = true)
    | .ending, c, m => m.el.isRunning = false ∧ (c = none → m.el.taskRun = false)
  rest last m := (m.el.taskRun = false → m.el.isRunning = false) ∧
    ∀ ret, last = some (.stop, ret) → m.el.isRunning = false
  idle m := m.el.isRunning = false ∧ m.el.taskRun = false
  left m := m.el.isRunning = false
  admits _ _ := True

namespace LifeSeg

variable {s₀ s s' : Mem}

theorem refl (m : Mem) : LifeSeg m m := ⟨Or.inl, Or.inl, fun _ => id, id⟩

/-- A segment that leaves the element halted. -/
theorem of_off (hoff : s.el.isRunning = false)
    (hdestroyed : s.el.stateEvent .taskDestroyed = true →
      s₀.el.stateEvent .taskDestroyed = true ∨ s.el.taskRun = false)
    (hstopping : s.el.stopping = true → s₀.el.stopping = true) : LifeSeg s₀ s where
  runs _ := Or.inl hoff
  destroyed := hdestroyed
  stopped hon := absurd hon (by rw [hoff]; decide)
  stopping := hstopping

/-- The end of a handler that halts the element. -/
theorem halt {bit : StateBit} {v : Bool} (h : LifeSeg s₀ s) (hoff : s'.el.isRunning = false)
    (hrun : s'.el.taskRun = s.el.taskRun)
    (hstopping : s'.el.stopping = true → s.el.stopping = true)
    (hevent : s'.el.stateEvent = Function.update s.el.stateEvent bit v)
    (hbit : bit ≠ .taskDestroyed) : LifeSeg s₀ s' := by
  refine of_off hoff (fun hd => ?_) fun hst => h.stopping (hstopping hst)
  rw [hevent, Function.update_of_ne hbit.symm] at hd
  rw [hrun]
  exact h.destroyed hd

/-- A bit is written that nobody waits for at the end of an element. -/
theorem update {bit : StateBit} {v : Bool} (h : LifeSeg s₀ s)
    (hruns : s'.el.isRunning = s.el.isRunning) (hrun : s'.el.taskRun = s.el.taskRun)
    (hqueue : s'.el.queue = s.el.queue) (hstopping : s'.el.stopping = s.el.stopping)
    (hevent : s'.el.stateEvent = Function.update s.el.stateEvent bit v)
    (hbit : v = false ∨ bit ≠ .stopped ∧ bit ≠ .taskDestroyed) : LifeSeg s₀ s' := by
  have hset : ∀ bit', bit' = .stopped ∨ bit' = .taskDestroyed →
      s'.el.stateEvent bit' = true → s.el.stateEvent bit' = true := by
    intro bit' hbit' hs'
    rw [hevent, Function.update_apply] at hs'
    split_ifs at hs' with heq
    · subst heq
      rcases hbit with rfl | ⟨hstopped, hdestroyed⟩
      · exact nomatch hs'
      · exact absurd hbit' (not_or.mpr ⟨hstopped, hdestroyed⟩)
    · exact hs'
  refine ⟨?_, fun hd => ?_, fun hon hst => ?_, fun hst => ?_⟩
  · rw [hruns, hqueue]
    exact h.runs
  · rw [hrun]
    exact h.destroyed (hset _ (Or.inr rfl) hd)
  · rw [hruns] at hon
    exact h.stopped hon (hset _ (Or.inl rfl) hst)
  · rw [hstopping] at hst
    exact h.stopping hst

end LifeSeg

namespace lifeSpec

variable {m m₀ m' : Mem} {o : Option (Callback × ℤ)} {P : Option Callback → Mem → Mem → Prop}

/-- What the handlers leave behind: the task stays in its loop. -/
def after (ret : ℤ) (_ : Bool) (s₀ s : Mem) : Prop :=
  (ret = ESP_OK ∨ ret = ESP_FAIL) ∧ s.el.taskRun = true ∧ LifeSeg s₀ s

/-- The scheduling points inside a command but those of the `STOP` handler, and those of the process
step but the call of `process`. -/
def Inside (P : Option Callback → Mem → Mem → Prop) : Prop :=
  ∀ c s₀ s, c ≠ some .process → s.el.taskRun = true → LifeSeg s₀ s → P c s₀ s

theorem inside_cmd {c : AelCmd} (hc : c ≠ .stop) : Inside (lifeSpec.point (.cmd c)) :=
  fun _ _ _ _ hrun hseg => ⟨⟨hrun, fun heq => absurd heq hc⟩, hseg⟩

theorem inside_proc : Inside (lifeSpec.point .proc) :=
  fun _ _ _ hc hrun hseg => ⟨⟨hrun, fun heq => absurd heq hc⟩, hseg⟩

theorem closing {Z : Mem → Mem → Prop}
    (hP : ∀ s₀ s, s.el.taskRun = true → LifeSeg s₀ s → P (some .close) s₀ s)
    (hrun : m.el.taskRun = true) (hseg : LifeSeg m₀ m)
    (hZ : ∀ s₀ s, s.el.taskRun = true → LifeSeg s₀ s → Z s₀ s) :
    Closing lifeSpec.rely P Z m₀ m where
  call _ _ := hP _ _ hrun ⟨hseg.runs, hseg.destroyed, hseg.stopped, hseg.stopping⟩
  back _ _ s' _ hR := hZ s' s'.closed (hR.taskRun.trans hrun) ⟨Or.inl, Or.inl, fun _ => id, id⟩
  skip _ := hZ m₀ m.closed hrun ⟨hseg.runs, hseg.destroyed, hseg.stopped, hseg.stopping⟩

theorem stop (hP : ∀ s₀ s, s.el.taskRun = true → LifeSeg s₀ s → P (some .close) s₀ s)
    (hrun : m.el.taskRun = true) (hseg : LifeSeg m₀ m) :
    wp lifeSpec.rely P (fun ret _ s₀ s => ret = ESP_OK ∧ s.el.isRunning = false ∧
      s.el.taskRun = true ∧ LifeSeg s₀ s) audioElementOnCmdStop false m₀ m := by
  refine wp_onCmdStop (fun _ _ => ?_) (fun hoff _ => ?_) (fun _ _ => ?_)
  · exact closing hP hrun hseg fun _ _ hrun hseg =>
      ⟨rfl, rfl, hrun, hseg.halt rfl rfl nofun rfl nofun⟩
  · exact ⟨rfl, hoff, hrun, hseg.runs, hseg.destroyed, hseg.stopped, nofun⟩
  · exact ⟨rfl, rfl, hrun, hseg.halt rfl rfl nofun rfl nofun⟩

theorem finish (hP : Inside P) (hrun : m.el.taskRun = true) (hseg : LifeSeg m₀ m) :
    wp lifeSpec.rely P (fun ret _ s₀ s => ret = ESP_OK ∧ s.el.taskRun = true ∧ LifeSeg s₀ s)
      audioElementOnCmdFinish false m₀ m := by
  refine wp_onCmdFinish (fun _ => ⟨rfl, hrun, hseg⟩) (fun _ _ => ?_)
  exact closing (hP _ · · nofun) hrun hseg fun _ _ hrun hseg =>
    ⟨rfl, hrun, hseg.halt rfl rfl id rfl nofun⟩

theorem error (hP : Inside P) (hrun : m.el.taskRun = true) (hseg : LifeSeg m₀ m) :
    wp lifeSpec.rely P (fun ret _ s₀ s => ret = ESP_OK ∧ s.el.taskRun = true ∧ LifeSeg s₀ s)
      audioElementOnCmdError false m₀ m := by
  refine wp_onCmdError (fun _ => ⟨rfl, hrun, hseg⟩) (fun _ => ?_)
  exact closing (hP _ · · nofun) hrun hseg fun _ _ hrun hseg =>
    ⟨rfl, hrun, hseg.halt rfl rfl id rfl nofun⟩

theorem pause (hP : Inside P) (hrun : m.el.taskRun = true) (hseg : LifeSeg m₀ m) :
    wp lifeSpec.rely P (fun ret _ s₀ s => ret = ESP_OK ∧ s.el.taskRun = true ∧ LifeSeg s₀ s)
      (audioElementOnCmd .pause) false m₀ m := by
  have hpaused : LifeSeg m₀ (m.inState .paused) :=
    ⟨hseg.runs, hseg.destroyed, hseg.stopped, hseg.stopping⟩
  refine wp_onCmdPause (closing (hP _ · · nofun) hrun hpaused fun _ _ hrun hseg => ?_)
  exact ⟨rfl, hrun, hseg.halt rfl rfl id rfl nofun⟩

theorem begin (h : lifeSpec.idle m) :
    wp lifeSpec.rely (lifeSpec.point .begin) lifeSpec.afterRest audioElementTaskBegin
      false m { m with el := { m.el with threadCreated := false } } := by
  have hcreated : LifeSeg m { m with el := { m.el with threadCreated := false } }.created :=
    LifeSeg.of_off h.1 (fun hd => Or.inl (by simpa [Mem.created] using hd)) id
  refine wp_taskBegin ⟨h.1, hcreated⟩ (fun s' hR _ => ?_) (fun s₁ s' v hR hR' => ?_)
    (fun s' hR _ => ?_)
  · exact ⟨hR.isRunning.trans h.1, Or.inl, Or.inl, fun _ => id, id⟩
  · have hoff : s'.el.isRunning = false := hR'.isRunning.trans (hR.isRunning.trans h.1)
    have hd : s'.el.stateEvent .taskDestroyed = true → s'.el.stateEvent .taskDestroyed = true ∨
        (s'.allocated v).el.taskRun = false := Or.inl
    unfold Mem.allocated at hd ⊢
    split_ifs at hd ⊢
    · exact ⟨⟨fun _ => hoff, nofun⟩, LifeSeg.of_off hoff hd id⟩
    · exact ⟨⟨fun _ => hoff, nofun⟩, LifeSeg.of_off hoff hd id⟩
  · have hoff : s'.el.isRunning = false := hR.isRunning.trans h.1
    exact ⟨⟨fun _ => hoff, nofun⟩, LifeSeg.of_off hoff Or.inl id⟩

theorem ending (h : lifeSpec.left m) :
    wp lifeSpec.rely (lifeSpec.point .ending) lifeSpec.afterEnd audioElementTaskEnd
      false m m := by
  refine wp_taskEnd (J := fun s => s.el.isRunning = false ∧ s.el.taskRun = false)
    ⟨fun _ _ => ?_, fun _ _ s' v hR st _ => ?_, fun _ st _ => ?_⟩ (fun _ s' h hR => ?_)
    (fun _ s' h hR => ?_)
  · exact ⟨⟨h, nofun⟩, Or.inl, Or.inl, fun _ => id, id⟩
  · have hoff : s'.el.isRunning = false := hR.isRunning.trans h
    exact ⟨⟨⟨hoff, fun _ => rfl⟩, LifeSeg.of_off hoff (fun _ => Or.inr rfl) nofun⟩, hoff, rfl⟩
  · exact ⟨⟨⟨h, fun _ => rfl⟩, LifeSeg.of_off h (fun _ => Or.inr rfl) nofun⟩, h, rfl⟩
  · have hoff : s'.el.isRunning = false := hR.isRunning.trans h.1
    have hrun : s'.el.taskRun = false := hR.taskRun.trans h.2
    exact ⟨⟨⟨hoff, fun _ => hrun⟩, LifeSeg.of_off hoff (fun _ => Or.inr hrun) id⟩, hoff, hrun⟩
  · have hoff : s'.el.isRunning = false := hR.isRunning.trans h.1
    have hrun : s'.el.taskRun = false := hR.taskRun.trans h.2
    exact ⟨⟨hoff, hrun⟩, LifeSeg.of_off hoff (fun _ => Or.inr hrun) id⟩

/-- `audio_element_process_init` reports the stop of a task that halts only. -/
theorem processInit (hP : Inside P) (hrun : m.el.taskRun = true) (hseg : LifeSeg m₀ m) :
    wp lifeSpec.rely P after audioElementProcessInit true m₀ m := by
  refine wp_processInit (hP _ _ _ nofun hrun hseg) (fun s' hR _ => ?_) (fun s' hR _ => ?_)
    (fun s₁ s' v hR _ hR' => ?_)
  · have hrun' : s'.el.taskRun = true := hR.taskRun.trans hrun
    exact ⟨Or.inl rfl, hrun', (LifeSeg.refl s').update rfl rfl rfl rfl rfl (Or.inr ⟨nofun, nofun⟩)⟩
  · exact hP _ _ _ nofun (hR.taskRun.trans hrun) ⟨Or.inl, Or.inl, fun _ => id, id⟩
  · have hrun' : s'.el.taskRun = true := hR'.taskRun.trans (hR.taskRun.trans hrun)
    have hseg' : LifeSeg s' (s'.opened v) := ⟨Or.inl, Or.inl, fun _ => id, id⟩
    refine wp_afterOpen (fun _ => ?_) (fun _ => ?_) (fun _ => ?_) (fun _ => ?_)
    · exact ⟨Or.inl rfl, hrun', hseg'.update rfl rfl rfl rfl rfl (Or.inr ⟨nofun, nofun⟩)⟩
    · exact ⟨Or.inl rfl, hrun', Or.inl, Or.inl, fun _ => id, id⟩
    · refine wp_post _ ?_ (stop (hP _ · · nofun) hrun' hseg')
      rintro ret b s₀ s ⟨-, -, hrun, hseg⟩
      exact ⟨Or.inr rfl, hrun, hseg⟩
    · refine wp_post _ ?_ (error hP hrun' ⟨Or.inl, Or.inl, fun _ => id, id⟩)
      rintro ret b s₀ s ⟨-, hrun, hseg⟩
      exact ⟨Or.inr rfl, hrun, hseg⟩

/-- `audio_element_on_cmd_resume`, for a `RESUME` that was received or a source that has been at its
beginning. -/
theorem resume (hP : Inside P) (hrun : m.el.taskRun = true)
    (hwhy : m₀.el.isRunning = true ∨ m₀.el.queue = .resume :: m.el.queue)
    (hbit : m.el.stateEvent = m₀.el.stateEvent) (hstop : m.el.stopping = m₀.el.stopping) :
    wp lifeSpec.rely P
      (fun ret b s₀ s => after ret b s₀ s ∧ (ret ≠ ESP_OK → s.el.isRunning = false))
      audioElementOnCmdResume false m₀ m := by
  have hresumed : LifeSeg m₀ m.resumed := by
    refine ⟨fun hoff => ?_, fun hd => ?_, fun _ hst => ?_, fun hst => ?_⟩
    · rcases hwhy with hon | hq
      · rw [hoff] at hon
        exact nomatch hon
      · exact Or.inr hq
    · rw [← hbit]
      exact Or.inl hd
    · rw [← hbit]
      exact hst
    · rw [← hstop]
      exact hst
  refine wp_onCmdResume (fun _ => ?_) fun _ rings _ => ?_
  · exact ⟨⟨Or.inl rfl, hrun, hresumed⟩, fun hne => absurd rfl hne⟩
  · have hseg : LifeSeg m₀ { m.resumed with rings := rings } :=
      ⟨hresumed.runs, hresumed.destroyed, hresumed.stopped, hresumed.stopping⟩
    refine wp_post _ ?_ (processInit hP hrun hseg)
    rintro ret b s₀ s ⟨-, hrun, hseg⟩
    have hcommit : ∀ {K : Mem → Mem → Prop},
        (∀ s₀ s, s.el.taskRun = true → LifeSeg s₀ s → K s₀ s) → commit lifeSpec.rely P K b s₀ s :=
      fun hK => commit_of (J := fun s₀ s => s.el.taskRun = true ∧ LifeSeg s₀ s) ⟨hrun, hseg⟩
        (fun _ _ h => hP _ _ _ nofun h.1 h.2)
        (fun _ _ _ h hR => ⟨hR.taskRun.trans h.1, LifeSeg.refl _⟩) fun _ _ h => hK _ _ h.1 h.2
    refine wp_afterProcessInit (fun _ => hcommit ?_) (fun _ => hcommit ?_)
    · intro s₀ s hrun hseg
      have hunstopped : LifeSeg s₀ s.unstopped := hseg.update rfl rfl rfl rfl rfl (Or.inl rfl)
      exact ⟨⟨Or.inl rfl, hrun, hunstopped⟩, fun hne => absurd rfl hne⟩
    · intro s₀ s hrun hseg
      have hgivenUp : LifeSeg s₀ s.givenUp := LifeSeg.of_off rfl hseg.destroyed hseg.stopping
      exact ⟨⟨Or.inr rfl, hrun, hgivenUp⟩, fun _ => rfl⟩

theorem cmd (c : AelCmd) {queue : List AelCmd} (hrun : m.el.taskRun = true)
    (hq : m.el.queue = c :: queue) :
    wp lifeSpec.rely (lifeSpec.point (.cmd c)) (lifeSpec.afterCmd c) (audioElementTaskCmd c) false m
      (Task.receive m c queue) := by
  have hseg : LifeSeg m (Task.receive m c queue) := ⟨Or.inl, Or.inl, fun _ => id, id⟩
  -- the loop goes on with the result
  have hafter : ∀ {ret b s₀ s}, ret ≠ AEL_IO_ABORT → (c = .stop → s.el.isRunning = false) →
      s.el.taskRun = true → LifeSeg s₀ s → lifeSpec.afterCmd c ret b s₀ s := by
    intro ret b s₀ s hret hstop hrun hseg
    refine TaskSpec.afterCmd_of_ne hret ⟨fun hoff => ?_, fun ret' heq => hstop ?_⟩
      ⟨hseg.runs, hseg.destroyed, hseg.stopped, hseg.stopping⟩
    · exact absurd hrun (by rw [show s.el.taskRun = false from hoff]; decide)
    · exact (Prod.mk.inj (Option.some.inj heq)).1
  have hok : ∀ (ret : ℤ) (b : Bool) (s₀ s : Mem), c ≠ .stop →
      (ret = ESP_OK ∧ s.el.taskRun = true ∧ LifeSeg s₀ s) →
        ret = ESP_OK ∧ lifeSpec.afterCmd c ret b s₀ s := by
    rintro ret b s₀ s hc ⟨rfl, hrun, hseg⟩
    exact ⟨rfl, hafter (by decide) (fun heq => absurd heq hc) hrun hseg⟩
  cases c with
  | finish =>
    exact wp_taskCmd_ok (wp_post _ (hok · · · · nofun) (finish (inside_cmd nofun) hrun hseg))
  | stop =>
    have hP : ∀ s₀ s, s.el.taskRun = true → LifeSeg s₀ s →
        lifeSpec.point (.cmd .stop) (some .close) s₀ s := fun _ _ hrun hseg => ⟨⟨hrun, nofun⟩, hseg⟩
    refine wp_taskCmd_ok (wp_post _ ?_ (stop hP hrun hseg))
    rintro ret b s₀ s ⟨rfl, hoff, hrun, hseg⟩
    exact ⟨rfl, hafter (by decide) (fun _ => hoff) hrun hseg⟩
  | pause =>
    exact wp_taskCmd_ok (wp_post _ (hok · · · · nofun) (pause (inside_cmd nofun) hrun hseg))
  | resume =>
    refine wp_taskCmd (wp_post _ ?_ (resume (inside_cmd nofun) hrun (Or.inr hq) rfl rfl))
    rintro ret b s₀ s ⟨⟨hret, hrun, hseg⟩, hoff⟩
    have hne : ret ≠ AEL_IO_ABORT := by rcases hret with rfl | rfl <;> decide
    refine ⟨fun _ => hafter hne nofun hrun hseg, fun hfail => ?_⟩
    refine commit_of (J := fun s₀ s => s.el.isRunning = false ∧ s.el.taskRun = true ∧ LifeSeg s₀ s)
      ⟨hoff hfail, hrun, hseg⟩ (fun _ _ h => ⟨⟨h.2.1, nofun⟩, h.2.2⟩)
      (fun _ _ _ h hR => ⟨hR.isRunning.trans h.1, hR.taskRun.trans h.2.1, LifeSeg.refl _⟩) ?_
    rintro s₀ s ⟨hoff, hrun, hseg⟩
    exact hafter hne nofun hrun (hseg.halt hoff rfl id rfl nofun)
  | destroy =>
    refine wp_taskCmd ⟨fun heq => absurd heq (by decide), fun _ => ?_⟩
    exact TaskSpec.afterCmd_abort (b := true) rfl (LifeSeg.of_off rfl Or.inl id)
  | other => exact wp_taskCmd_ok ⟨rfl, hafter (by decide) nofun hrun hseg⟩

/-- The process callback has returned. -/
theorem processed (processLen : ℤ) (hrun : m.el.taskRun = true) (hon : m₀.el.isRunning = true)
    (hsame : m.el = m₀.el) :
    wp lifeSpec.rely (lifeSpec.point .proc) lifeSpec.afterRest (audioElementProcessed processLen)
      false m₀ m := by
  have hseg : ∀ s : Mem, s.el = m₀.el → LifeSeg m₀ s := by
    intro s hs
    refine ⟨?_, ?_, ?_, ?_⟩ <;> rw [hs]
    · exact Or.inl
    · exact Or.inl
    · exact fun _ => id
    · exact id
  have hafter : ∀ {ret : ℤ} {b s₀ s}, s.el.taskRun = true → LifeSeg s₀ s →
      lifeSpec.afterRest ret b s₀ s := by
    intro ret b s₀ s hrun hseg
    exact ⟨⟨fun hoff => absurd hrun (by rw [hoff]; decide), nofun⟩, hseg⟩
  have hP : Inside (lifeSpec.point .proc) := inside_proc
  refine wp_processed (fun _ _ => hafter hrun (hseg m hsame)) (fun _ => ?_) (fun _ _ => ?_)
    (fun _ _ rings _ => ?_) (fun _ => ?_)
  · exact wp_post _ (fun _ _ _ _ h => hafter h.2.2.1 h.2.2.2)
      (stop (hP _ · · nofun) hrun (hseg m hsame))
  · have hq : m₀.el.isRunning = true ∨ m₀.el.queue = .resume :: m.el.queue := Or.inl hon
    refine wp_post _ (fun _ _ _ _ h => hafter h.1.2.1 h.1.2.2) (resume hP hrun hq ?_ ?_)
    · rw [hsame]
    · rw [hsame]
  · exact wp_post _ (fun _ _ _ _ h => hafter h.2.1 h.2.2) (finish hP hrun (hseg _ hsame))
  · have herror : LifeSeg m₀ m.processFailing := by
      have h := hseg m hsame
      exact ⟨h.runs, h.destroyed, h.stopped, h.stopping⟩
    exact wp_post _ (fun _ _ _ _ h => hafter h.2.1 h.2.2) (error hP hrun herror)

theorem proc {last : Option (AelCmd × ℤ)} (h : lifeSpec.rest last m) :
    wp lifeSpec.rely (lifeSpec.point .proc) lifeSpec.afterRest
      audioElementProcessRunning false m m := by
  have hpresent : m.el.isRunning = true → m.el.taskRun = true := by
    intro hon
    by_contra hoff
    rw [h.1 (by simpa using hoff)] at hon
    exact nomatch hon
  refine wp_running (fun _ => ⟨⟨h.1, nofun⟩, LifeSeg.refl m⟩) (fun _ hon => ?_)
    fun _ hon s' v hR => ?_
  · exact ⟨⟨hpresent hon, fun _ => hon⟩, Or.inl, Or.inl, fun _ => id, id⟩
  · exact processed v (hR.taskRun.trans (hpresent hon)) (hR.isRunning.trans hon) rfl

theorem valid : lifeSpec.Valid where
  rely_trans h h' := ⟨h'.1.trans h.1, h'.2.trans h.2⟩
  seg_refl := LifeSeg.refl
  here_stable := by
    rintro (_ | _ | _ | _) c m m' h hR
    · exact hR.isRunning.trans h
    · exact ⟨hR.taskRun.trans h.1, fun hcmd hc => hR.isRunning.trans (h.2 hcmd hc)⟩
    · exact ⟨hR.taskRun.trans h.1, fun hc => hR.isRunning.trans (h.2 hc)⟩
    · exact ⟨hR.isRunning.trans h.1, fun hc => hR.taskRun.trans (h.2 hc)⟩
  rest_stable := by
    intro last m m' h hR
    show (m'.el.taskRun = false → m'.el.isRunning = false) ∧
      ∀ ret, last = some (.stop, ret) → m'.el.isRunning = false
    rw [hR.isRunning, hR.taskRun]
    exact h
  idle_stable h hR := ⟨hR.isRunning.trans h.1, hR.taskRun.trans h.2⟩
  left_stable h hR := hR.isRunning.trans h
  begin := begin
  cmd _ hrun hq _ := cmd _ hrun hq
  proc := proc
  leave h hrun := h.1 hrun
  ending := ending

end lifeSpec

/-! ### The code that is still to come -/

/-- `audio_element_task` from the answer of the allocator to its loop. -/
def beginEnd (buf : ℤ) : ElProg Unit := do
  if buf = 0 then
    setEl fun el => { el with taskRun := false }
  xEventGroupClearBits .stopped

/-- `audio_element_task` from where `TASK_CREATED_BIT` is set to its loop. -/
def beginTail : ElProg Unit := do
  audioElementForceSetState .init
  audioEventIfaceSetCmdWaitingTimeout portMAX_DELAY
  let el ← element
  if 0 < el.bufSize then
    let buf ← Prog.invoke .calloc
    beginEnd buf
  else
    xEventGroupClearBits .stopped

/-- `xEventGroupClearBits(el->state_event, STOPPED_BIT)`. -/
def clearStopped (m : Mem) : Mem :=
  { m with el := { m.el with stateEvent := Function.update m.el.stateEvent .stopped false } }

theorem resume_begin (m : Mem) : (audioElementTaskBegin.resume false m).2 = .cut beginTail := rfl

theorem resume_beginTail (m : Mem) :
    beginTail.resume false m =
      let m' := { m with el := { m.el with state := .init, waitTime := portMAX_DELAY } }
      if 0 < m.el.bufSize then (m', .call .calloc beginEnd) else (clearStopped m', .done ()) := by
  change (ite (0 < m.el.bufSize) _ _ : ElProg Unit).resume false _ = _
  dsimp only
  split_ifs <;> rfl

theorem resume_beginEnd (buf : ℤ) (m : Mem) :
    (beginEnd buf).resume false m =
      (clearStopped (if buf = 0 then { m with el := { m.el with taskRun := false } } else m),
        .done ()) := by
  unfold beginEnd
  split_ifs <;> rfl

/-- What the handlers of the commands and the process step leave alone. -/
@[mk_iff]
structure Frame (m m' : Mem) : Prop where
  taskStack : m'.el.taskStack = m.el.taskStack
  created : m'.el.threadCreated = m.el.threadCreated
  queue : m'.el.queue = m.el.queue
  taskRun : m'.el.taskRun = m.el.taskRun

theorem Frame.refl (m : Mem) : Frame m m := ⟨rfl, rfl, rfl, rfl⟩

theorem Frame.trans (m₁ m₂ m₃ : Mem) (h : Frame m₁ m₂) (h' : Frame m₂ m₃) : Frame m₁ m₃ :=
  ⟨h'.1.trans h.1, h'.2.trans h.2, h'.3.trans h.3, h'.4.trans h.4⟩

/-- What the end of the task leaves alone. -/
@[mk_iff]
structure EndFrame (m m' : Mem) : Prop where
  taskStack : m'.el.taskStack = m.el.taskStack
  created : m'.el.threadCreated = m.el.threadCreated
  queue : m'.el.queue = m.el.queue
  off : m.el.taskRun = false → m'.el.taskRun = false

theorem EndFrame.refl (m : Mem) : EndFrame m m := ⟨rfl, rfl, rfl, id⟩

theorem EndFrame.trans (m₁ m₂ m₃ : Mem) (h : EndFrame m₁ m₂) (h' : EndFrame m₂ m₃) :
    EndFrame m₁ m₃ :=
  ⟨h'.1.trans h.1, h'.2.trans h.2, h'.3.trans h.3, fun hm => h'.4 (h.4 hm)⟩

section Does

attribute [local simp] does_ite frame_iff endFrame_iff element setEl note callOpen callClose
  callProcess audioElementForceSetState audioElementReportStatus audioEventIfaceSetCmdWaitingTimeout
  xEventGroupSetBits xEventGroupClearBits onOutputs onInputs audioElementProcessDeinit

/-- **Every handler but the one of `DESTROY`** leaves the rest alone and stays in the loop. -/
theorem does_taskCmd {cmd : AelCmd} (h : cmd ≠ .destroy) :
    (audioElementTaskCmd cmd).Does Frame (· ≠ AEL_IO_ABORT) := by
  cases cmd with
  | finish => simp [audioElementTaskCmd, audioElementOnCmd, audioElementOnCmdFinish]
  | stop => simp [audioElementTaskCmd, audioElementOnCmd, audioElementOnCmdStop]
  | pause => simp [audioElementTaskCmd, audioElementOnCmd]
  | resume =>
    simp [audioElementTaskCmd, audioElementOnCmd, audioElementOnCmdResume, audioElementProcessInit,
      audioElementOnCmdStop, audioElementOnCmdError, audioElementResetOutputRingbuf,
      audioElementAbortOutputRingbuf, audioElementAbortInputRingbuf]
  | destroy => exact absurd rfl h
  | other => simp [audioElementTaskCmd, audioElementOnCmd]

theorem does_processRunning : audioElementProcessRunning.Does Frame fun _ => True := by
  simp [audioElementProcessRunning, audioElementProcessed, audioElementOnCmdStop,
    audioElementOnCmdFinish, audioElementOnCmdError, audioElementSetRingbufDone,
    audioElementOnCmdResume, audioElementProcessInit, audioElementResetOutputRingbuf,
    audioElementAbortOutputRingbuf, audioElementAbortInputRingbuf]

theorem does_taskEnd : audioElementTaskEnd.Does EndFrame fun _ => True := by
  simp [audioElementTaskEnd]

end Does

namespace Task

/-- What is known of the code the task has still to perform. -/
def Known : Task → Prop
  | .begin p => p = .cut beginTail ∨ p = .call .calloc beginEnd
  | .inCmd _ p => p.Does Frame (· ≠ AEL_IO_ABORT)
  | .inProc p => p.Does Frame fun _ => True
  | .ending p => p.Does EndFrame fun _ => True
  | .absent | .recv | .proc _ | .leave => True

/-- The task goes on to receive commands. -/
def inLoop : Task → Bool
  | .absent | .leave | .ending _ => false
  | .begin _ | .recv | .inCmd _ _ | .proc _ | .inProc _ => true

/-- The task is on its way out. -/
def leaving : Task → Bool
  | .leave | .ending _ => true
  | .absent | .begin _ | .recv | .inCmd _ _ | .proc _ | .inProc _ => false

theorem not_leaving {t : Task} (h : t.inLoop = true) : t.leaving = false := by
  cases t with
  | absent | leave | ending => exact nomatch h
  | begin | recv | inCmd | proc | inProc => rfl

/-- The allocator has no memory for the buffer of the element. -/
def AllocFails (v : ℤ) : Task → Prop
  | .begin p => p.callback = some .calloc ∧ v = 0
  | _ => False

/-- What a step of the task does to what the controlling threads look at. -/
structure Moves (v : ℤ) (m : Mem) (t : Task) (m' : Mem) (t' : Task) : Prop where
  taskStack : m'.el.taskStack = m.el.taskStack
  created : m'.el.threadCreated = true → m.el.threadCreated = true
  /-- The oldest command is taken off the queue at the head of the loop. -/
  queue : m'.el.queue = m.el.queue ∨ m.el.taskRun = true ∧ t = .recv ∧
    ∃ cmd, m.el.queue = cmd :: m'.el.queue ∧ (cmd = .destroy → t'.inLoop = false)
  /-- `task_run` is cleared after the loop, or where there is no memory. -/
  on : m.el.taskRun = true → m'.el.taskRun = true ∨ t.leaving = true ∨ t.AllocFails v
  /-- `task_run` is set by a new thread. -/
  off : m.el.taskRun = false → m'.el.taskRun = false ∨
    t = .absent ∧ m.el.threadCreated = true ∧ m'.el.threadCreated = false
  /-- The loop is entered by a new thread. -/
  enters : t'.inLoop = true → t.inLoop = true ∨ t = .absent ∧ m.el.threadCreated = true
  /-- The loop is left for `DESTROY`, or because `task_run` is false. -/
  leaves : t'.leaving = true → t.leaving = true ∨
    t = .recv ∧ (m.el.taskRun = false ∨ m.el.queue = .destroy :: m'.el.queue)

theorem Moves.of_frame {v : ℤ} {m m' : Mem} {t t' : Task} (h : Frame m m') (ht : t.inLoop = true)
    (ht' : t'.inLoop = true) : Moves v m t m' t' where
  taskStack := h.taskStack
  created hc := h.created ▸ hc
  queue := Or.inl h.queue
  on hr := Or.inl (h.taskRun.trans hr)
  off hr := Or.inl (h.taskRun.trans hr)
  enters _ := Or.inl ht
  leaves hl := absurd (not_leaving ht') (by rw [hl]; decide)

theorem Moves.of_endFrame {v : ℤ} {m m' : Mem} {t t' : Task} (h : EndFrame m m')
    (ht : t.leaving = true) (ht' : t'.inLoop = false) : Moves v m t m' t' where
  taskStack := h.taskStack
  created hc := h.created ▸ hc
  queue := Or.inl h.queue
  on _ := Or.inr (Or.inl ht)
  off hr := Or.inl (h.off hr)
  enters hl := absurd ht' (by rw [hl]; decide)
  leaves _ := Or.inl ht

/-- Inside a command the task stays in the loop. -/
theorem known_ofCmd (cmd : AelCmd) (m : Mem) {p : Point Mem Callback ℤ}
    (h : p.Does Frame (· ≠ AEL_IO_ABORT)) :
    (ofCmd cmd m p).2.Known ∧ (ofCmd cmd m p).2.inLoop = true ∧ Frame m (ofCmd cmd m p).1 := by
  cases p with
  | done ret =>
    rw [ofCmd, if_neg h]
    exact ⟨trivial, rfl, ⟨rfl, rfl, rfl, rfl⟩⟩
  | cut k => exact ⟨h, rfl, Frame.refl m⟩
  | call c k => exact ⟨h, rfl, Frame.refl m⟩

theorem known_ofProc {p : Point Mem Callback ℤ} (h : p.Does Frame fun _ => True) :
    (ofProc p).Known ∧ (ofProc p).inLoop = true := by
  cases p with
  | done ret => exact ⟨trivial, rfl⟩
  | cut k => exact ⟨h, rfl⟩
  | call c k => exact ⟨h, rfl⟩

theorem known_ofEnd {p : Point Mem Callback Unit} (h : p.Does EndFrame fun _ => True) :
    (ofEnd p).Known ∧ (ofEnd p).inLoop = false := by
  cases p with
  | done ret => exact ⟨trivial, rfl⟩
  | cut k => exact ⟨h, rfl⟩
  | call c k => exact ⟨h, rfl⟩

/-- **What a step of the task does.** -/
theorem Known.step {v : ℤ} {m m' : Mem} {t t' : Task} (h : t.Known)
    (hs : t.step m v = some (m', t')) : t'.Known ∧ Moves v m t m' t' := by
  -- the points of the task are known in its two parts, the beginning and the loop, so that each
  -- step goes from a known point to the next callback or to another part
  cases t with
  | absent =>
    simp only [Task.step] at hs
    split_ifs at hs with hc
    obtain ⟨rfl, rfl⟩ := Prod.mk.inj (Option.some.inj hs)
    refine ⟨Or.inl (resume_begin _), rfl, ?_, Or.inl rfl, ?_, ?_, ?_, ?_⟩
    · intro _
      exact hc
    · intro _
      exact Or.inl rfl
    · intro _
      exact Or.inr ⟨rfl, hc, rfl⟩
    · intro _
      exact Or.inr ⟨rfl, hc⟩
    · intro hl
      cases hl
  | begin p =>
    obtain ⟨⟨m₁, p₁⟩, hp, heq⟩ := Option.map_eq_some_iff.mp hs
    obtain ⟨rfl, rfl⟩ := Prod.mk.inj heq
    rcases h with rfl | rfl
    · -- up to the allocation of the buffer, if there is one
      have hp := (Option.some.inj hp).symm.trans (resume_beginTail m)
      dsimp only at hp
      split_ifs at hp
      · obtain ⟨rfl, rfl⟩ := Prod.mk.inj hp
        exact ⟨Or.inr rfl, Moves.of_frame ⟨rfl, rfl, rfl, rfl⟩ rfl rfl⟩
      · obtain ⟨rfl, rfl⟩ := Prod.mk.inj hp
        exact ⟨trivial, Moves.of_frame ⟨rfl, rfl, rfl, rfl⟩ rfl rfl⟩
    · have hp := (Option.some.inj hp).symm.trans (resume_beginEnd v m)
      obtain ⟨rfl, rfl⟩ := Prod.mk.inj hp
      refine ⟨trivial, ?_⟩
      split_ifs with hv
      · refine ⟨rfl, id, Or.inl rfl, ?_, ?_, ?_, ?_⟩
        · intro _
          exact Or.inr (Or.inr ⟨rfl, hv⟩)
        · intro _
          exact Or.inl rfl
        · intro _
          exact Or.inl rfl
        · intro hl
          cases hl
      · exact Moves.of_frame ⟨rfl, rfl, rfl, rfl⟩ rfl rfl
  | recv =>
    simp only [Task.step] at hs
    split_ifs at hs with hrun
    · cases hq : m.el.queue with
      | nil =>
        rw [hq] at hs
        obtain ⟨rfl, rfl⟩ := Prod.mk.inj (Option.some.inj hs)
        exact ⟨trivial, Moves.of_frame (Frame.refl m) rfl rfl⟩
      | cons cmd queue =>
        rw [hq] at hs
        have hs := Option.some.inj hs
        -- the task ends with this command only
        by_cases hcmd : cmd = .destroy
        · subst hcmd
          obtain ⟨rfl, rfl⟩ := Prod.mk.inj hs
          refine ⟨trivial, rfl, id, Or.inr ⟨hrun, rfl, .destroy, hq, fun _ => rfl⟩, ?_, ?_, ?_, ?_⟩
          · intro _
            exact Or.inl hrun
          · intro hr
            exact absurd hrun (by rw [hr]; decide)
          · intro hl
            cases hl
          · intro _
            exact Or.inr ⟨rfl, Or.inr hq⟩
        · obtain ⟨hf, hd⟩ := Point.does_resume Frame.refl Frame.trans (audioElementTaskCmd cmd)
            (b := false) (s := receive m cmd queue) (does_taskCmd hcmd)
          obtain ⟨hk, hin, hf'⟩ := known_ofCmd cmd
            ((audioElementTaskCmd cmd).resume false (receive m cmd queue)).1 hd
          rw [hs] at hk hin hf'
          have hf := Frame.trans _ _ _ hf hf'
          refine ⟨hk, ?_⟩
          refine ⟨hf.taskStack, fun hc => hf.created ▸ hc, Or.inr ⟨hrun, rfl, cmd, ?_, ?_⟩, ?_, ?_,
            ?_, ?_⟩
          · rw [hf.queue]
            exact hq
          · intro hd
            exact absurd hd hcmd
          · intro _
            exact Or.inl (hf.taskRun.trans hrun)
          · intro hr
            exact absurd hrun (by rw [hr]; decide)
          · intro _
            exact Or.inl rfl
          · intro hl
            exact absurd (not_leaving hin) (by rw [hl]; decide)
    · obtain ⟨rfl, rfl⟩ := Prod.mk.inj (Option.some.inj hs)
      -- the loop ends, as `task_run` has been cleared
      have hoff : m.el.taskRun = false := by simpa using hrun
      refine ⟨trivial, rfl, id, Or.inl rfl, fun h => Or.inl h, fun h => Or.inl h, ?_, ?_⟩
      · intro _
        exact Or.inl rfl
      · intro _
        exact Or.inr ⟨rfl, Or.inl hoff⟩
  | inCmd cmd p =>
    obtain ⟨⟨m₁, p₁⟩, hp, heq⟩ := Option.map_eq_some_iff.mp hs
    obtain ⟨hf, hd⟩ := Point.Does.step Frame.refl Frame.trans h hp
    obtain ⟨hk, hin, hf'⟩ := known_ofCmd cmd m₁ hd
    rw [heq] at hk hin hf'
    exact ⟨hk, Moves.of_frame (Frame.trans _ _ _ hf hf') rfl hin⟩
  | proc last =>
    obtain ⟨rfl, rfl⟩ := Prod.mk.inj (Option.some.inj hs)
    obtain ⟨hf, hd⟩ := Point.does_resume Frame.refl Frame.trans audioElementProcessRunning
      (b := false) (s := m) does_processRunning
    obtain ⟨hk, hin⟩ := known_ofProc hd
    exact ⟨hk, Moves.of_frame hf rfl hin⟩
  | inProc p =>
    obtain ⟨⟨m₁, p₁⟩, hp, heq⟩ := Option.map_eq_some_iff.mp hs
    obtain ⟨rfl, rfl⟩ := Prod.mk.inj heq
    obtain ⟨hf, hd⟩ := Point.Does.step Frame.refl Frame.trans h hp
    obtain ⟨hk, hin⟩ := known_ofProc hd
    exact ⟨hk, Moves.of_frame hf rfl hin⟩
  | leave =>
    obtain ⟨rfl, rfl⟩ := Prod.mk.inj (Option.some.inj hs)
    obtain ⟨hf, hd⟩ := Point.does_resume EndFrame.refl EndFrame.trans audioElementTaskEnd
      (b := false) (s := m) does_taskEnd
    obtain ⟨hk, hout⟩ := known_ofEnd hd
    exact ⟨hk, Moves.of_endFrame hf rfl hout⟩
  | ending p =>
    obtain ⟨⟨m₁, p₁⟩, hp, heq⟩ := Option.map_eq_some_iff.mp hs
    obtain ⟨rfl, rfl⟩ := Prod.mk.inj heq
    obtain ⟨hf, hd⟩ := Point.Does.step EndFrame.refl EndFrame.trans h hp
    obtain ⟨hk, hout⟩ := known_ofEnd hd
    exact ⟨hk, Moves.of_endFrame hf rfl hout⟩

end Task

end AudioPipeline
