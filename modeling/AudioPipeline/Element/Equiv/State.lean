import AudioPipeline.Element.Equiv.Sys

/-!
# The three fields that say whether an element runs

`is_running`, `is_open` and `state` are written one after the other by every handler.  Between two
steps of the task they agree (`Consistent`) as long as the element has an `open` callback: then
`audio_element_process_init` passes through `AEL_STATE_INITIALIZING` and sets
`AEL_STATE_RUNNING`.  Without the callback it returns early and leaves the state as it was.
-/

namespace AudioPipeline

open Prog

/-- The three fields agree. -/
structure Consistent (m : Mem) : Prop where
  running : m.el.isRunning = true ↔ m.el.state = .running
  opened : m.el.state = .running → m.el.isOpen = true

/-- What `Consistent` means for a task: it holds between two steps, a `RESUME` that was handled
with `ESP_OK` leaves the element running, and only a running element processes. -/
structure StateConsistent (s : ElSys) : Prop where
  between : s.task.Between → Consistent s.m
  resumed : s.task = .proc (some (.resume, ESP_OK)) → s.m.el.state = .running
  processing : ∀ p, s.task = .inProc p → p.callback = some .process → s.m.el.state = .running

/-- The task of an element with an `open` callback, while others call everything but
`audio_element_reset_state`. -/
def stateSpec : TaskSpec where
  rely _ m m' := Own m m' ∧ Paused m.el.state m'.el.state
  seg m m' := m'.el.taskStack = m.el.taskStack
  here
    | .begin, _, m | .ending, _, m => m.el.hasOpen = true ∧ m.el.isRunning = false
    | .cmd _, _, m => m.el.hasOpen = true ∧ m.el.taskRun = true
    | .proc, c, m =>
      m.el.hasOpen = true ∧ m.el.taskRun = true ∧ (c = some .process → m.el.state = .running)
  rest last m := m.el.hasOpen = true ∧ Consistent m ∧
    (m.el.taskRun = false → m.el.isRunning = false) ∧
    (last = some (.resume, ESP_OK) → m.el.state = .running)
  idle m := m.el.hasOpen = true ∧ m.el.isRunning = false
  left m := m.el.hasOpen = true ∧ m.el.isRunning = false
  admits _ _ := True

theorem Paused.running {st : AelState} (h : Paused .running st) : st = .running := by
  rcases h with h | ⟨hle, -⟩
  · exact h
  · exact absurd hle (by decide)

theorem Paused.ne_running {st st' : AelState} (h : Paused st st') (hst : st ≠ .running) :
    st' ≠ .running := by
  rcases h with rfl | ⟨-, rfl⟩
  · exact hst
  · decide

namespace stateSpec

/-- The task is in its loop. -/
structure Present (m : Mem) : Prop where
  hasOpen : m.el.hasOpen = true
  taskRun : m.el.taskRun = true

/-- The handlers have halted the element. -/
structure Halted (m : Mem) : Prop extends Present m where
  isRunning : m.el.isRunning = false
  state : m.el.state ≠ .running

/-- The `RESUME` handler has started the element. -/
structure Working (m : Mem) : Prop extends Present m where
  isRunning : m.el.isRunning = true
  state : m.el.state = .running
  isOpen : m.el.isOpen = true

variable {m m₀ m' : Mem} {o : Option (Callback × ℤ)} {last : Option (AelCmd × ℤ)}
  {P : Option Callback → Mem → Mem → Prop}

theorem Present.stable (h : Present m) (hR : stateSpec.rely o m m') : Present m' :=
  ⟨hR.1.hasOpen.trans h.hasOpen, hR.1.taskRun.trans h.taskRun⟩

theorem Halted.stable (h : Halted m) (hR : stateSpec.rely o m m') : Halted m' where
  toPresent := h.toPresent.stable hR
  isRunning := hR.1.isRunning.trans h.isRunning
  state := Paused.ne_running hR.2 h.state

theorem Working.stable (h : Working m) (hR : stateSpec.rely o m m') : Working m' where
  toPresent := h.toPresent.stable hR
  isRunning := hR.1.isRunning.trans h.isRunning
  state := by
    have hpaused := hR.2
    rw [h.state] at hpaused
    exact hpaused.running
  isOpen := hR.1.isOpen.trans h.isOpen

theorem rest_off (hopen : m.el.hasOpen = true) (hoff : m.el.isRunning = false)
    (hst : m.el.state ≠ .running) (hlast : last ≠ some (.resume, ESP_OK)) :
    stateSpec.rest last m := by
  refine ⟨hopen, ⟨?_, fun heq => absurd heq hst⟩, fun _ => hoff, fun heq => absurd heq hlast⟩
  rw [hoff]
  exact iff_of_false nofun hst

theorem Halted.rest (h : Halted m) (hlast : last ≠ some (.resume, ESP_OK)) :
    stateSpec.rest last m := rest_off h.hasOpen h.isRunning h.state hlast

theorem Working.rest (h : Working m) : stateSpec.rest last m :=
  ⟨h.hasOpen, ⟨iff_of_true h.isRunning h.state, fun _ => h.isOpen⟩,
    fun hoff => absurd hoff (by rw [h.taskRun]; decide), fun _ => h.state⟩

theorem rest_stable (h : stateSpec.rest last m) (hR : stateSpec.rely o m m') :
    stateSpec.rest last m' := by
  obtain ⟨hopen, hcons, hdead, hlast⟩ := h
  obtain ⟨hown, hpaused⟩ := hR
  refine ⟨hown.hasOpen.trans hopen, ⟨?_, fun hst => ?_⟩, ?_, fun heq => ?_⟩
  · -- the others neither run a halted element nor pause one that runs
    rw [hown.isRunning, hcons.running]
    constructor
    · intro hst
      rw [hst] at hpaused
      exact hpaused.running
    · intro hst
      by_contra hne
      exact hpaused.ne_running hne hst
  · rw [hown.isOpen]
    refine hcons.opened ?_
    by_contra hne
    exact hpaused.ne_running hne hst
  · rw [hown.isRunning, hown.taskRun]
    exact hdead
  · rw [hlast heq] at hpaused
    exact hpaused.running

/-- The scheduling points inside a command, and those of the process step but the call of
`process`. -/
def Inside (P : Option Callback → Mem → Mem → Prop) : Prop :=
  ∀ c s₀ s, c ≠ some .process → Present s → stateSpec.seg s₀ s → P c s₀ s

theorem inside_cmd (cmd : AelCmd) : Inside (stateSpec.point (.cmd cmd)) :=
  fun _ _ _ _ h hseg => ⟨⟨h.hasOpen, h.taskRun⟩, hseg⟩

theorem inside_proc : Inside (stateSpec.point .proc) :=
  fun _ _ _ hc h hseg => ⟨⟨h.hasOpen, h.taskRun, fun heq => absurd heq hc⟩, hseg⟩

theorem closing {Z : Mem → Mem → Prop} (hP : Inside P) (h : Present m) (hseg : stateSpec.seg m₀ m)
    (hZ : ∀ s₀ s, Present s → (m.el.state ≠ .running → s.el.state ≠ .running) →
      stateSpec.seg s₀ s → Z s₀ s) : Closing stateSpec.rely P Z m₀ m where
  call _ _ := hP _ _ _ nofun ⟨h.hasOpen, h.taskRun⟩ hseg
  back _ _ s' v hR := by
    have hclosing : Present m.closing := ⟨h.hasOpen, h.taskRun⟩
    have hs' := hclosing.stable hR
    exact hZ s' s'.closed ⟨hs'.hasOpen, hs'.taskRun⟩ (fun hne => hR.2.ne_running hne) rfl
  skip _ := hZ m₀ m.closed ⟨h.hasOpen, h.taskRun⟩ id hseg

/-- What the handlers that halt the element leave behind. -/
def afterHalt (ret : ℤ) (_ : Bool) (s₀ s : Mem) : Prop :=
  ret = ESP_OK ∧ Halted s ∧ stateSpec.seg s₀ s

theorem stop (hP : Inside P) (h : Present m) (hseg : stateSpec.seg m₀ m) :
    wp stateSpec.rely P afterHalt audioElementOnCmdStop false m₀ m := by
  refine wp_onCmdStop (fun _ _ => ?_) (fun hrun hst => ?_) (fun _ _ => ?_)
  · exact closing hP h hseg fun _ _ h _ hseg => ⟨rfl, ⟨⟨h.hasOpen, h.taskRun⟩, rfl, nofun⟩, hseg⟩
  · refine ⟨rfl, ⟨⟨h.hasOpen, h.taskRun⟩, hrun, ?_⟩, hseg⟩
    show m.el.state ≠ .running
    rw [hst]
    decide
  · exact ⟨rfl, ⟨⟨h.hasOpen, h.taskRun⟩, rfl, nofun⟩, hseg⟩

theorem finish (hP : Inside P) (h : Present m) (hcons : Consistent m)
    (hseg : stateSpec.seg m₀ m) :
    wp stateSpec.rely P afterHalt audioElementOnCmdFinish false m₀ m := by
  refine wp_onCmdFinish (fun hst => ?_) (fun _ _ => ?_)
  · -- an element that has failed or stopped is halted
    have hne : m.el.state ≠ .running := by
      rcases hst with hst | hst <;> rw [hst] <;> decide
    have hoff : m.el.isRunning = false := by
      by_contra hon
      exact hne (hcons.running.mp (by simpa using hon))
    exact ⟨rfl, ⟨h, hoff, hne⟩, hseg⟩
  · exact closing hP h hseg fun _ _ h _ hseg => ⟨rfl, ⟨⟨h.hasOpen, h.taskRun⟩, rfl, nofun⟩, hseg⟩

theorem error (hP : Inside P) (h : Present m) (hst : m.el.state ≠ .stopped)
    (hseg : stateSpec.seg m₀ m) :
    wp stateSpec.rely P afterHalt audioElementOnCmdError false m₀ m := by
  refine wp_onCmdError (fun hstopped => absurd hstopped hst) (fun _ => ?_)
  exact closing hP h hseg fun _ _ h _ hseg => ⟨rfl, ⟨⟨h.hasOpen, h.taskRun⟩, rfl, nofun⟩, hseg⟩

theorem pause (hP : Inside P) (h : Present m) (hseg : stateSpec.seg m₀ m) :
    wp stateSpec.rely P afterHalt (audioElementOnCmd .pause) false m₀ m := by
  have hpaused : Present (m.inState .paused) := ⟨h.hasOpen, h.taskRun⟩
  refine wp_onCmdPause (closing hP hpaused hseg fun _ _ h hst hseg => ?_)
  exact ⟨rfl, ⟨⟨h.hasOpen, h.taskRun⟩, rfl, hst nofun⟩, hseg⟩

theorem idle_stable (h : stateSpec.idle m) (hR : stateSpec.rely o m m') : stateSpec.idle m' :=
  ⟨hR.1.hasOpen.trans h.1, hR.1.isRunning.trans h.2⟩

theorem begin (h : stateSpec.idle m) :
    wp stateSpec.rely (stateSpec.point .begin) stateSpec.afterRest audioElementTaskBegin false m
      { m with el := { m.el with threadCreated := false } } := by
  have hcreated : stateSpec.idle { m with el := { m.el with threadCreated := false } }.created := h
  refine wp_taskBegin ⟨hcreated, rfl⟩ (fun s' hR _ => ?_) (fun s₁ s' v hR hR' => ?_)
    (fun s' hR _ => ?_)
  · have hidle : stateSpec.idle s' := idle_stable hcreated hR
    exact ⟨hidle, rfl⟩
  · have hreset : stateSpec.idle s₁.reset := by
      have hidle : stateSpec.idle s₁ := idle_stable hcreated hR
      exact hidle
    obtain ⟨hopen, hoff⟩ : stateSpec.idle s' := idle_stable hreset hR'
    have hst : s'.el.state ≠ .running := hR'.2.ne_running nofun
    unfold Mem.allocated
    split_ifs
    · exact ⟨rest_off hopen hoff hst nofun, rfl⟩
    · exact ⟨rest_off hopen hoff hst nofun, rfl⟩
  · obtain ⟨hopen, hoff⟩ : stateSpec.idle s' := idle_stable hcreated hR
    exact ⟨rest_off hopen hoff nofun nofun, rfl⟩

theorem ending (h : stateSpec.left m) :
    wp stateSpec.rely (stateSpec.point .ending) stateSpec.afterEnd
      audioElementTaskEnd false m m := by
  have hidle : stateSpec.idle m.closing := h
  refine wp_taskEnd (J := stateSpec.idle) ⟨fun _ _ => ⟨hidle, rfl⟩, fun _ _ s' v hR st _ => ?_,
    fun _ st _ => ?_⟩ (fun _ s' h hR => ?_) (fun _ s' h hR => ?_)
  · have hback : stateSpec.idle s' := idle_stable hidle hR
    exact ⟨⟨hback, rfl⟩, hback⟩
  · exact ⟨⟨h, rfl⟩, h⟩
  · have hback : stateSpec.idle s' := idle_stable h hR
    exact ⟨⟨hback, rfl⟩, hback⟩
  · have hback : stateSpec.idle s' := idle_stable h hR
    exact ⟨hback, rfl⟩

/-- What the `RESUME` handler leaves behind. -/
def afterResume (ret : ℤ) (_ : Bool) (s₀ s : Mem) : Prop :=
  (ret = ESP_OK ∧ Working s ∨ ret = ESP_FAIL ∧ Halted s) ∧ stateSpec.seg s₀ s

/-- **`audio_element_process_init`** leaves the element open and running, or halted. -/
theorem processInit (hP : Inside P) (h : Present m) (hon : m.el.isRunning = true)
    (hseg : stateSpec.seg m₀ m) :
    wp stateSpec.rely P afterResume audioElementProcessInit true m₀ m := by
  refine wp_processInit (hP _ _ _ nofun h hseg) (fun s' hR hno => ?_) (fun s' hR _ => ?_)
    (fun s₁ s' v hR _ hR' => ?_)
  · rw [(h.stable hR).hasOpen] at hno
    exact nomatch hno
  · have hs' := h.stable hR
    exact hP _ _ _ nofun ⟨hs'.hasOpen, hs'.taskRun⟩ rfl
  · have hopening : Present s₁.opening := by
      have hs₁ := h.stable hR
      exact ⟨hs₁.hasOpen, hs₁.taskRun⟩
    have hs' : Present (s'.opened v) := by
      have hs' := hopening.stable hR'
      exact ⟨hs'.hasOpen, hs'.taskRun⟩
    have hworks : Working (s'.opened v).running :=
      ⟨⟨hs'.hasOpen, hs'.taskRun⟩, hR'.1.isRunning.trans (hR.1.isRunning.trans hon), rfl,
        hR'.1.isOpen⟩
    refine wp_afterOpen (fun _ => ?_) (fun _ => ?_) (fun _ => ?_) (fun _ => ?_)
    · exact ⟨Or.inl ⟨rfl, ⟨hs'.hasOpen, hs'.taskRun⟩, hworks.isRunning, rfl, hworks.isOpen⟩, rfl⟩
    · exact ⟨Or.inl ⟨rfl, hworks⟩, rfl⟩
    · refine wp_post _ ?_ (stop hP hs' rfl)
      rintro ret b s₀ s ⟨-, hhalted, hseg⟩
      exact ⟨Or.inr ⟨rfl, hhalted⟩, hseg⟩
    · refine wp_post _ ?_ (error hP ⟨hs'.hasOpen, hs'.taskRun⟩ nofun rfl)
      rintro ret b s₀ s ⟨-, hhalted, hseg⟩
      exact ⟨Or.inr ⟨rfl, hhalted⟩, hseg⟩

/-- **`audio_element_on_cmd_resume`** leaves the element running if it returns `ESP_OK`. -/
theorem resume (hP : Inside P) (h : Present m) (hcons : Consistent m)
    (hseg : stateSpec.seg m₀ m) :
    wp stateSpec.rely P afterResume audioElementOnCmdResume false m₀ m := by
  refine wp_onCmdResume (fun hst => ?_) fun _ rings _ => ?_
  · exact ⟨Or.inl ⟨rfl, ⟨h.hasOpen, h.taskRun⟩, rfl, hst, hcons.opened hst⟩, hseg⟩
  · refine wp_post _ ?_ (processInit hP ⟨h.hasOpen, h.taskRun⟩ rfl hseg)
    rintro ret b s₀ s ⟨⟨rfl, hworks⟩ | ⟨rfl, hhalted⟩, hseg⟩
    · refine wp_afterProcessInit (fun _ => ?_) (fun hne => absurd rfl hne)
      refine commit_of (J := fun s₀ s => Working s ∧ stateSpec.seg s₀ s) ⟨hworks, hseg⟩
        (fun _ _ h => hP _ _ _ nofun h.1.toPresent h.2) (fun _ _ _ h hR => ⟨h.1.stable hR, rfl⟩) ?_
      rintro s₀ s ⟨h, hseg⟩
      exact ⟨Or.inl ⟨rfl, ⟨h.hasOpen, h.taskRun⟩, h.isRunning, h.state, h.isOpen⟩, hseg⟩
    · refine wp_afterProcessInit (fun heq => absurd heq (by decide)) (fun _ => ?_)
      refine commit_of (J := fun s₀ s => Halted s ∧ stateSpec.seg s₀ s) ⟨hhalted, hseg⟩
        (fun _ _ h => hP _ _ _ nofun h.1.toPresent h.2) (fun _ _ _ h hR => ⟨h.1.stable hR, rfl⟩) ?_
      rintro s₀ s ⟨h, hseg⟩
      exact ⟨Or.inr ⟨rfl, ⟨h.hasOpen, h.taskRun⟩, rfl, h.state⟩, hseg⟩

theorem cmd (c : AelCmd) {queue : List AelCmd} (h : stateSpec.rest none m)
    (hrun : m.el.taskRun = true) :
    wp stateSpec.rely (stateSpec.point (.cmd c)) (stateSpec.afterCmd c) (audioElementTaskCmd c)
      false m (Task.receive m c queue) := by
  have hpresent : Present (Task.receive m c queue) := ⟨h.1, hrun⟩
  have hcons : Consistent (Task.receive m c queue) := ⟨h.2.1.running, h.2.1.opened⟩
  have hseg : stateSpec.seg m (Task.receive m c queue) := rfl
  have hP := inside_cmd c
  have hhalt : ∀ ret b s₀ s, c ≠ .resume → afterHalt ret b s₀ s →
      ret = ESP_OK ∧ stateSpec.afterCmd c ret b s₀ s := by
    rintro ret b s₀ s hc ⟨rfl, h, hseg⟩
    have hhandled : Halted (Task.handled s) := ⟨⟨h.hasOpen, h.taskRun⟩, h.isRunning, h.state⟩
    exact ⟨rfl, TaskSpec.afterCmd_of_ne (by decide) (hhandled.rest (by simp [hc])) hseg⟩
  cases c with
  | finish => exact wp_taskCmd_ok (wp_post _ (hhalt · · · · nofun) (finish hP hpresent hcons hseg))
  | stop => exact wp_taskCmd_ok (wp_post _ (hhalt · · · · nofun) (stop hP hpresent hseg))
  | pause => exact wp_taskCmd_ok (wp_post _ (hhalt · · · · nofun) (pause hP hpresent hseg))
  | resume =>
    refine wp_taskCmd (wp_post _ ?_ (resume hP hpresent hcons hseg))
    rintro ret b s₀ s ⟨⟨rfl, h⟩ | ⟨rfl, h⟩, hseg⟩
    · refine ⟨fun _ => ?_, fun hne => absurd rfl hne⟩
      have hhandled : Working (Task.handled s) :=
        ⟨⟨h.hasOpen, h.taskRun⟩, h.isRunning, h.state, h.isOpen⟩
      exact ⟨hhandled.rest, hseg⟩
    · refine ⟨fun heq => absurd heq (by decide), fun _ => ?_⟩
      refine commit_of (J := fun s₀ s => Halted s ∧ stateSpec.seg s₀ s) ⟨h, hseg⟩
        (fun _ _ h => hP _ _ _ nofun h.1.toPresent h.2) (fun _ _ _ h hR => ⟨h.1.stable hR, rfl⟩) ?_
      rintro s₀ s ⟨h, hseg⟩
      have hhandled : Halted (Task.handled (s.withBit .stopped true)) :=
        ⟨⟨h.hasOpen, h.taskRun⟩, h.isRunning, h.state⟩
      exact ⟨hhandled.rest (by decide), hseg⟩
  | destroy =>
    refine wp_taskCmd ⟨fun heq => absurd heq (by decide), fun _ => ?_⟩
    exact TaskSpec.afterCmd_abort (b := true) ⟨h.1, rfl⟩ hseg
  | other =>
    refine wp_taskCmd_ok ⟨rfl, TaskSpec.afterCmd_of_ne (by decide) ?_ hseg⟩
    exact ⟨h.1, ⟨hcons.running, hcons.opened⟩, h.2.2.1, nofun⟩

/-- The process callback has returned; the element has been running all the time, so that it is
not in `AEL_STATE_INIT`. -/
theorem processed (processLen : ℤ) (h : stateSpec.rest none m) (hrun : m.el.taskRun = true)
    (hinit : m.el.state ≠ .init) (hst : m.el.state ≠ .stopped) (hseg : stateSpec.seg m₀ m) :
    wp stateSpec.rely (stateSpec.point .proc) stateSpec.afterRest (audioElementProcessed processLen)
      false m₀ m := by
  have hpresent : Present m := ⟨h.1, hrun⟩
  have hhalt : ∀ (ret : ℤ) b s₀ s, afterHalt ret b s₀ s → stateSpec.afterRest ESP_OK b s₀ s :=
    fun _ _ _ _ h => ⟨h.2.1.rest nofun, h.2.2⟩
  refine wp_processed (fun _ _ => ⟨h, hseg⟩) (fun _ => ?_) (fun _ heq => absurd heq hinit)
    (fun _ _ rings _ => ?_) (fun _ => ?_)
  · exact wp_post _ hhalt (stop inside_proc hpresent hseg)
  · have hcons : Consistent { m with rings := rings } := ⟨h.2.1.running, h.2.1.opened⟩
    exact wp_post _ hhalt (finish inside_proc ⟨h.1, hrun⟩ hcons hseg)
  · exact wp_post _ hhalt (error inside_proc ⟨h.1, hrun⟩ hst hseg)

theorem proc (h : stateSpec.rest last m) :
    wp stateSpec.rely (stateSpec.point .proc) stateSpec.afterRest audioElementProcessRunning
      false m m := by
  obtain ⟨hopen, hcons, hdead, -⟩ := h
  have hrest : stateSpec.rest none m := ⟨hopen, hcons, hdead, nofun⟩
  have hpresent : m.el.isRunning = true → m.el.taskRun = true := by
    intro hon
    by_contra hoff
    rw [hdead (by simpa using hoff)] at hon
    exact nomatch hon
  refine wp_running (fun _ => ⟨hrest, rfl⟩) (fun _ hon => ?_) fun _ hon s' v hR => ?_
  · exact ⟨⟨hopen, hpresent hon, fun _ => hcons.running.mp hon⟩, rfl⟩
  · -- a running element is not paused by the others
    have hworks : Working m.processing :=
      ⟨⟨hopen, hpresent hon⟩, hon, hcons.running.mp hon, hcons.opened (hcons.running.mp hon)⟩
    have hback := hworks.stable hR
    have hs' : Working (s'.answered v) :=
      ⟨⟨hback.hasOpen, hback.taskRun⟩, hback.isRunning, hback.state, hback.isOpen⟩
    refine processed v hs'.rest hs'.taskRun ?_ ?_ rfl
    · rw [hs'.state]
      decide
    · rw [hs'.state]
      decide

theorem valid : stateSpec.Valid where
  rely_trans h h' := ⟨h.1.trans h'.1, h.2.trans h'.2⟩
  seg_refl _ := rfl
  here_stable := by
    rintro (_ | _ | _ | _) c m m' h hR
    · exact idle_stable h hR
    · exact ⟨hR.1.hasOpen.trans h.1, hR.1.taskRun.trans h.2⟩
    · refine ⟨hR.1.hasOpen.trans h.1, hR.1.taskRun.trans h.2.1, fun hc => ?_⟩
      have hpaused := hR.2
      rw [h.2.2 hc] at hpaused
      exact hpaused.running
    · exact idle_stable h hR
  rest_stable := rest_stable
  idle_stable := idle_stable
  left_stable h hR := ⟨hR.1.hasOpen.trans h.1, hR.1.isRunning.trans h.2⟩
  begin := begin
  cmd h hrun _ _ := cmd _ h hrun
  proc := proc
  leave h hrun := ⟨h.1, h.2.2.1 hrun⟩
  ending := ending

theorem compatible : Compatible stateSpec apiSpec (· ≠ .resetState) where
  task := valid
  calls _ h := wp_api _ h
  task_rely _ h := h
  ctl_rely := by
    intro api o m m' hA h
    refine ⟨h.own, ?_⟩
    have hst := h.state
    cases api with
    | pause => exact hst
    | resetState => exact absurd rfl hA
    | _ => exact Or.inl hst
  note_rely api m := by
    refine ⟨Own.noted api m, Or.inl ?_⟩
    rw [noted_el]

end stateSpec

/-- The place where the task stands shows what `StateConsistent` says. -/
theorem TaskOk.stateConsistent {s : ElSys} (h : TaskOk stateSpec s.task s.m) :
    StateConsistent s where
  between hb := by
    cases ht : s.task with
    | recv | proc =>
      rw [ht] at h
      exact h.2.1
    | _ => rw [ht] at hb; exact hb.elim
  resumed ht := by
    rw [ht] at h
    exact h.2.2.2 rfl
  processing p ht hp := by
    rw [ht] at h
    exact h.1.2.2 hp

/-- **An element with an `open` callback is consistent** in every run without
`audio_element_reset_state`. -/
theorem state_consistent {config : AudioElementCfg} {rings : ℕ → Ringbuf} {s : ElSys}
    (htask : 0 < config.taskStack) (hopen : config.hasOpen = true)
    (h : Lts.Reach ElSys.step (fun _ l => l.Only (· ≠ .resetState))
      (ElSys.ofElement (audioElementInit config) rings) s) : StateConsistent s := by
  have hinit : ElOk stateSpec apiSpec (· ≠ .resetState)
      (ElSys.ofElement (audioElementInit config) rings) := ⟨⟨hopen, rfl⟩, trivial⟩
  have hok : ElOk stateSpec apiSpec (· ≠ .resetState) s := by
    refine hinit.reach stateSpec.compatible (fun hseg => hseg) (hasTask_init htask rings)
      (h.mono ?_)
    rintro s (api | _ | v) hl
    · exact hl
    · trivial
    · exact ⟨⟨Own.refl _, Or.inl rfl⟩, fun _ _ _ _ _ => trivial⟩
  exact hok.1.stateConsistent

/-- An element that is resumed, opens and processes. -/
theorem state_consistent_processing :
    ∃ s, Lts.Reach ElSys.step (fun _ l => l.Only (· ≠ .resetState))
        (ElSys.ofElement (audioElementInit plainCfg) fun _ => Ringbuf.empty 4) s ∧
      s.m.el.state = .running ∧ StateConsistent s := by
  obtain ⟨s, hs⟩ : ∃ s, Lts.run ElSys.step (fun _ l => l.Only (· ≠ .resetState))
      (ElSys.ofElement (audioElementInit plainCfg) fun _ => Ringbuf.empty 4)
      (started ++ [.call (.changeCmd .resume), .task 0, .task 0, .task 0, .task 0, .task 0]) =
        some s :=
    ⟨_, rfl⟩
  have hr := Lts.Reach.of_run _ Lts.Reach.refl hs
  refine ⟨s, hr, ?_, state_consistent (by decide) rfl hr⟩
  obtain rfl := Option.some.inj hs
  rfl

/-- The calls that send the commands `FINISH`, `STOP`, `PAUSE` and `RESUME`. -/
def StateApi : ElApi → Bool
  | .run | .pause | .stop => true
  | .changeCmd cmd => cmd = .finish ∨ cmd = .stop ∨ cmd = .pause ∨ cmd = .resume
  | _ => false

/-- Without an `open` callback the element does not run after a `RESUME` that was handled with
`ESP_OK`. -/
theorem not_state_consistent :
    ¬∀ (config : AudioElementCfg) (rings : ℕ → Ringbuf) (s : ElSys), 0 < config.taskStack →
      Lts.Reach ElSys.step (fun _ l => l.Only (StateApi ·))
        (ElSys.ofElement (audioElementInit config) rings) s → StateConsistent s := by
  intro hall
  obtain ⟨s, hs⟩ : ∃ s, Lts.run ElSys.step (fun _ l => l.Only (StateApi ·))
      (ElSys.ofElement (audioElementInit { plainCfg with hasOpen := false }) fun _ => Ringbuf.empty 4)
      (started ++ [.call (.changeCmd .resume), .task 0, .task 0, .task 0]) = some s :=
    ⟨_, rfl⟩
  have hc := hall _ _ s (by decide) (Lts.Reach.of_run _ Lts.Reach.refl hs)
  obtain rfl := Option.some.inj hs
  exact absurd (hc.resumed rfl) (by decide)

end AudioPipeline
