import AudioPipeline.Element.Equiv.Sys

/-!
# Waiting for the stop of a session

`STOPPED_BIT` is sticky: `audio_element_stop` clears it only when it finds the state
`AEL_STATE_RUNNING`, the `RESUME` handler only after `open` has returned.  So a wait can be
answered by the bit of an earlier session.  `Fresh` says that this cannot happen now: while the
latest session is one that was asked to stop, and runs, the bit is not set.
-/

namespace AudioPipeline

open Prog

/-- The bit does not answer for a session that still runs and was asked to stop. -/
def Fresh (m : Mem) : Prop :=
  m.el.isRunning = true → m.hist.session ≤ m.hist.asked → m.el.stateEvent .stopped = false

/-- The task is inside a command or inside the process step. -/
def Task.Busy : Task → Bool
  | .inCmd _ _ | .inProc _ => true
  | _ => false

/-- The task is inside the `RESUME` handler. -/
def Task.Resuming : Task → Bool
  | .inCmd .resume _ => true
  | _ => false

/-- The task is about to take a command off its queue. -/
def Task.Receives : Task → Bool
  | .recv => true
  | _ => false

/-- The session that was asked to stop has ended: what still goes on belongs to a later one. -/
def ElSys.SessionEnded (s : ElSys) : Prop :=
  s.m.el.isRunning = true ∨ s.task.Busy = true → s.m.hist.asked < s.m.hist.session

/-- `audio_element_wait_for_stop_ms` is right to return `ESP_OK`. -/
def ElSys.WaitSound (s : ElSys) : Prop :=
  s.answered = some (.waitForStopMs, ESP_OK) → s.stopOk = true → s.SessionEnded

/-- The calls of a controlling thread that resumes, stops and waits. -/
def SessionApi : ElApi → Bool
  | .run | .resume _ | .stop | .waitForStopMs => true
  | _ => false

/-- The task, while the others leave the state alone. -/
def sessionSpec : TaskSpec where
  rely _ m m' := Own m m' ∧ m'.el.state = m.el.state
  seg m m' := m'.el.taskStack = m.el.taskStack ∧ m'.el.queue ⊆ m.el.queue ∧ (Fresh m → Fresh m')
  here
    | .begin, _, m | .ending, _, m => m.el.isRunning = false
    | .cmd cmd, _, m => m.el.taskRun = true ∧ (cmd ≠ .resume → m.el.isRunning = true)
    | .proc, _, m => m.el.taskRun = true ∧ m.el.isRunning = true
  rest _ m := (m.el.taskRun = false → m.el.isRunning = false) ∧
    (m.el.isRunning = false → m.el.isOpen = false ∨ m.el.state = .stopped)
  idle m := m.el.isRunning = false ∧ m.el.isOpen = false
  left m := m.el.isRunning = false
  admits cmd m := (cmd = .resume ∨ cmd = .stop) ∧ (cmd = .resume → m.el.isRunning = false →
    m.hist.resumes < m.hist.asked → m.el.stateEvent .stopped = false)

namespace sessionSpec

variable {m m₀ m' : Mem} {P : Option Callback → Mem → Mem → Prop} {o : Option (Callback × ℤ)}
  {queue : List AelCmd}

/-- What the handlers leave behind: the task stays in its loop, and an element that is halted is
closed or stopped. -/
def Held (s₀ s : Mem) : Prop :=
  s.el.taskRun = true ∧ (s.el.isRunning = false → s.el.isOpen = false ∨ s.el.state = .stopped) ∧
    sessionSpec.seg s₀ s

/-- The scheduling points of a handler, which the element is running at. -/
def Inside (P : Option Callback → Mem → Mem → Prop) : Prop :=
  ∀ c s₀ s, Held s₀ s → s.el.isRunning = true → P c s₀ s

theorem inside_cmd (cmd : AelCmd) : Inside (sessionSpec.point (.cmd cmd)) :=
  fun _ _ _ h hon => ⟨⟨h.1, fun _ => hon⟩, h.2.2⟩

theorem inside_proc : Inside (sessionSpec.point .proc) := fun _ _ _ h hon => ⟨⟨h.1, hon⟩, h.2.2⟩

theorem Held.others (h : Held m₀ m) (hR : sessionSpec.rely o m m') : Held m' m' := by
  obtain ⟨hown, hst⟩ := hR
  refine ⟨hown.taskRun.trans h.1, ?_, rfl, List.Subset.refl _, id⟩
  rw [hown.isRunning, hown.isOpen, hst]
  exact h.2.1

/-- A segment that leaves the element halted. -/
theorem seg_off (hstack : m.el.taskStack = m₀.el.taskStack) (hqueue : m.el.queue ⊆ m₀.el.queue)
    (hoff : m.el.isRunning = false) : sessionSpec.seg m₀ m :=
  ⟨hstack, hqueue, fun _ hon => absurd hon (by rw [hoff]; decide)⟩

/-- The end of a handler that halts the element. -/
theorem Held.halt (h : Held m₀ m) (hrun : m'.el.taskRun = m.el.taskRun)
    (hstack : m'.el.taskStack = m.el.taskStack) (hqueue : m'.el.queue = m.el.queue)
    (hoff : m'.el.isRunning = false) (hclosed : m'.el.isOpen = false ∨ m'.el.state = .stopped) :
    Held m₀ m' := by
  have hsub : m'.el.queue ⊆ m₀.el.queue := by
    rw [hqueue]
    exact h.2.2.2.1
  exact ⟨hrun.trans h.1, fun _ => hclosed, seg_off (hstack.trans h.2.2.1) hsub hoff⟩

/-- Only an element that runs is closed, unless it has stopped. -/
theorem closing {Z : Mem → Mem → Prop} (hP : Inside P) (h : Held m₀ m)
    (hst : m.el.state ≠ .stopped) (hZ : ∀ s₀ s, Held s₀ s → s.el.isOpen = false → Z s₀ s) :
    Closing sessionSpec.rely P Z m₀ m where
  call hopen _ := by
    have hon : m.el.isRunning = true := by
      by_contra hoff
      rcases h.2.1 (by simpa using hoff) with hclosed | hstopped
      · rw [hclosed] at hopen
        exact nomatch hopen
      · exact hst hstopped
    exact hP _ m₀ m.closing h hon
  back _ _ s' _ hR := by
    have hclosing : Held m₀ m.closing := h
    obtain ⟨hrun, -, hseg⟩ := hclosing.others hR
    exact hZ s' s'.closed ⟨hrun, fun _ => Or.inl rfl, hseg⟩ rfl
  skip _ := hZ m₀ m.closed ⟨h.1, fun _ => Or.inl rfl, h.2.2⟩ rfl

theorem onCmdStop (hP : Inside P) (h : Held m₀ m) :
    wp sessionSpec.rely P (fun ret _ s₀ s => ret = ESP_OK ∧ s.el.isRunning = false ∧ Held s₀ s)
      audioElementOnCmdStop false m₀ m := by
  refine wp_onCmdStop (fun _ hst => ?_) (fun hoff hst => ?_) (fun _ _ => ?_)
  · exact closing hP h hst fun _ _ h hclosed =>
      ⟨rfl, rfl, h.halt rfl rfl rfl rfl (Or.inl hclosed)⟩
  · exact ⟨rfl, hoff, h⟩
  · exact ⟨rfl, rfl, h.halt rfl rfl rfl rfl (Or.inr rfl)⟩

theorem onCmdFinish (hP : Inside P) (h : Held m₀ m) :
    wp sessionSpec.rely P (fun _ _ => Held) audioElementOnCmdFinish false m₀ m := by
  refine wp_onCmdFinish (fun _ => h) (fun _ hst => ?_)
  exact closing hP h hst fun _ _ h hclosed => h.halt rfl rfl rfl rfl (Or.inl hclosed)

theorem onCmdError (hP : Inside P) (h : Held m₀ m) :
    wp sessionSpec.rely P
      (fun _ _ s₀ s => (m.el.state ≠ .stopped → s.el.isRunning = false) ∧ Held s₀ s)
      audioElementOnCmdError false m₀ m := by
  refine wp_onCmdError (fun hst => ⟨fun hne => absurd hst hne, h⟩) (fun hst => ?_)
  exact closing hP h hst fun _ _ h hclosed =>
    ⟨fun _ => rfl, h.halt rfl rfl rfl rfl (Or.inl hclosed)⟩

theorem idle_stable (h : sessionSpec.idle m) (hR : sessionSpec.rely o m m') : sessionSpec.idle m' :=
  ⟨hR.1.isRunning.trans h.1, hR.1.isOpen.trans h.2⟩

theorem begin (h : sessionSpec.idle m) :
    wp sessionSpec.rely (sessionSpec.point .begin) sessionSpec.afterRest audioElementTaskBegin
      false m { m with el := { m.el with threadCreated := false } } := by
  have hcreated : sessionSpec.idle { m with el := { m.el with threadCreated := false } }.created :=
    h
  have hafter : ∀ s : Mem, sessionSpec.idle s → sessionSpec.rest none s :=
    fun s hidle => ⟨fun _ => hidle.1, fun _ => Or.inl hidle.2⟩
  refine wp_taskBegin ⟨h.1, seg_off rfl (List.Subset.refl _) h.1⟩ (fun s' hR _ => ?_)
    (fun s₁ s' v hR hR' => ?_) (fun s' hR _ => ?_)
  · have hidle : sessionSpec.idle s' := idle_stable hcreated hR
    exact ⟨hidle.1, seg_off rfl (List.Subset.refl _) hidle.1⟩
  · have hreset : sessionSpec.idle s₁.reset := by
      have hidle : sessionSpec.idle s₁ := idle_stable hcreated hR
      exact hidle
    have hidle : sessionSpec.idle s' := idle_stable hreset hR'
    unfold Mem.allocated
    split_ifs
    · exact ⟨hafter _ hidle, seg_off rfl (List.Subset.refl _) hidle.1⟩
    · exact ⟨hafter _ hidle, seg_off rfl (List.Subset.refl _) hidle.1⟩
  · have hidle : sessionSpec.idle s' := idle_stable hcreated hR
    exact ⟨hafter _ hidle, seg_off rfl (List.Subset.refl _) hidle.1⟩

theorem ending (h : sessionSpec.left m) :
    wp sessionSpec.rely (sessionSpec.point .ending) sessionSpec.afterEnd audioElementTaskEnd
      false m m := by
  have hended : ∀ (s : Mem) (st : AelState), s.el.isRunning = false →
      sessionSpec.point .ending none s (s.inState st).ended ∧
        sessionSpec.idle (s.inState st).ended :=
    fun s st hoff => ⟨⟨hoff, seg_off rfl (List.Subset.refl _) hoff⟩, hoff, rfl⟩
  refine wp_taskEnd (J := sessionSpec.idle)
    ⟨fun _ _ => ?_, fun _ _ s' _ hR st _ => ?_, fun _ st _ => ?_⟩ (fun _ s' h hR => ?_)
    (fun _ s' h hR => ?_)
  · exact ⟨h, seg_off rfl (List.Subset.refl _) h⟩
  · exact hended s' st (hR.1.isRunning.trans h)
  · exact hended m st h
  · have hidle : sessionSpec.idle s' := idle_stable h hR
    exact ⟨⟨hidle.1, seg_off rfl (List.Subset.refl _) hidle.1⟩, hidle⟩
  · have hidle : sessionSpec.idle s' := idle_stable h hR
    exact ⟨hidle, seg_off rfl (List.Subset.refl _) hidle.1⟩

/-- The loop goes on with the result of a command. -/
theorem after_cmd {cmd : AelCmd} {ret : ℤ} {b : Bool} (hret : ret ≠ AEL_IO_ABORT)
    (h : Held m₀ m) : sessionSpec.afterCmd cmd ret b m₀ m := by
  refine TaskSpec.afterCmd_of_ne hret ⟨fun hdead => ?_, h.2.1⟩ h.2.2
  exact absurd h.1 (by rw [show m.el.taskRun = false from hdead]; decide)

theorem stop (h : sessionSpec.rest none m) (hrun : m.el.taskRun = true)
    (hq : m.el.queue = .stop :: queue) :
    wp sessionSpec.rely (sessionSpec.point (.cmd .stop)) (sessionSpec.afterCmd .stop)
      (audioElementTaskCmd .stop) false m (Task.receive m .stop queue) := by
  have hsub : queue ⊆ m.el.queue := by
    rw [hq]
    exact List.subset_cons_self _ _
  have hreceive : Held m (Task.receive m .stop queue) := ⟨hrun, h.2, rfl, hsub, id⟩
  refine wp_taskCmd_ok (wp_post _ ?_ (onCmdStop (inside_cmd .stop) hreceive))
  rintro ret b s₀ s ⟨rfl, -, h⟩
  exact ⟨rfl, after_cmd (by decide) h⟩

/-- `audio_element_process_init` keeps the bit clear for a session that was asked to stop, and halts
the element if it leaves the bit set for it. -/
theorem processInit (hP : Inside P) (h : Held m₀ m) (hon : m.el.isRunning = true) :
    wp sessionSpec.rely P
      (fun ret _ s₀ s => ((ret = ESP_OK ∧ s.el.isRunning = true) ∨
        (ret = ESP_FAIL ∧ s.el.isRunning = false)) ∧ Held s₀ s)
      audioElementProcessInit true m₀ m := by
  have hwhile : ∀ s : Mem, s.el.isRunning = true →
      s.el.isRunning = false → s.el.isOpen = false ∨ s.el.state = .stopped :=
    fun s hon hoff => absurd hon (by rw [hoff]; decide)
  refine wp_processInit (hP _ _ _ h hon) (fun s' hR _ => ?_) (fun s' hR _ => ?_)
    (fun s₁ s' v hR _ hR' => ?_)
  · have hon' : s'.el.isRunning = true := hR.1.isRunning.trans hon
    obtain ⟨hrun, -, hseg⟩ := h.others hR
    exact ⟨Or.inl ⟨rfl, hon'⟩, hrun, hwhile _ hon', hseg⟩
  · have hon' : s'.el.isRunning = true := hR.1.isRunning.trans hon
    obtain ⟨hrun, -, hseg⟩ := h.others hR
    exact hP _ s' s'.opening ⟨hrun, hwhile _ hon', hseg⟩ hon'
  · have hon₁ : s₁.el.isRunning = true := hR.1.isRunning.trans hon
    have hopening : Held s₁ s₁.opening := by
      obtain ⟨hrun, -, hseg⟩ := h.others hR
      exact ⟨hrun, hwhile _ hon₁, hseg⟩
    have hon' : s'.el.isRunning = true := hR'.1.isRunning.trans hon₁
    have hst : s'.el.state = .initializing := hR'.2
    obtain ⟨hrun, -, hseg⟩ := hopening.others hR'
    have hheld : ∀ st, Held s' ((s'.opened v).inState st) := fun st => ⟨hrun, hwhile _ hon', hseg⟩
    refine wp_afterOpen (fun _ => ?_) (fun _ => ?_) (fun _ => ?_) (fun _ => ?_)
    · exact ⟨Or.inl ⟨rfl, hon'⟩, hheld .running⟩
    · exact ⟨Or.inl ⟨rfl, hon'⟩, hheld .running⟩
    · have hopened : Held s' (s'.opened v) := ⟨hrun, hwhile _ hon', hseg⟩
      exact wp_post _ (fun _ _ _ _ h => ⟨Or.inr ⟨rfl, h.2.1⟩, h.2.2⟩) (onCmdStop hP hopened)
    · have hfailing : Held s' (s'.opened v).openFailing := hheld .error
      exact wp_post _ (fun _ _ _ _ h => ⟨Or.inr ⟨rfl, h.1 nofun⟩, h.2⟩) (onCmdError hP hfailing)

theorem resume (hrun : m.el.taskRun = true) (hq : m.el.queue = .resume :: queue)
    (hadm : sessionSpec.admits .resume m) :
    wp sessionSpec.rely (sessionSpec.point (.cmd .resume)) (sessionSpec.afterCmd .resume)
      (audioElementTaskCmd .resume) false m (Task.receive m .resume queue) := by
  have hsub : queue ⊆ m.el.queue := by
    rw [hq]
    exact List.subset_cons_self _ _
  -- the session that the command begins finds the bit clear
  have hfresh : Fresh m → Fresh (Task.receive m .resume queue).resumed := by
    intro hfresh _ hasked
    show m.el.stateEvent .stopped = false
    cases hon : m.el.isRunning with
    | true =>
      have hsession : (Task.receive m .resume queue).hist.session = m.hist.session := by
        simp [Task.receive, hon]
      exact hfresh hon (hsession ▸ hasked)
    | false =>
      have hsession : (Task.receive m .resume queue).hist.session = m.hist.resumes + 1 := by
        simp [Task.receive, hon]
      have hle : m.hist.resumes + 1 ≤ m.hist.asked := hsession ▸ hasked
      exact hadm.2 rfl hon hle
  have hresumed : Held m (Task.receive m .resume queue).resumed :=
    ⟨hrun, nofun, rfl, hsub, hfresh⟩
  have hP := inside_cmd .resume
  refine wp_taskCmd (wp_onCmdResume (fun _ => ?_) fun _ rings _ => ?_)
  · exact ⟨fun _ => after_cmd (by decide) hresumed, fun hne => absurd rfl hne⟩
  · have hinit : Held m { (Task.receive m .resume queue).resumed with rings := rings } := hresumed
    refine wp_post _ ?_ (processInit hP hinit rfl)
    rintro ret b s₀ s ⟨hret, h⟩
    refine wp_afterProcessInit (fun hok => ?_) (fun hne => ?_)
    · have hon : s.el.isRunning = true := by
        rcases hret with ⟨-, hon⟩ | ⟨hfail, -⟩
        · exact hon
        · exact absurd (hok.symm.trans hfail) (by decide)
      refine commit_of (J := fun s₀ s => Held s₀ s ∧ s.el.isRunning = true) ⟨h, hon⟩
        (fun s₀ s h => hP none s₀ s h.1 h.2)
        (fun _ s _ h hR => ⟨h.1.others hR, hR.1.isRunning.trans h.2⟩) ?_
      rintro s₀ s ⟨h, hon⟩
      have hunstopped : Held s₀ s.unstopped :=
        ⟨h.1, h.2.1, h.2.2.1, h.2.2.2.1, fun _ _ _ => rfl⟩
      exact ⟨fun _ => after_cmd (by decide) hunstopped, fun hne => absurd rfl hne⟩
    · obtain ⟨rfl, hoff⟩ : ret = ESP_FAIL ∧ s.el.isRunning = false := by
        rcases hret with ⟨hok, -⟩ | hfail
        · exact absurd hok hne
        · exact hfail
      refine commit_of (J := fun s₀ s => Held s₀ s ∧ s.el.isRunning = false) ⟨h, hoff⟩
        (fun s₀ s h => ⟨⟨h.1.1, fun hne => absurd rfl hne⟩, h.1.2.2⟩)
        (fun _ s _ h hR => ⟨h.1.others hR, hR.1.isRunning.trans h.2⟩) ?_
      rintro s₀ s ⟨h, hoff⟩
      have hbit : Held s₀ (s.givenUp.withBit .stopped true) :=
        h.halt rfl rfl rfl rfl (h.2.1 hoff)
      exact ⟨fun heq => absurd heq (by decide), fun _ => after_cmd (b := true) (by decide) hbit⟩

/-- The process callback has returned. -/
theorem processed (processLen : ℤ) (hrun : m.el.taskRun = true) (hon : m.el.isRunning = true)
    (hst : AelState.running.val ≤ m.el.state.val) (hseg : sessionSpec.seg m₀ m) :
    wp sessionSpec.rely (sessionSpec.point .proc) sessionSpec.afterRest
      (audioElementProcessed processLen) false m₀ m := by
  have hheld : ∀ s : Mem, s.el.taskRun = true → s.el.isRunning = true → sessionSpec.seg m₀ s →
      Held m₀ s :=
    fun s hrun hon hseg => ⟨hrun, fun hoff => absurd hon (by rw [hoff]; decide), hseg⟩
  have hafter : ∀ {ret : ℤ} {b s₀ s}, Held s₀ s → sessionSpec.afterRest ret b s₀ s := by
    rintro ret b s₀ s ⟨hrun, hclosed, hseg⟩
    exact ⟨⟨fun hdead => absurd hrun (by rw [hdead]; decide), hclosed⟩, hseg⟩
  have hm := hheld m hrun hon hseg
  refine wp_processed (fun _ _ => hafter hm) (fun _ => ?_) (fun _ hinit => ?_)
    (fun _ _ rings _ => ?_) (fun _ => ?_)
  · exact wp_post _ (fun _ _ _ _ h => hafter h.2.2) (onCmdStop inside_proc hm)
  · rw [hinit] at hst
    exact absurd hst (by decide)
  · exact wp_post _ (fun _ _ _ _ h => hafter h) (onCmdFinish inside_proc (hheld _ hrun hon hseg))
  · exact wp_post _ (fun _ _ _ _ h => hafter h.2) (onCmdError inside_proc (hheld _ hrun hon hseg))

theorem proc {last : Option (AelCmd × ℤ)} (h : sessionSpec.rest last m) :
    wp sessionSpec.rely (sessionSpec.point .proc) sessionSpec.afterRest
      audioElementProcessRunning false m m := by
  have hpresent : m.el.isRunning = true → m.el.taskRun = true := by
    intro hon
    by_contra hoff
    rw [h.1 (by simpa using hoff)] at hon
    exact nomatch hon
  refine wp_running (fun _ => ⟨h, rfl, List.Subset.refl _, id⟩)
    (fun _ hon => ⟨⟨hpresent hon, hon⟩, rfl, List.Subset.refl _, id⟩) fun hst hon s' v hR => ?_
  have hst' : AelState.running.val ≤ s'.el.state.val := by
    rw [show s'.el.state = m.el.state from hR.2]
    exact hst
  exact processed v (hR.1.taskRun.trans (hpresent hon)) (hR.1.isRunning.trans hon) hst'
    ⟨rfl, List.Subset.refl _, id⟩

theorem valid : sessionSpec.Valid where
  rely_trans h h' := ⟨h.1.trans h'.1, h'.2.trans h.2⟩
  seg_refl _ := ⟨rfl, List.Subset.refl _, id⟩
  here_stable := by
    rintro (_ | _ | _ | _) c m m' h ⟨hR, -⟩
    · exact hR.isRunning.trans h
    · exact ⟨hR.taskRun.trans h.1, fun hc => hR.isRunning.trans (h.2 hc)⟩
    · exact ⟨hR.taskRun.trans h.1, hR.isRunning.trans h.2⟩
    · exact hR.isRunning.trans h
  rest_stable := by
    rintro last m m' ⟨hdead, hclosed⟩ ⟨hR, hst⟩
    refine ⟨?_, ?_⟩
    · rw [hR.isRunning, hR.taskRun]
      exact hdead
    · rw [hR.isRunning, hR.isOpen, hst]
      exact hclosed
  idle_stable h hR := idle_stable h hR
  left_stable h hR := hR.1.isRunning.trans h
  begin := begin
  cmd := by
    rintro m cmd queue h hrun hq hadm
    obtain rfl | rfl := hadm.1
    · exact resume hrun hq hadm
    · exact stop h hrun hq
  proc := proc
  leave h hrun := h.1 hrun
  ending := ending

end sessionSpec

/-- A task that is not there to handle commands has halted the element. -/
theorem TaskOk.halted {t : Task} {m : Mem} (h : TaskOk sessionSpec t m)
    (hrun : m.el.taskRun = false) : m.el.isRunning = false := by
  cases t with
  | absent => exact h.1
  | leave => exact h
  | begin | ending => exact h.1
  | recv | proc => exact h.1 hrun
  | inCmd | inProc => exact absurd hrun (by rw [show m.el.taskRun = true from h.1.1]; decide)

/-! ### The calls -/

/-- `audio_element_wait_for_stop_ms` returns `ESP_OK` for what it read. -/
def waitSpec : CtlSpec where
  pre _ := HasTask
  rely _ _ m' := HasTask m'
  seg api o m m' := ApiSeg api m m' ∧ (api = .waitForStopMs → o = some ESP_OK →
    m'.el.isRunning = false ∨ m'.el.stateEvent .stopped = true)

theorem wp_wait_answer {m : Mem} :
    wp (fun _ _ => HasTask) (fun _ _ _ => True)
      (fun v _ _ s => v = ESP_OK → s.el.isRunning = false ∨ s.el.stateEvent .stopped = true)
      audioElementWaitForStopMs false m m := by
  -- without the bit the answer is `ESP_ERR_TIMEOUT`
  have hanswer : ∀ s : Mem,
      (if s.el.stateEvent .stopped then ESP_OK else ESP_ERR_TIMEOUT) = ESP_OK →
      s.el.stateEvent .stopped = true := by
    intro s hv
    by_contra hno
    rw [if_neg hno] at hv
    exact absurd hv (by decide)
  refine wp_elementWaitForStopMs (fun hoff _ => Or.inl hoff)
    (fun _ => ⟨fun hbit _ => ?_, fun _ => ?_⟩)
  · exact Or.inr hbit
  · exact ⟨trivial, fun s' _ hv => Or.inr (hanswer s' hv)⟩

/-- **Every call** does what `waitSpec` says. -/
theorem wp_api_wait {api : ElApi} {m : Mem} (h : HasTask m) :
    wp (fun _ => waitSpec.rely api) (fun _ => waitSpec.seg api none)
      (fun v _ => waitSpec.seg api (some v)) api.prog false m m := by
  have hseg := wp_api api h
  by_cases hwait : api = .waitForStopMs
  · subst hwait
    refine wp_mono _ (fun _ _ _ hR => hR) ?_ ?_ (wp_and _ hseg wp_wait_answer)
    · intro _ s₀ s hP
      exact ⟨hP.1, fun _ hv => nomatch hv⟩
    · intro v _ s₀ s hQ
      exact ⟨hQ.1, fun _ hv => hQ.2 (Option.some.inj hv)⟩
  · refine wp_mono _ (fun _ _ _ hR => hR) ?_ ?_ hseg
    · intro _ s₀ s hP
      exact ⟨hP, fun hs => absurd hs hwait⟩
    · intro v _ s₀ s hQ
      exact ⟨hQ, fun hs => absurd hs hwait⟩

/-- The first segment of `audio_element_stop` clears the bit of an element that is `RUNNING`. -/
theorem wp_stop_clears {m : Mem} :
    wp (fun _ _ _ => False)
      (fun _ s₀ s => s₀.el.taskRun = true → s₀.el.isRunning = true → s₀.el.state = .running →
        s.el.stateEvent .stopped = false)
      (fun _ _ s₀ s => s₀.el.taskRun = true → s₀.el.isRunning = true → s₀.el.state = .running →
        s.el.stateEvent .stopped = false) audioElementStop false m m := by
  refine wp_elementStop (fun hdead hon => ?_) (fun _ hoff => ⟨fun _ hon => ?_, fun _ hR => hR.elim⟩)
    (fun _ _ _ => ⟨fun _ _ _ => rfl, fun _ hR => hR.elim⟩) (fun _ _ hne => ?_)
  · exact absurd hon (by rw [hdead]; decide)
  · exact absurd hon (by rw [hoff]; decide)
  · exact wp_afterAbort (fun _ => ⟨fun _ _ hst => absurd hst hne, fun _ hR => hR.elim⟩)
      (fun _ _ _ _ _ hst => absurd hst hne) (fun _ _ _ _ _ hst => absurd hst hne)
      (fun _ _ _ _ _ _ hst => absurd hst hne)

theorem sessionSpec.compatible : Compatible sessionSpec waitSpec (SessionApi ·) where
  task := sessionSpec.valid
  calls _ h := wp_api_wait h
  task_rely _ h := h
  ctl_rely := by
    rintro api o m m' hA ⟨h, -⟩
    refine ⟨h.own, ?_⟩
    have hst := h.state
    cases api with
    | pause | resetState | changeCmd | terminate => exact nomatch hA
    | _ => exact hst
  note_rely api m := by
    refine ⟨Own.noted api m, ?_⟩
    rw [noted_el]

/-- No call sets the bit while the element runs. -/
theorem ApiSeg.fresh {api : ElApi} {m m' : Mem} (h : ApiSeg api m m') (hf : Fresh m) :
    Fresh m' := by
  intro hrun hasked
  rw [h.own.isRunning] at hrun
  rw [h.hist] at hasked
  rcases h.stopped with hst | hst | hst
  · rw [hst]
    exact hf hrun hasked
  · exact hst
  · rw [hrun] at hst
    exact nomatch hst

/-! ### Runs -/

/-- What a stale bit, or a handler that has not finished, would need to answer a wait does not come
about: `audio_element_stop` finds the bit clear if it finds the element running in a state other
than `RUNNING`; a `RESUME` that was asked to stop before it was received finds the bit clear; and
the wait does not look while the `RESUME` handler of such a session is still to return and has
halted the element already. -/
def ElSys.NotStale (s : ElSys) : ElLabel → Prop
  | .call .stop => s.m.el.isRunning = true → s.m.el.state ≠ .running →
    s.m.el.stateEvent .stopped = false
  | .call .waitForStopMs => s.task.Resuming = true → s.m.hist.session ≤ s.m.hist.asked →
    s.m.el.isRunning = true
  | .ctl => s.ctl.api = some .waitForStopMs → s.task.Resuming = true →
    s.m.hist.session ≤ s.m.hist.asked → s.m.el.isRunning = true
  | .task _ => s.task.Receives = true → s.m.el.taskRun = true →
    s.m.el.queue.head? = some .resume → s.m.el.isRunning = false →
    s.m.hist.resumes < s.m.hist.asked → s.m.el.stateEvent .stopped = false
  | .call _ => True

instance (s : ElSys) : ∀ l, Decidable (s.NotStale l)
  | .call .stop => inferInstanceAs (Decidable (s.m.el.isRunning = true →
      s.m.el.state ≠ .running → s.m.el.stateEvent .stopped = false))
  | .call .waitForStopMs => inferInstanceAs (Decidable (s.task.Resuming = true →
      s.m.hist.session ≤ s.m.hist.asked → s.m.el.isRunning = true))
  | .ctl => inferInstanceAs (Decidable (s.ctl.api = some .waitForStopMs →
      s.task.Resuming = true → s.m.hist.session ≤ s.m.hist.asked → s.m.el.isRunning = true))
  | .task _ => inferInstanceAs (Decidable (s.task.Receives = true → s.m.el.taskRun = true →
      s.m.el.queue.head? = some .resume → s.m.el.isRunning = false →
      s.m.hist.resumes < s.m.hist.asked → s.m.el.stateEvent .stopped = false))
  | .call .run | .call .pause | .call (.resume _) | .call (.changeCmd _) | .call .resetState
  | .call .terminate => inferInstanceAs (Decidable True)

/-- What every reached state satisfies. -/
structure WaitInv (s : ElSys) : Prop where
  ok : ElOk sessionSpec waitSpec (SessionApi ·) s
  hasTask : HasTask s.m
  queue : ∀ cmd ∈ s.m.el.queue, cmd = .resume ∨ cmd = .stop
  fresh : Fresh s.m
  sound : s.WaitSound

/-- A wait that returns `ESP_OK` has seen no session that was asked to stop. -/
theorem Called.waitSound {api : ElApi} {s s' : ElSys} {o : Option ℤ}
    (h : Called waitSpec api s s' o) (hok : TaskOk sessionSpec s'.task s'.m) (hf : Fresh s'.m)
    (hlate : api = .waitForStopMs → s'.task.Resuming = true →
      s'.m.hist.session ≤ s'.m.hist.asked → s'.m.el.isRunning = true) : s'.WaitSound := by
  intro hans _ hactive
  rw [h.answered] at hans
  obtain ⟨rfl, rfl⟩ : o = some ESP_OK ∧ api = .waitForStopMs := by
    cases o with
    | none => exact nomatch hans
    | some v =>
      obtain ⟨rfl, rfl⟩ := Prod.mk.inj (Option.some.inj hans)
      exact ⟨rfl, rfl⟩
  by_contra hle
  have hasked : s'.m.hist.session ≤ s'.m.hist.asked := Nat.le_of_not_lt hle
  -- the element runs: while it is busy outside the RESUME handler, by the place of the task
  have hrun : s'.m.el.isRunning = true := by
    rcases hactive with hrun | hbusy
    · exact hrun
    · cases ht : s'.task with
      | inProc p => rw [ht] at hok; exact hok.1.2
      | inCmd cmd p =>
        rw [ht] at hok hlate
        by_cases hcmd : cmd = .resume
        · subst hcmd
          exact hlate rfl rfl hasked
        · exact hok.1.2 hcmd
      | _ => rw [ht] at hbusy; exact nomatch hbusy
  have hclear := hf hrun hasked
  rcases h.seg.2 rfl rfl with hno | hset
  · rw [hrun] at hno
    exact nomatch hno
  · rw [hclear] at hset
    exact nomatch hset

/-- The calls in question send `RESUME` and `STOP` only. -/
theorem ApiSeg.queue_session {api : ElApi} {m m' : Mem} (h : ApiSeg api m m')
    (hapi : SessionApi api = true) (hq : ∀ cmd ∈ m.el.queue, cmd = .resume ∨ cmd = .stop) :
    ∀ cmd ∈ m'.el.queue, cmd = .resume ∨ cmd = .stop := by
  rcases h.queue with hqueue | ⟨cmd, hsend, hqueue⟩ | ⟨_, hqueue⟩
  · rw [hqueue]
    exact hq
  · rw [hqueue]
    intro cmd' hmem
    rcases List.mem_append.mp hmem with hmem | hmem
    · exact hq cmd' hmem
    · obtain rfl := List.mem_singleton.mp hmem
      cases api with
      | resume => exact Or.inl hsend
      | stop => exact Or.inr hsend
      | run | waitForStopMs => exact hsend.elim
      | pause | changeCmd | resetState | terminate => exact nomatch hapi
  · rw [hqueue]
    exact nofun

/-- The memory after the first segment of a call. -/
theorem ElSys.step_call_m {s s' : ElSys} {api : ElApi} (hs : s.step (.call api) = some s') :
    s'.m = (api.prog.resume false (s.noteCall api).m).1 := by
  rcases hc : s.ctl with _ | ⟨api', p⟩
  · simp only [ElSys.step, hc, Option.some.injEq] at hs
    rw [← hs]
    unfold ElSys.afterCtl
    split <;> rfl
  · simp [ElSys.step, hc] at hs

/-- **A call of `audio_element_stop` leaves no stale bit.** -/
theorem fresh_stop {s s' : ElSys} (hs : s.step (.call .stop) = some s')
    (hseg : ApiSeg .stop (s.noteCall .stop).m s'.m)
    (hdead : s.m.el.taskRun = false → s.m.el.isRunning = false)
    (hclear : s.m.el.isRunning = true → s.m.el.state ≠ .running →
      s.m.el.stateEvent .stopped = false) : Fresh s'.m := by
  intro hrun _
  have hnoted : (s.noteCall .stop).m.el = s.m.el := noted_el .stop s.m
  have hrun' : s.m.el.isRunning = true := by
    rw [hseg.own.isRunning, hnoted] at hrun
    exact hrun
  by_cases hst : s.m.el.state = .running
  · have hfirst := (Point.ends_resume audioElementStop (@wp_stop_clears (s.noteCall .stop).m)).1
    have htask : s.m.el.taskRun = true := by
      by_contra hno
      rw [hdead (by simpa using hno)] at hrun'
      exact nomatch hrun'
    rw [show (audioElementStop.resume false (s.noteCall .stop).m).1 = s'.m from
      (ElSys.step_call_m hs).symm] at hfirst
    have hcleared := hfirst.same
    rw [hnoted] at hcleared
    exact hcleared htask hrun' hst
  · rcases hseg.stopped with hsame | hoff | hno
    · rw [hsame, hnoted]
      exact hclear hrun' hst
    · exact hoff
    · rw [hnoted, hrun'] at hno
      exact nomatch hno

theorem WaitInv.step {s s' : ElSys} {l : ElLabel} (h : WaitInv s)
    (hl : l.Only (SessionApi ·) ∧ s.NotStale l) (hs : s.step l = some s') : WaitInv s' := by
  cases l with
  | call api =>
    have hnoted : (s.noteCall api).m.el = s.m.el := noted_el api s.m
    have ⟨hok, o, hc⟩ := h.ok.call sessionSpec.compatible hl.1 (h.hasTask.noteCall api) hs
    -- a stop with a session going on clears the bit, and no other call touches the history
    have hf : Fresh s'.m := by
      by_cases hstop : api = .stop
      · subst hstop
        exact fresh_stop hs hc.seg.1 h.ok.1.halted hl.2
      · have hn : (s.noteCall api).m = s.m := if_neg hstop
        refine hc.seg.1.fresh ?_
        rw [hn]
        exact h.fresh
    refine ⟨hok, ?_, ?_, hf, hc.waitSound hok.1 hf ?_⟩
    · unfold HasTask
      rw [hc.seg.1.taskStack]
      exact h.hasTask.noteCall api
    · refine hc.seg.1.queue_session hl.1 ?_
      rw [hnoted]
      exact h.queue
    · rintro rfl hres hle
      rw [hc.task] at hres
      rw [hc.seg.1.hist] at hle
      rw [hc.seg.1.own.isRunning]
      exact hl.2 hres hle
  | ctl =>
    have ⟨hok, api, p, o, hctl, hapi, hc⟩ := h.ok.ctl sessionSpec.compatible
      (fun _ _ _ => h.hasTask) hs
    have hf : Fresh s'.m := hc.seg.1.fresh h.fresh
    refine ⟨hok, ?_, hc.seg.1.queue_session hapi h.queue, hf, hc.waitSound hok.1 hf ?_⟩
    · unfold HasTask
      rw [hc.seg.1.taskStack]
      exact h.hasTask
    · rintro rfl hres hle
      rw [hc.task] at hres
      rw [hc.seg.1.hist] at hle
      rw [hc.seg.1.own.isRunning]
      exact hl.2 (congrArg Ctl.api hctl) hres hle
  | task v =>
    -- the handler of a command is admitted if no bit of an earlier session is set
    have hadm : ∀ cmd queue, s.task = .recv → s.m.el.taskRun = true →
        s.m.el.queue = cmd :: queue → sessionSpec.admits cmd s.m := by
      intro cmd queue ht hrun hq
      refine ⟨h.queue cmd (hq ▸ List.mem_cons_self), ?_⟩
      rintro rfl hhalt hlate
      exact hl.2 (by rw [ht]; rfl) hrun (by rw [hq]; rfl) hhalt hlate
    have ⟨hok, hran⟩ := h.ok.task sessionSpec.compatible ⟨Own.refl _, rfl⟩ hadm hs
    refine ⟨hok, ?_, fun cmd hmem => h.queue cmd (hran.seg.2.1 hmem), hran.seg.2.2 h.fresh, ?_⟩
    · unfold HasTask
      rw [hran.seg.1]
      exact h.hasTask
    · intro hans
      rw [hran.answered] at hans
      exact nomatch hans

/-- **A wait that returns `ESP_OK` is right** in every run without a stale bit: the session that was
asked to stop has ended. -/
theorem wait_sound {config : AudioElementCfg} {rings : ℕ → Ringbuf} {s : ElSys}
    (htask : 0 < config.taskStack)
    (h : Lts.Reach ElSys.step (fun s l => l.Only (SessionApi ·) ∧ s.NotStale l)
      (ElSys.ofElement (audioElementInit config) rings) s) : s.WaitSound := by
  have hinv : WaitInv s := by
    refine h.invariant (I := WaitInv) ?_ fun _ _ _ hi hl hs => hi.step hl hs
    exact ⟨⟨⟨rfl, rfl⟩, trivial⟩, hasTask_init htask rings, nofun, nofun, nofun⟩
  exact hinv.sound

/-- A session is stopped while it processes, and the wait sees it end. -/
theorem wait_sound_session :
    ∃ s, Lts.Reach ElSys.step (fun s l => l.Only (SessionApi ·) ∧ s.NotStale l)
        (ElSys.ofElement (audioElementInit plainCfg) fun _ => Ringbuf.empty 4) s ∧
      s.answered = some (.waitForStopMs, ESP_OK) ∧ s.stopOk = true ∧ s.m.hist.session = 1 ∧
      s.WaitSound := by
  obtain ⟨s, hs⟩ : ∃ s, Lts.run ElSys.step (fun s l => l.Only (SessionApi ·) ∧ s.NotStale l)
      (ElSys.ofElement (audioElementInit plainCfg) fun _ => Ringbuf.empty 4)
      (started ++ [.call (.resume 0), .ctl, .task 0, .ctl, .ctl, .task 0, .task 0, .task 0, .task 0,
        .call .stop, .ctl, .call .waitForStopMs, .task 1, .task 0, .task 0, .ctl]) = some s :=
    ⟨_, rfl⟩
  have hr := Lts.Reach.of_run _ Lts.Reach.refl hs
  refine ⟨s, hr, ?_, ?_, ?_, wait_sound (by decide) hr⟩
  all_goals
    obtain rfl := Option.some.inj hs
    rfl

/-- The bit is left over from a call of `audio_element_stop` before the session.  The session is
asked to stop while it is still in `open`, and the wait returns at once. -/
theorem wait_unsound :
    ¬∀ (config : AudioElementCfg) (rings : ℕ → Ringbuf) (s : ElSys), 0 < config.taskStack →
      Lts.Reach ElSys.step (fun _ l => l.Only (SessionApi ·))
        (ElSys.ofElement (audioElementInit config) rings) s → s.WaitSound := by
  intro hall
  obtain ⟨s, hs⟩ : ∃ s, Lts.run ElSys.step (fun _ l => l.Only (SessionApi ·))
      (ElSys.ofElement (audioElementInit plainCfg) fun _ => Ringbuf.empty 4)
      (started ++ [.call .stop, .ctl, .call (.resume 0), .ctl, .task 0, .ctl, .ctl, .task 0,
        .call .stop, .call .waitForStopMs]) = some s :=
    ⟨_, rfl⟩
  have hsound := hall _ _ s (by decide) (Lts.Reach.of_run _ Lts.Reach.refl hs)
  obtain rfl := Option.some.inj hs
  exact absurd (hsound rfl rfl (Or.inl rfl)) (by decide)

/-- No bit is stale here: the session is asked to stop while it is in `open`, which fails.  The wait
returns when the handler has set `is_running` to false, and before it has returned itself. -/
theorem wait_unsound_in_resume :
    ¬∀ (config : AudioElementCfg) (rings : ℕ → Ringbuf) (s : ElSys), 0 < config.taskStack →
      Lts.Reach ElSys.step (fun s l => l.Only (SessionApi ·) ∧
          (l ≠ .ctl → l ≠ .call .waitForStopMs → s.NotStale l))
        (ElSys.ofElement (audioElementInit config) rings) s → s.WaitSound := by
  intro hall
  obtain ⟨s, hs⟩ : ∃ s, Lts.run ElSys.step (fun s l => l.Only (SessionApi ·) ∧
        (l ≠ .ctl → l ≠ .call .waitForStopMs → s.NotStale l))
      (ElSys.ofElement (audioElementInit plainCfg) fun _ => Ringbuf.empty 4)
      (started ++ [.call (.resume 0), .ctl, .task 0, .ctl, .ctl, .task 0, .call .stop, .task (-1),
        .task 0, .call .waitForStopMs]) = some s :=
    ⟨_, rfl⟩
  have hsound := hall _ _ s (by decide) (Lts.Reach.of_run _ Lts.Reach.refl hs)
  obtain rfl := Option.some.inj hs
  exact absurd (hsound rfl rfl (Or.inr rfl)) (by decide)

end AudioPipeline
