import AudioPipeline.Element.Equiv.Sys

/-!
# A stop request and the commands around it

`audio_element_stop` answers from `is_running` and `stopping`, which the task writes when it
handles a command, so they lag behind the queue.  What the queue still holds decides: `Quiet` says
that the commands not handled yet leave the element halted even if every `open` succeeds.  The task
keeps that in each of its segments, and so does every call that does not ask for a resume.  A call
of `audio_element_stop` that returns `ESP_OK` establishes it by the `STOP` it sends; where it sends
none it must find it.
-/

namespace AudioPipeline

open Prog

/-- Whether the element runs after a command, if its `open` succeeds. -/
def AelCmd.runs : AelCmd → Bool → Bool
  | .resume, _ => true
  | .stop, _ | .pause, _ | .destroy, _ => false
  | .finish, b | .other, b => b

/-- Whether the element runs after the commands of a queue. -/
def willRun (b : Bool) (queue : List AelCmd) : Bool := queue.foldl (fun b cmd => cmd.runs b) b

/-- Whether the element runs after the command in hand. -/
def stillRuns (handling : Option AelCmd) (isRunning : Bool) : Bool :=
  match handling with
  | some .stop | some .pause | some .destroy => false
  | _ => isRunning

/-- The commands that the task has not finished leave the element halted. -/
def Quiet (m : Mem) : Prop :=
  willRun (stillRuns m.hist.handling m.el.isRunning) m.el.queue = false

instance (m : Mem) : Decidable (Quiet m) := inferInstanceAs (Decidable (_ = false))

@[simp] theorem willRun_nil (b : Bool) : willRun b [] = b := rfl

@[simp] theorem willRun_cons (b : Bool) (cmd : AelCmd) (queue : List AelCmd) :
    willRun b (cmd :: queue) = willRun (cmd.runs b) queue := rfl

@[simp] theorem willRun_concat (b : Bool) (cmd : AelCmd) (queue : List AelCmd) :
    willRun b (queue ++ [cmd]) = cmd.runs (willRun b queue) := by
  simp [willRun]

/-- A halted element is no more likely to run than any. -/
theorem willRun_false {b : Bool} {queue : List AelCmd} (h : willRun b queue = false) :
    willRun false queue = false := by
  induction queue generalizing b with
  | nil => rfl
  | cons cmd queue ih =>
    rw [willRun_cons] at h ⊢
    cases cmd with
    | resume | stop | pause | destroy => exact h
    | finish | other => exact ih h

theorem stillRuns_off (handling : Option AelCmd) : stillRuns handling false = false := by
  unfold stillRuns
  split <;> rfl

/-- A halted element is as quiet as the commands in its queue. -/
theorem Quiet.of_off {m m' : Mem} (hq : Quiet m) (hqueue : m'.el.queue = m.el.queue)
    (hoff : m'.el.isRunning = false) : Quiet m' := by
  unfold Quiet at hq ⊢
  rw [hqueue, hoff, stillRuns_off]
  exact willRun_false hq

/-- The task receives a command. -/
theorem Quiet.receive {m : Mem} {cmd : AelCmd} {queue : List AelCmd} (hq : Quiet m)
    (hhand : m.hist.handling = none) (hqueue : m.el.queue = cmd :: queue) :
    Quiet (Task.receive m cmd queue) := by
  unfold Quiet at hq ⊢
  rw [hhand, hqueue, willRun_cons] at hq
  cases cmd with
  | stop | pause | destroy | finish | other => exact hq
  | resume =>
    show willRun m.el.isRunning queue = false
    cases m.el.isRunning with
    | true => exact hq
    | false => exact willRun_false hq

/-- The task has handled it. -/
theorem Quiet.handled {m : Mem} (hq : Quiet m)
    (h : m.el.isRunning = false ∨ stillRuns m.hist.handling m.el.isRunning = m.el.isRunning) :
    Quiet (Task.handled m) := by
  rcases h with hoff | hsame
  · exact hq.of_off rfl hoff
  · unfold Quiet at hq ⊢
    rw [hsame] at hq
    exact hq

/-- **No call but a resume request disturbs it.** -/
theorem ApiSeg.quiet {api : ElApi} {m m' : Mem} (h : ApiSeg api m m')
    (hapi : ElSys.IssuesResume api = false) (hdead : m.el.taskRun = false → m.el.isRunning = false)
    (hq : Quiet m) : Quiet m' := by
  unfold Quiet at hq ⊢
  rw [h.own.handling, h.own.isRunning]
  rcases h.queue with hqueue | ⟨cmd, hsend, hqueue⟩ | ⟨hrun, hqueue⟩
  · rw [hqueue]
    exact hq
  · rw [hqueue, willRun_concat, hq]
    cases cmd with
    | resume =>
      exfalso
      rcases api with _ | _ | _ | _ | _ | cmd | _
      case changeCmd =>
        obtain rfl : AelCmd.resume = cmd := hsend
        exact nomatch hapi
      all_goals exact nomatch hapi, hsend
    | _ => rfl
  · rw [hqueue, hdead hrun, willRun_nil]
    exact stillRuns_off _

/-- The task keeps `Quiet`. -/
def quietSpec : TaskSpec where
  rely _ := Own
  seg m m' := m'.el.taskStack = m.el.taskStack ∧ (Quiet m → Quiet m')
  here
    | .begin, _, m | .ending, _, m => m.el.isRunning = false
    | .cmd _, _, m | .proc, _, m => m.el.taskRun = true
  rest _ m := m.hist.handling = none ∧ (m.el.taskRun = false → m.el.isRunning = false)
  idle m := m.hist.handling = none ∧ m.el.isRunning = false
  left m := m.hist.handling = none ∧ m.el.isRunning = false
  admits _ _ := True

namespace quietSpec

variable {m m₀ m' : Mem} {P : Option Callback → Mem → Mem → Prop}

/-- What the handlers leave behind: the task stays in its loop, with the command in hand. -/
def Keeps (inHand : Option AelCmd) (s₀ s : Mem) : Prop :=
  s.el.taskRun = true ∧ s.hist.handling = inHand ∧ quietSpec.seg s₀ s

variable {inHand : Option AelCmd}

/-- The scheduling points inside a command and inside the process step. -/
def Inside (P : Option Callback → Mem → Mem → Prop) : Prop :=
  ∀ c inHand s₀ s, Keeps inHand s₀ s → P c s₀ s

theorem inside_cmd (cmd : AelCmd) : Inside (quietSpec.point (.cmd cmd)) :=
  fun _ _ _ _ h => ⟨h.1, h.2.2⟩

theorem inside_proc : Inside (quietSpec.point .proc) := fun _ _ _ _ h => ⟨h.1, h.2.2⟩

theorem Keeps.others (h : Keeps inHand m₀ m) (hown : Own m m') : Keeps inHand m' m' :=
  ⟨hown.taskRun.trans h.1, hown.handling.trans h.2.1, rfl, id⟩

/-- An action behind a handler. -/
theorem Keeps.commit {K : Mem → Mem → Prop} {b : Bool} (hP : Inside P) (h : Keeps inHand m₀ m)
    (hK : ∀ s₀ s, Keeps inHand s₀ s → K s₀ s) : Prog.commit quietSpec.rely P K b m₀ m :=
  commit_of h (fun _ _ => hP none inHand _ _) (fun _ _ _ h hR => h.others hR) hK

/-- The end of a handler that halts the element. -/
theorem Keeps.halt (h : Keeps inHand m₀ m) (hrun : m'.el.taskRun = m.el.taskRun)
    (hhand : m'.hist.handling = m.hist.handling) (hstack : m'.el.taskStack = m.el.taskStack)
    (hqueue : m'.el.queue = m.el.queue) (hoff : m'.el.isRunning = false) : Keeps inHand m₀ m' :=
  ⟨hrun.trans h.1, hhand.trans h.2.1, hstack.trans h.2.2.1,
    fun hq => (h.2.2.2 hq).of_off hqueue hoff⟩

theorem closing {Z : Mem → Mem → Prop} (hP : Inside P) (h : Keeps inHand m₀ m)
    (hZ : ∀ s₀ s, Keeps inHand s₀ s → Z s₀ s) : Closing quietSpec.rely P Z m₀ m where
  call _ _ := hP _ inHand m₀ m.closing h
  back _ _ s' _ hR := by
    have hclosing : Keeps inHand m₀ m.closing := h
    have hs' : Keeps inHand s' s' := hclosing.others hR
    exact hZ s' s'.closed hs'
  skip _ := hZ m₀ m.closed h

theorem stop (hP : Inside P) (h : Keeps inHand m₀ m) :
    wp quietSpec.rely P
      (fun ret _ s₀ s => ret = ESP_OK ∧ s.el.isRunning = false ∧ Keeps inHand s₀ s)
      audioElementOnCmdStop false m₀ m := by
  refine wp_onCmdStop (fun _ _ => ?_) (fun hoff _ => ?_) (fun _ _ => ?_)
  · exact closing hP h fun _ _ h => ⟨rfl, rfl, h.halt rfl rfl rfl rfl rfl⟩
  · exact ⟨rfl, hoff, h⟩
  · exact ⟨rfl, rfl, h.halt rfl rfl rfl rfl rfl⟩

theorem finish (hP : Inside P) (h : Keeps inHand m₀ m) :
    wp quietSpec.rely P (fun ret _ s₀ s => ret = ESP_OK ∧ Keeps inHand s₀ s)
      audioElementOnCmdFinish false m₀ m := by
  refine wp_onCmdFinish (fun _ => ⟨rfl, h⟩) (fun _ _ => ?_)
  exact closing hP h fun _ _ h => ⟨rfl, h.halt rfl rfl rfl rfl rfl⟩

theorem error (hP : Inside P) (h : Keeps inHand m₀ m) :
    wp quietSpec.rely P (fun ret _ s₀ s => ret = ESP_OK ∧ Keeps inHand s₀ s)
      audioElementOnCmdError false m₀ m := by
  refine wp_onCmdError (fun _ => ⟨rfl, h⟩) (fun _ => ?_)
  exact closing hP h fun _ _ h => ⟨rfl, h.halt rfl rfl rfl rfl rfl⟩

theorem pause (hP : Inside P) (h : Keeps inHand m₀ m) :
    wp quietSpec.rely P
      (fun ret _ s₀ s => ret = ESP_OK ∧ s.el.isRunning = false ∧ Keeps inHand s₀ s)
      (audioElementOnCmd .pause) false m₀ m := by
  have hpaused : Keeps inHand m₀ (m.inState .paused) := h
  exact wp_onCmdPause (closing hP hpaused fun _ _ h => ⟨rfl, rfl, h.halt rfl rfl rfl rfl rfl⟩)

theorem idle_stable (h : quietSpec.idle m) (hown : Own m m') : quietSpec.idle m' :=
  ⟨hown.handling.trans h.1, hown.isRunning.trans h.2⟩

/-- A segment of a task that has halted the element. -/
theorem seg_off {s₀ s : Mem} (hstack : s.el.taskStack = s₀.el.taskStack)
    (hqueue : s.el.queue = s₀.el.queue) (hoff : s.el.isRunning = false) : quietSpec.seg s₀ s :=
  ⟨hstack, fun hq => hq.of_off hqueue hoff⟩

theorem begin (h : quietSpec.idle m) :
    wp quietSpec.rely (quietSpec.point .begin) quietSpec.afterRest audioElementTaskBegin
      false m { m with el := { m.el with threadCreated := false } } := by
  have hcreated : quietSpec.idle { m with el := { m.el with threadCreated := false } }.created := h
  refine wp_taskBegin ⟨h.2, rfl, id⟩ (fun s' hR _ => ?_) (fun s₁ s' v hR hR' => ?_)
    (fun s' hR _ => ?_)
  · have hidle : quietSpec.idle s' := idle_stable hcreated hR
    exact ⟨hidle.2, rfl, id⟩
  · have hreset : quietSpec.idle s₁.reset := by
      have hidle : quietSpec.idle s₁ := idle_stable hcreated hR
      exact hidle
    have hidle : quietSpec.idle s' := idle_stable hreset hR'
    unfold Mem.allocated
    split_ifs
    · exact ⟨⟨hidle.1, fun _ => hidle.2⟩, seg_off rfl rfl hidle.2⟩
    · exact ⟨⟨hidle.1, fun _ => hidle.2⟩, seg_off rfl rfl hidle.2⟩
  · have hidle : quietSpec.idle s' := idle_stable hcreated hR
    exact ⟨⟨hidle.1, fun _ => hidle.2⟩, seg_off rfl rfl hidle.2⟩

theorem ending (h : quietSpec.left m) :
    wp quietSpec.rely (quietSpec.point .ending) quietSpec.afterEnd audioElementTaskEnd
      false m m := by
  have hidle : quietSpec.idle m.closing := h
  refine wp_taskEnd (J := quietSpec.idle) ⟨fun _ _ => ⟨h.2, rfl, id⟩, fun _ _ s' _ hR _ _ => ?_,
    fun _ _ _ => ?_⟩ (fun _ s' h hR => ?_) (fun _ s' h hR => ?_)
  · have hback : quietSpec.idle s' := idle_stable hidle hR
    exact ⟨⟨hback.2, seg_off rfl rfl hback.2⟩, hback⟩
  · exact ⟨⟨h.2, seg_off rfl rfl h.2⟩, h⟩
  · have hback : quietSpec.idle s' := idle_stable h hR
    exact ⟨⟨hback.2, seg_off rfl rfl hback.2⟩, hback⟩
  · have hback : quietSpec.idle s' := idle_stable h hR
    exact ⟨hback, seg_off rfl rfl hback.2⟩

/-- `audio_element_process_init` sets no flag that `Quiet` looks at. -/
theorem processInit (hP : Inside P) (h : Keeps inHand m₀ m) :
    wp quietSpec.rely P (fun ret _ s₀ s => (ret = ESP_OK ∨ ret = ESP_FAIL) ∧ Keeps inHand s₀ s)
      audioElementProcessInit true m₀ m := by
  refine wp_processInit (hP _ inHand _ _ h) (fun s' hR _ => ?_) (fun s' hR _ => ?_)
    (fun s₁ s' v hR _ hR' => ?_)
  · have hs' : Keeps inHand s' s' := h.others hR
    exact ⟨Or.inl rfl, hs'⟩
  · have hs' : Keeps inHand s' s' := h.others hR
    exact hP _ inHand s' s'.opening hs'
  · have hopening : Keeps inHand s₁ s₁.opening := by
      have hs₁ : Keeps inHand s₁ s₁ := h.others hR
      exact hs₁
    have hs' : Keeps inHand s' s' := hopening.others hR'
    refine wp_afterOpen (fun _ => ?_) (fun _ => ?_) (fun _ => ?_) (fun _ => ?_)
    · exact ⟨Or.inl rfl, hs'⟩
    · exact ⟨Or.inl rfl, hs'⟩
    · exact wp_post _ (fun _ _ _ _ h => ⟨Or.inr rfl, h.2.2⟩) (stop hP hs')
    · exact wp_post _ (fun _ _ _ _ h => ⟨Or.inr rfl, h.2⟩) (error hP hs')

/-- `audio_element_on_cmd_resume`, for a `RESUME` that was received or an element that runs. -/
theorem resume (hP : Inside P) (hrun : m.el.taskRun = true) (hhand : m.hist.handling = inHand)
    (hcmd : inHand = some .resume ∨ inHand = none) (hstack : m.el.taskStack = m₀.el.taskStack)
    (hquiet : Quiet m₀ → willRun true m.el.queue = false) :
    wp quietSpec.rely P (fun ret _ s₀ s => (ret = ESP_OK ∨ ret = ESP_FAIL) ∧ Keeps inHand s₀ s)
      audioElementOnCmdResume false m₀ m := by
  have hresumed : Keeps inHand m₀ m.resumed := by
    refine ⟨hrun, hhand, hstack, fun hq => ?_⟩
    show willRun (stillRuns m.hist.handling true) m.el.queue = false
    rw [hhand]
    rcases hcmd with rfl | rfl <;> exact hquiet hq
  refine wp_onCmdResume (fun _ => ⟨Or.inl rfl, hresumed⟩) fun _ rings _ => ?_
  have hinit : Keeps inHand m₀ { m.resumed with rings := rings } := hresumed
  refine wp_post _ ?_ (processInit hP hinit)
  rintro ret b s₀ s ⟨-, h⟩
  refine wp_afterProcessInit (fun _ => h.commit hP ?_) (fun _ => h.commit hP ?_)
  · exact fun _ _ h => ⟨Or.inl rfl, h⟩
  · exact fun _ _ h => ⟨Or.inr rfl, h.halt rfl rfl rfl rfl rfl⟩

/-- The loop goes on with the result of a command. -/
theorem after_cmd {c : AelCmd} {ret : ℤ} {b : Bool} (hret : ret ≠ AEL_IO_ABORT)
    (h : Keeps (some c) m₀ m) (hoff : m.el.isRunning = false ∨ ∀ v, stillRuns (some c) v = v) :
    quietSpec.afterCmd c ret b m₀ m := by
  obtain ⟨hrun, hhand, hstack, hquiet⟩ := h
  refine TaskSpec.afterCmd_of_ne hret ⟨rfl, fun hdead => ?_⟩ ⟨hstack, fun hq => ?_⟩
  · exact absurd hrun (by rw [show m.el.taskRun = false from hdead]; decide)
  · refine (hquiet hq).handled (hoff.imp_right fun hsame => ?_)
    rw [hhand]
    exact hsame _

theorem cmd (c : AelCmd) {queue : List AelCmd} (h : quietSpec.rest none m)
    (hrun : m.el.taskRun = true) (hq : m.el.queue = c :: queue) :
    wp quietSpec.rely (quietSpec.point (.cmd c)) (quietSpec.afterCmd c)
      (audioElementTaskCmd c) false m (Task.receive m c queue) := by
  have hreceive : c ≠ .resume → Keeps (some c) m (Task.receive m c queue) := by
    intro hc
    refine ⟨hrun, ?_, rfl, fun hquiet => hquiet.receive h.1 hq⟩
    unfold Task.receive
    rw [if_neg hc]
  have hP := inside_cmd c
  cases c with
  | finish =>
    refine wp_taskCmd_ok (wp_post _ ?_ (finish hP (hreceive nofun)))
    rintro ret b s₀ s ⟨rfl, h⟩
    exact ⟨rfl, after_cmd (by decide) h (Or.inr fun _ => rfl)⟩
  | stop =>
    refine wp_taskCmd_ok (wp_post _ ?_ (stop hP (hreceive nofun)))
    rintro ret b s₀ s ⟨rfl, hoff, h⟩
    exact ⟨rfl, after_cmd (by decide) h (Or.inl hoff)⟩
  | pause =>
    refine wp_taskCmd_ok (wp_post _ ?_ (pause hP (hreceive nofun)))
    rintro ret b s₀ s ⟨rfl, hoff, h⟩
    exact ⟨rfl, after_cmd (by decide) h (Or.inl hoff)⟩
  | resume =>
    have hquiet : Quiet m → willRun true queue = false := by
      intro hquiet
      unfold Quiet at hquiet
      rw [h.1, hq] at hquiet
      exact hquiet
    refine wp_taskCmd (wp_post _ ?_ (resume hP hrun rfl (Or.inl rfl) rfl hquiet))
    rintro ret b s₀ s ⟨hret, h⟩
    have hne : ret ≠ AEL_IO_ABORT := by rcases hret with rfl | rfl <;> decide
    refine ⟨fun _ => after_cmd hne h (Or.inr fun _ => rfl), fun _ => h.commit hP fun s₀ s h => ?_⟩
    have hbit : Keeps (some .resume) s₀ (s.withBit .stopped true) := h
    exact after_cmd hne hbit (Or.inr fun _ => rfl)
  | destroy =>
    refine wp_taskCmd ⟨fun heq => absurd heq (by decide), fun _ => ?_⟩
    have hoff : Keeps (some .destroy) m { Task.receive m .destroy queue with
        el := { (Task.receive m .destroy queue).el with isRunning := false } } :=
      (hreceive nofun).halt rfl rfl rfl rfl rfl
    obtain ⟨-, -, hstack, hquiet⟩ := hoff
    exact TaskSpec.afterCmd_abort (b := true) ⟨rfl, rfl⟩
      ⟨hstack, fun hq => (hquiet hq).of_off rfl rfl⟩
  | other =>
    exact wp_taskCmd_ok ⟨rfl, after_cmd (by decide) (hreceive nofun) (Or.inr fun _ => rfl)⟩

/-- The process callback has returned. -/
theorem processed (processLen : ℤ) (hrun : m.el.taskRun = true) (hhand : m.hist.handling = none)
    (hon : m₀.el.isRunning = true) (hhand₀ : m₀.hist.handling = none) (hsame : m.el = m₀.el) :
    wp quietSpec.rely (quietSpec.point .proc) quietSpec.afterRest
      (audioElementProcessed processLen) false m₀ m := by
  have hquiet : Quiet m₀ → willRun true m.el.queue = false := by
    intro hquiet
    unfold Quiet at hquiet
    rw [hhand₀, hon] at hquiet
    rw [hsame]
    exact hquiet
  have hkeeps : ∀ s : Mem, s.hist.handling = none → s.el.taskRun = true →
      s.el.taskStack = m₀.el.taskStack → s.el.queue = m.el.queue → Keeps none m₀ s := by
    intro s hs hrun hstack hqueue
    refine ⟨hrun, hs, hstack, fun hq => ?_⟩
    unfold Quiet
    rw [hs, hqueue]
    have hall := hquiet hq
    cases s.el.isRunning with
    | true => exact hall
    | false => exact willRun_false hall
  have hstack : m.el.taskStack = m₀.el.taskStack := by rw [hsame]
  have hafter : ∀ {ret : ℤ} {b s₀ s}, Keeps none s₀ s → quietSpec.afterRest ret b s₀ s := by
    rintro ret b s₀ s ⟨hrun, hhand, hseg⟩
    exact ⟨⟨hhand, fun hoff => absurd hoff (by rw [hrun]; decide)⟩, hseg⟩
  refine wp_processed (fun _ _ => hafter (hkeeps m hhand hrun hstack rfl)) (fun _ => ?_)
    (fun _ _ => ?_) (fun _ _ rings _ => ?_) (fun _ => ?_)
  · exact wp_post _ (fun _ _ _ _ h => hafter h.2.2)
      (stop inside_proc (hkeeps m hhand hrun hstack rfl))
  · exact wp_post _ (fun _ _ _ _ h => hafter h.2)
      (resume inside_proc hrun hhand (Or.inr rfl) hstack hquiet)
  · exact wp_post _ (fun _ _ _ _ h => hafter h.2)
      (finish inside_proc (hkeeps _ hhand hrun hstack rfl))
  · exact wp_post _ (fun _ _ _ _ h => hafter h.2)
      (error inside_proc (hkeeps _ hhand hrun hstack rfl))

theorem proc {last : Option (AelCmd × ℤ)} (h : quietSpec.rest last m) :
    wp quietSpec.rely (quietSpec.point .proc) quietSpec.afterRest
      audioElementProcessRunning false m m := by
  have hpresent : m.el.isRunning = true → m.el.taskRun = true := by
    intro hon
    by_contra hoff
    rw [h.2 (by simpa using hoff)] at hon
    exact nomatch hon
  refine wp_running (fun _ => ⟨h, rfl, id⟩) (fun _ hon => ⟨hpresent hon, rfl, id⟩)
    fun _ hon s' v hR => ?_
  have hhand : s'.hist.handling = none := hR.handling.trans h.1
  exact processed v (hR.taskRun.trans (hpresent hon)) hhand (hR.isRunning.trans hon) hhand rfl

theorem valid : quietSpec.Valid where
  rely_trans := Own.trans
  seg_refl _ := ⟨rfl, id⟩
  here_stable := by
    rintro (_ | _ | _ | _) c m m' h hR
    · exact hR.isRunning.trans h
    · exact hR.taskRun.trans h
    · exact hR.taskRun.trans h
    · exact hR.isRunning.trans h
  rest_stable := by
    rintro last m m' ⟨hhand, hdead⟩ hR
    refine ⟨hR.handling.trans hhand, ?_⟩
    rw [hR.isRunning, hR.taskRun]
    exact hdead
  idle_stable h hR := idle_stable h hR
  left_stable h hR := idle_stable h hR
  begin := begin
  cmd h hrun hq _ := cmd _ h hrun hq
  proc := proc
  leave h hrun := ⟨h.1, h.2 hrun⟩
  ending := ending

end quietSpec

/-- A task that is not there to handle commands has halted the element. -/
theorem TaskOk.dead {t : Task} {m : Mem} (h : TaskOk quietSpec t m)
    (hrun : m.el.taskRun = false) : m.el.isRunning = false := by
  cases t with
  | absent | leave => exact h.2
  | begin | ending => exact h.1
  | recv | proc => exact h.2 hrun
  | inCmd | inProc => exact absurd hrun (by rw [show m.el.taskRun = true from h.1]; decide)

/-! ### The call of `audio_element_stop` -/

/-- Calls of `audio_element_stop` that send no `STOP` find the element about to halt. -/
def stopSpec : CtlSpec where
  pre api m := HasTask m ∧ (api = .stop → m.el.taskRun = true →
    m.el.isRunning = false ∨ m.el.stopping = true ∧ m.el.state ≠ .running → Quiet m)
  rely api m m' := HasTask m' ∧ (Quiet m → Quiet m') ∧
    (api = .stop → m'.el.stopping = true → Quiet m')
  seg api o m m' := ApiSeg api m m' ∧ (api = .stop → o = some ESP_OK → Quiet m')

/-- The rest of `audio_element_stop` for an element with a task. -/
theorem wp_afterAbort_quiet {m₀ m : Mem} (hstack : 0 < m.el.taskStack)
    (hasked : m.el.stopping = true → Quiet m) :
    wp (fun _ => stopSpec.rely .stop) (fun _ _ _ => True) (fun v _ _ s => v = ESP_OK → Quiet s)
      afterAbort false m₀ m := by
  refine wp_afterAbort (fun hle => absurd hstack (not_lt.mpr hle)) (fun _ hstopping _ _ => ?_)
    (fun _ _ _ _ => ?_) (fun _ _ _ _ hv => absurd hv (by decide))
  · exact hasked hstopping
  · exact willRun_concat _ .stop _

/-- **A call of `audio_element_stop` that returns `ESP_OK`** leaves the element about to halt. -/
theorem wp_stop_quiet {m : Mem} (h : stopSpec.pre .stop m) :
    wp (fun _ => stopSpec.rely .stop) (fun _ _ _ => True)
      (fun v _ _ s => v = ESP_OK → Quiet s) audioElementStop false m m := by
  obtain ⟨htask, hsafe⟩ := h
  refine wp_elementStop (fun _ hv => absurd hv (by decide)) (fun hon hoff => ⟨trivial, ?_⟩)
    (fun _ _ _ => ⟨trivial, ?_⟩) (fun hon hrun hst => ?_)
  · rintro s' ⟨-, hkeep, -⟩ -
    have hquiet : Quiet m := hsafe rfl hon (Or.inl hoff)
    exact hkeep hquiet
  · rintro s' ⟨htask', -, hstopping⟩
    exact wp_afterAbort_quiet htask' (hstopping rfl)
  · refine wp_afterAbort_quiet ?_ ?_
    · rw [m.aborted_el]
      exact htask
    · unfold Quiet at hsafe ⊢
      rw [m.aborted_el, m.aborted_hist]
      exact fun hstopping => hsafe rfl hon (Or.inr ⟨hstopping, hst⟩)

/-- A step in which a call of `audio_element_stop` sends no `STOP` is taken only when the element is
about to halt anyway: at the call, `is_running` is false or `stopping` set already; later on in the
call, `stopping` is set. -/
def ElSys.StopsSafely (s : ElSys) : ElLabel → Prop
  | .call .stop => s.m.el.taskRun = true →
    s.m.el.isRunning = false ∨ s.m.el.stopping = true ∧ s.m.el.state ≠ .running → Quiet s.m
  | .ctl => s.ctl.api = some .stop → s.m.el.stopping = true → Quiet s.m
  | _ => True

instance (s : ElSys) : ∀ l, Decidable (s.StopsSafely l)
  | .call .stop => inferInstanceAs (Decidable (s.m.el.taskRun = true →
      s.m.el.isRunning = false ∨ s.m.el.stopping = true ∧ s.m.el.state ≠ .running → Quiet s.m))
  | .ctl =>
    inferInstanceAs (Decidable (s.ctl.api = some .stop → s.m.el.stopping = true → Quiet s.m))
  | .call .run | .call .pause | .call (.resume _) | .call .waitForStopMs | .call (.changeCmd _)
  | .call .resetState | .call .terminate | .task _ => inferInstanceAs (Decidable True)

/-- A stop request that stands is not lost. -/
def ElSys.StopKept (s : ElSys) : Prop :=
  s.stopStands = true → s.m.el.queue = [] → s.task.Between → s.m.el.isRunning = false

/-- **Every call** does what `stopSpec` says. -/
theorem wp_api_quiet {api : ElApi} {m : Mem} (h : stopSpec.pre api m) :
    wp (fun _ => stopSpec.rely api) (fun _ => stopSpec.seg api none)
      (fun v _ => stopSpec.seg api (some v)) api.prog false m m := by
  have hseg : wp (fun _ => stopSpec.rely api) (fun _ => ApiSeg api) (fun _ _ => ApiSeg api)
      api.prog false m m :=
    wp_mono _ (fun _ _ _ hR => hR.1) (fun _ _ _ hP => hP) (fun _ _ _ _ hQ => hQ) (wp_api api h.1)
  by_cases hstop : api = .stop
  · subst hstop
    refine wp_mono _ (fun _ _ _ hR => hR) ?_ ?_ (wp_and _ hseg (wp_stop_quiet h))
    · intro _ s₀ s hP
      exact ⟨hP.1, fun _ hv => nomatch hv⟩
    · intro v _ s₀ s hQ
      exact ⟨hQ.1, fun _ hv => hQ.2 (Option.some.inj hv)⟩
  · refine wp_mono _ (fun _ _ _ hR => hR) ?_ ?_ hseg
    · intro _ s₀ s hP
      exact ⟨hP, fun hs => absurd hs hstop⟩
    · intro v _ s₀ s hQ
      exact ⟨hQ, fun hs => absurd hs hstop⟩

theorem quietSpec.compatible : Compatible quietSpec stopSpec fun _ => True where
  task := quietSpec.valid
  calls _ h := wp_api_quiet h
  task_rely hseg h := ⟨h.1, fun hq => h.2.1 (hseg.2 hq), h.2.2⟩
  ctl_rely _ h := h.1.own
  note_rely := Own.noted

/-- **A segment of a call** keeps a stop request that stands, or makes it stand. -/
theorem Called.quiet {api : ElApi} {s s' : ElSys} {o : Option ℤ} (h : Called stopSpec api s s' o)
    (hdead : s.m.el.taskRun = false → s.m.el.isRunning = false)
    (hapi : ElSys.IssuesResume api = true → s.stopStands = false)
    (hq : s.stopStands = true → Quiet s.m) (hstands : s'.stopStands = true) : Quiet s'.m := by
  rw [h.stopStands] at hstands
  by_cases hstop : api = .stop ∧ o = some ESP_OK
  · exact h.seg.2 hstop.1 hstop.2
  · rw [if_neg hstop] at hstands
    refine h.seg.1.quiet ?_ hdead (hq hstands)
    cases hr : ElSys.IssuesResume api with
    | false => rfl
    | true => exact absurd (hapi hr) (by rw [hstands]; decide)

/-- What every reached state satisfies. -/
structure StopInv (s : ElSys) : Prop where
  ok : ElOk quietSpec stopSpec (fun _ => True) s
  hasTask : HasTask s.m
  quiet : s.stopStands = true → Quiet s.m
  calling : ∀ api p, s.ctl = .calling api p → ElSys.IssuesResume api = true → s.stopStands = false

theorem StopInv.step {s s' : ElSys} {l : ElLabel} (h : StopInv s) (hl : s.StopsSafely l)
    (hs : s.step l = some s') : StopInv s' := by
  cases l with
  | call api =>
    have hquiet : Quiet (s.noteCall api).m ↔ Quiet s.m := by
      unfold Quiet ElSys.noteCall
      rw [noted_el, noted_handling]
    have hnoted : (s.noteCall api).m.el = s.m.el := noted_el api s.m
    have hpre : stopSpec.pre api (s.noteCall api).m := by
      refine ⟨h.hasTask.noteCall api, ?_⟩
      rintro rfl hrun hwhen
      rw [hquiet]
      rw [hnoted] at hrun hwhen
      exact hl hrun hwhen
    have ⟨hok, o, hc⟩ := h.ok.call quietSpec.compatible trivial hpre hs
    -- the call takes the request back if it asks for a resume
    have hstands : (s.noteCall api).stopStands =
        if ElSys.IssuesResume api then false else s.stopStands := rfl
    refine ⟨hok, ?_, ?_, ?_⟩
    · unfold HasTask
      rw [hc.seg.1.taskStack]
      exact h.hasTask.noteCall api
    · refine hc.quiet ?_ ?_ ?_
      · rw [hnoted]
        exact h.ok.1.dead
      · intro hr
        rw [hstands, if_pos hr]
      · intro hst
        rw [hstands] at hst
        split_ifs at hst
        exact hquiet.mpr (h.quiet hst)
    · intro api' p hctl hr
      obtain rfl := hc.ctl api' p hctl
      rw [hc.stopStands, if_neg, hstands, if_pos hr]
      rintro ⟨rfl, _⟩
      exact nomatch hr
  | ctl =>
    have hR : ∀ api p, s.ctl = .calling api p → stopSpec.rely api s.m s.m := by
      intro api p hctl
      refine ⟨h.hasTask, id, ?_⟩
      rintro rfl hstopping
      exact hl (congrArg Ctl.api hctl) hstopping
    have ⟨hok, api, p, o, hctl, _, hc⟩ := h.ok.ctl quietSpec.compatible hR hs
    refine ⟨hok, ?_, ?_, ?_⟩
    · unfold HasTask
      rw [hc.seg.1.taskStack]
      exact h.hasTask
    · exact hc.quiet h.ok.1.dead (h.calling api p hctl) h.quiet
    · intro api' p' hctl' hr
      obtain rfl := hc.ctl api' p' hctl'
      rw [hc.stopStands, if_neg, h.calling api' p hctl hr]
      rintro ⟨rfl, _⟩
      exact nomatch hr
  | task v =>
    have ⟨hok, hran⟩ := h.ok.task quietSpec.compatible (Own.refl _) (fun _ _ _ _ _ => trivial) hs
    refine ⟨hok, ?_, ?_, ?_⟩
    · unfold HasTask
      rw [hran.seg.1]
      exact h.hasTask
    · rw [hran.stopStands]
      exact fun hst => hran.seg.2 (h.quiet hst)
    · rw [hran.ctl, hran.stopStands]
      exact h.calling

/-- **A stop request is never lost** in a run in which every call of `audio_element_stop` that sends
no `STOP` finds the element about to halt. -/
theorem stop_kept {config : AudioElementCfg} {rings : ℕ → Ringbuf} {s : ElSys}
    (htask : 0 < config.taskStack)
    (h : Lts.Reach ElSys.step ElSys.StopsSafely
      (ElSys.ofElement (audioElementInit config) rings) s) : s.StopKept := by
  have hinv : StopInv s := by
    refine h.invariant (I := StopInv) ?_ fun _ _ _ hi hl hs => hi.step hl hs
    exact ⟨⟨⟨rfl, rfl⟩, trivial⟩, hasTask_init htask rings, nofun, nofun⟩
  intro hst hqueue hbetween
  have hq := hinv.quiet hst
  have hhand : s.m.hist.handling = none := by
    have htask := hinv.ok.1
    cases ht : s.task with
    | recv | proc => rw [ht] at htask; exact htask.1
    | _ => rw [ht] at hbetween; exact hbetween.elim
  unfold Quiet at hq
  rw [hqueue, hhand] at hq
  exact hq

/-- A session that is stopped while it processes. -/
theorem stop_kept_processing :
    ∃ s, Lts.Reach ElSys.step ElSys.StopsSafely
        (ElSys.ofElement (audioElementInit plainCfg) fun _ => Ringbuf.empty 4) s ∧
      s.stopStands = true ∧ s.task.Between ∧ s.m.el.queue = [] ∧ s.StopKept := by
  obtain ⟨s, hs⟩ : ∃ s, Lts.run ElSys.step ElSys.StopsSafely
      (ElSys.ofElement (audioElementInit plainCfg) fun _ => Ringbuf.empty 4)
      (started ++ [.call (.changeCmd .resume), .task 0, .task 0, .task 0, .task 0, .task 0,
        .call .stop, .ctl, .task 1, .task 0, .task 0]) = some s :=
    ⟨_, rfl⟩
  have hr := Lts.Reach.of_run _ Lts.Reach.refl hs
  refine ⟨s, hr, ?_, ?_, ?_, stop_kept (by decide) hr⟩
  all_goals
    obtain rfl := Option.some.inj hs
    trivial

/-- The calls of a controlling thread that neither waits for the stop nor resets the state. -/
def RequestApi : ElApi → Bool
  | .waitForStopMs | .resetState | .terminate => false
  | _ => true

/-- `audio_element_resume` times out, `audio_element_stop` finds the element stopped already and
returns `ESP_OK`, and then the task receives the `RESUME`. -/
theorem stop_lost :
    ¬∀ (config : AudioElementCfg) (rings : ℕ → Ringbuf) (s : ElSys), 0 < config.taskStack →
      Lts.Reach ElSys.step (fun _ l => l.Only (RequestApi ·))
        (ElSys.ofElement (audioElementInit config) rings) s → s.StopKept := by
  intro hall
  obtain ⟨s, hs⟩ : ∃ s, Lts.run ElSys.step (fun _ l => l.Only (RequestApi ·))
      (ElSys.ofElement (audioElementInit plainCfg) fun _ => Ringbuf.empty 4)
      (started ++ [.call (.resume 0), .ctl, .ctl, .call .stop, .ctl, .task 0, .task 0, .task 0,
        .task 0]) = some s :=
    ⟨_, rfl⟩
  have hkept := hall _ _ s (by decide) (Lts.Reach.of_run _ Lts.Reach.refl hs)
  obtain rfl := Option.some.inj hs
  exact absurd (hkept rfl rfl trivial) (by decide)

end AudioPipeline
