import AudioPipeline.Element.Equiv.Api

/-!
# What the control functions do to the life of a task

`ApiSeg` speaks of elements that have a task.  `CtlSeg` is about all elements, also those without
one (`task_stack <= 0`), whose flags the control functions write themselves, and about the thread:
who creates it, and which commands are put in front of it.  `CtlRely` is what a control function
may assume of the task meanwhile.
-/

namespace AudioPipeline

open Prog

/-- What the others do between two segments of a control function. -/
structure CtlRely (m m' : Mem) : Prop where
  taskStack : m'.el.taskStack = m.el.taskStack
  created : m.el.threadCreated = false → m'.el.threadCreated = false
  off : m.el.threadCreated = false → m.el.taskRun = false → m'.el.taskRun = false
  empty : m.el.queue = [] → m'.el.queue = []
  destroyed : m.el.threadCreated = false → m'.el.stateEvent .taskDestroyed = true →
    m.el.stateEvent .taskDestroyed = true ∨ m'.el.taskRun = false

theorem CtlRely.refl (m : Mem) : CtlRely m m := ⟨rfl, id, fun _ => id, id, fun _ => Or.inl⟩

theorem CtlRely.trans {m₁ m₂ m₃ : Mem} (h : CtlRely m₁ m₂) (h' : CtlRely m₂ m₃) :
    CtlRely m₁ m₃ where
  taskStack := h'.taskStack.trans h.taskStack
  created hc := h'.created (h.created hc)
  off hc hoff := h'.off (h.created hc) (h.off hc hoff)
  empty hq := h'.empty (h.empty hq)
  destroyed hc hd := by
    rcases h'.destroyed (h.created hc) hd with hd | hoff
    · rcases h.destroyed hc hd with hd | hoff
      · exact Or.inl hd
      · exact Or.inr (h'.off (h.created hc) hoff)
    · exact Or.inr hoff

/-- The calls that may set `is_running`. -/
def ElApi.starts : ElApi → Bool
  | .run | .resume _ => true
  | _ => false

/-- What one segment of a control function does; `o` is the result if it returns. -/
structure CtlSeg (api : ElApi) (o : Option ℤ) (m m' : Mem) : Prop where
  taskStack : m'.el.taskStack = m.el.taskStack
  steady : 0 < m.el.taskStack →
    m'.el.isRunning = m.el.isRunning ∧ m'.el.taskRun = m.el.taskRun
  runs : (m.el.isRunning = true → m.el.taskRun = true) → m'.el.isRunning = true →
    m'.el.taskRun = true
  rests : api.starts = false → m.el.isRunning = false → m'.el.isRunning = false
  created : m'.el.threadCreated = true → m.el.threadCreated = true ∨
    api = .run ∧ 0 < m.el.taskStack ∧ m'.el.taskRun = false ∧ m'.el.queue = []
  queue : m'.el.queue = m.el.queue ∨
    (∃ cmd, api.Sends cmd ∧ m'.el.queue = m.el.queue ++ [cmd] ∧ m.el.threadCreated = false) ∨
    m.el.taskRun = false ∧ m'.el.queue = []
  ended : api = .terminate → o = some ESP_OK →
    m'.el.taskRun = false ∧ (m'.el.threadCreated = true → m'.el.queue = [])

/-- What a control function needs of the element when it is called. -/
structure CtlPre (api : ElApi) (m : Mem) : Prop where
  created : m.el.threadCreated = true → m.el.taskRun = false ∧ m.el.queue = []
  taskless : m.el.taskStack ≤ 0 → m.el.threadCreated = false
  /-- `audio_element_run` finds no thread that has yet to begin. -/
  single : api = .run → m.el.threadCreated = false

section Segments

variable {m m' m₀ : Mem} {api : ElApi} {o : Option ℤ}

/-- An element that has a task has no thread that is yet to begin. -/
theorem CtlPre.begun (h : CtlPre api m) (hon : m.el.taskRun = true) :
    m.el.threadCreated = false := by
  by_contra hc
  rw [(h.created (by simpa using hc)).1] at hon
  exact nomatch hon

/-- A segment that leaves the flags, the thread and the queue alone. -/
theorem CtlSeg.frame (hstack : m'.el.taskStack = m.el.taskStack)
    (hon : m'.el.isRunning = m.el.isRunning) (hrun : m'.el.taskRun = m.el.taskRun)
    (hcreated : m'.el.threadCreated = m.el.threadCreated) (hqueue : m'.el.queue = m.el.queue)
    (hended : api = .terminate → o ≠ some ESP_OK) : CtlSeg api o m m' where
  taskStack := hstack
  steady _ := ⟨hon, hrun⟩
  runs h hon' := by
    rw [hon] at hon'
    rw [hrun]
    exact h hon'
  rests _ hoff := hon.trans hoff
  created hc := Or.inl (hcreated.symm.trans hc)
  queue := Or.inl hqueue
  ended hapi ho := absurd ho (hended hapi)

/-- A command is put in front of a task that runs. -/
theorem CtlSeg.sent {cmd : AelCmd} (hsend : api.Sends cmd) (hc : m.el.threadCreated = false)
    (hended : api = .terminate → o ≠ some ESP_OK) : CtlSeg api o m (m.sending cmd) where
  taskStack := rfl
  steady _ := ⟨rfl, rfl⟩
  runs h := h
  rests _ hoff := hoff
  created := Or.inl
  queue := Or.inr (Or.inl ⟨cmd, hsend, rfl, hc⟩)
  ended hapi ho := absurd ho (hended hapi)

/-- An element without a task is halted. -/
theorem CtlSeg.halted {st : AelState} (hle : m.el.taskStack ≤ 0)
    (hended : api = .terminate → o ≠ some ESP_OK) : CtlSeg api o m (m.haltedIn st) where
  taskStack := rfl
  steady hstack := absurd hstack (not_lt.mpr hle)
  runs _ := nofun
  rests _ _ := rfl
  created := Or.inl
  queue := Or.inl rfl
  ended hapi ho := absurd ho (hended hapi)

/-- An element without a task is started. -/
theorem CtlSeg.started (hapi : api.starts = true) (hle : m.el.taskStack ≤ 0) :
    CtlSeg api o m (m.launched true) where
  taskStack := rfl
  steady hstack := absurd hstack (not_lt.mpr hle)
  runs _ _ := rfl
  rests hno := absurd hapi (by rw [hno]; decide)
  created := Or.inl
  queue := Or.inl rfl
  ended := by
    rintro rfl
    exact nomatch hapi

theorem wp_run_ctl (h : CtlPre .run m) :
    wp (fun _ => CtlRely) (fun _ => CtlSeg .run none) (fun v _ => CtlSeg .run (some v))
      audioElementRun false m m := by
  refine wp_elementRun (fun _ => ?_) (fun hoff => ?_) (fun hoff s' hR hstack => ?_)
    (fun _ s' _ hle => ?_)
  · exact CtlSeg.frame rfl rfl rfl rfl rfl nofun
  · exact ⟨rfl, fun _ => ⟨rfl, rfl⟩, id, fun _ => id, Or.inl, Or.inr (Or.inr ⟨hoff, rfl⟩), nofun⟩
  · have hoff' : s'.el.taskRun = false := hR.off (h.single rfl) hoff
    have hempty : s'.el.queue = [] := hR.empty rfl
    have hspawned : ∀ o, CtlSeg .run o s' s'.spawned := fun _ =>
      ⟨rfl, fun _ => ⟨rfl, rfl⟩, id, fun _ => id, fun _ => Or.inr ⟨rfl, hstack, hoff', hempty⟩,
        Or.inl rfl, nofun⟩
    refine ⟨fun _ => hspawned _, fun _ => ⟨hspawned _, fun s₁ _ => ?_⟩⟩
    exact CtlSeg.frame rfl rfl rfl rfl rfl nofun
  · exact CtlSeg.started rfl hle

theorem wp_pause_ctl (h : CtlPre .pause m) :
    wp (fun _ => CtlRely) (fun _ => CtlSeg .pause none) (fun v _ => CtlSeg .pause (some v))
      audioElementPause false m m := by
  refine wp_elementPause ?_ (fun _ _ => ?_) (fun _ => ?_) (fun _ s' _ hle => ?_)
    (fun _ s' _ => ?_) (fun hon s' hR _ => ?_)
  · exact CtlSeg.frame rfl rfl rfl rfl rfl nofun
  · exact CtlSeg.frame rfl rfl rfl rfl rfl nofun
  · exact CtlSeg.frame rfl rfl rfl rfl rfl nofun
  · exact CtlSeg.halted hle nofun
  · exact CtlSeg.frame rfl rfl rfl rfl rfl nofun
  · have hc : s'.el.threadCreated = false := hR.created (h.begun hon)
    refine ⟨fun _ => ?_, fun _ => ⟨?_, fun s₁ _ => ?_⟩⟩
    · exact CtlSeg.sent rfl hc nofun
    · exact CtlSeg.sent rfl hc nofun
    · exact CtlSeg.frame rfl rfl rfl rfl rfl nofun

theorem wp_resume_ctl (h : CtlPre (.resume 0) m) :
    wp (fun _ => CtlRely) (fun _ => CtlSeg (.resume 0) none)
      (fun v _ => CtlSeg (.resume 0) (some v)) (audioElementResume 0) false m m := by
  have hframe : ∀ (o : Option ℤ) (m : Mem), CtlSeg (.resume 0) o m m :=
    fun o m => CtlSeg.frame rfl rfl rfl rfl rfl nofun
  have hwait : ∀ m : Mem, wp (fun _ => CtlRely) (fun _ => CtlSeg (.resume 0) none)
      (fun v _ => CtlSeg (.resume 0) (some v)) (waitForThreshold 0 m) false m m := by
    intro m
    rw [waitForThreshold_zero]
    exact hframe _ m
  refine wp_elementResume (hframe _ m) (fun st _ => ?_) (fun hon hle => ?_) (fun _ => ?_)
    (fun _ s' _ => hframe _ s') (fun hon _ s' hR => ?_)
  · exact CtlSeg.frame rfl rfl rfl rfl rfl nofun
  · rw [hon]
    exact CtlSeg.started rfl hle
  · exact CtlSeg.frame rfl rfl rfl rfl rfl nofun
  · have hc : s'.el.threadCreated = false := hR.created (h.begun hon)
    refine ⟨fun _ => ⟨nofun, fun _ => ⟨?_, fun s₁ _ => hwait s₁⟩⟩, fun _ => ⟨?_, fun s₁ _ => ?_⟩⟩
    · exact CtlSeg.sent rfl hc nofun
    · exact CtlSeg.sent rfl hc nofun
    · exact ⟨fun _ => hframe _ s₁, fun _ => ⟨hframe _ s₁, fun s₂ _ => hwait s₂⟩⟩

/-- The rest of `audio_element_stop`: nothing is written to the element yet. -/
theorem wp_afterAbort_ctl (hel : m.el = m₀.el) (hc : m₀.el.threadCreated = false) :
    wp (fun _ => CtlRely) (fun _ => CtlSeg .stop none) (fun v _ => CtlSeg .stop (some v))
      afterAbort false m₀ m := by
  have hframe : ∀ o n v, CtlSeg .stop o m₀ (m.asking n v) := by
    intro o n v
    unfold Mem.asking
    rw [hel]
    exact CtlSeg.frame rfl rfl rfl rfl rfl nofun
  refine wp_afterAbort (fun hle => ⟨?_, fun s' _ => ?_⟩) (fun _ _ n => hframe _ n true)
    (fun _ _ n => ?_) (fun _ _ _ n => hframe _ n false)
  · rw [hel] at hle
    obtain ⟨hstack, hsteady, hruns, hrests, hcreated, hqueue, hended⟩ :=
      show CtlSeg .stop none m₀ (m₀.haltedIn .stopped) from CtlSeg.halted hle nofun
    unfold Mem.withBit Mem.haltedIn
    rw [hel]
    exact ⟨hstack, hsteady, hruns, hrests, hcreated, hqueue, hended⟩
  · exact CtlSeg.frame rfl rfl rfl rfl rfl nofun
  · obtain ⟨hstack, hsteady, hruns, hrests, -, -, -⟩ := hframe (some ESP_OK) n true
    have hqueue : m.el.queue ++ [.stop] = m₀.el.queue ++ [.stop] := by rw [hel]
    refine ⟨hstack, hsteady, hruns, hrests, fun hthread => Or.inl ?_, ?_, nofun⟩
    · exact (congrArg Element.threadCreated hel).symm.trans hthread
    · exact Or.inr (Or.inl ⟨.stop, rfl, hqueue, hc⟩)

theorem wp_stop_ctl (h : CtlPre .stop m) :
    wp (fun _ => CtlRely) (fun _ => CtlSeg .stop none) (fun v _ => CtlSeg .stop (some v))
      audioElementStop false m m := by
  refine wp_elementStop (fun _ => ?_) (fun _ _ => ⟨?_, fun s' _ => ?_⟩)
    (fun hon _ _ => ⟨?_, fun s' hR => ?_⟩) (fun hon _ _ => ?_)
  · exact CtlSeg.frame rfl rfl rfl rfl rfl nofun
  · exact CtlSeg.frame rfl rfl rfl rfl rfl nofun
  · exact CtlSeg.frame rfl rfl rfl rfl rfl nofun
  · unfold Mem.withBit
    rw [m.aborted_el]
    exact CtlSeg.frame rfl rfl rfl rfl rfl nofun
  · refine wp_afterAbort_ctl rfl (hR.created ?_)
    show m.aborted.el.threadCreated = false
    rw [m.aborted_el]
    exact h.begun hon
  · exact wp_afterAbort_ctl m.aborted_el (h.begun hon)

theorem wp_waitForStopMs_ctl :
    wp (fun _ => CtlRely) (fun _ => CtlSeg .waitForStopMs none)
      (fun v _ => CtlSeg .waitForStopMs (some v)) audioElementWaitForStopMs false m m := by
  have hframe : ∀ (o : Option ℤ) (m : Mem), CtlSeg .waitForStopMs o m m :=
    fun o m => CtlSeg.frame rfl rfl rfl rfl rfl nofun
  refine wp_elementWaitForStopMs (fun _ => hframe _ m) (fun _ => ⟨fun _ => hframe _ m, fun _ => ?_⟩)
  exact ⟨hframe _ m, fun s' _ => hframe _ s'⟩

theorem wp_resetState_ctl :
    wp (fun _ => CtlRely) (fun _ => CtlSeg .resetState none)
      (fun v _ => CtlSeg .resetState (some v)) audioElementResetState false m m :=
  CtlSeg.frame rfl rfl rfl rfl rfl nofun

theorem wp_terminate_ctl (h : CtlPre .terminate m) :
    wp (fun _ => CtlRely) (fun _ => CtlSeg .terminate none)
      (fun v _ => CtlSeg .terminate (some v)) audioElementTerminate false m m := by
  refine wp_elementTerminate (fun hoff => ?_) (fun hon hle => ?_) (fun _ _ => ?_)
    (fun _ _ s' _ => ?_) (fun hon _ s' hR => ?_)
  · exact ⟨rfl, fun _ => ⟨rfl, rfl⟩, id, fun _ => id, Or.inl, Or.inl rfl,
      fun _ _ => ⟨hoff, fun hc => (h.created hc).2⟩⟩
  · refine ⟨rfl, fun hstack => absurd hstack (not_lt.mpr hle), fun _ => nofun, fun _ _ => rfl,
      Or.inl, Or.inl rfl, fun _ _ => ⟨rfl, fun hc => ?_⟩⟩
    exact absurd hc (by rw [show m.dismissed.el.threadCreated = false from h.begun hon]; decide)
  · exact CtlSeg.frame rfl rfl rfl rfl rfl nofun
  · exact CtlSeg.frame rfl rfl rfl rfl rfl nofun
  · have hc : s'.el.threadCreated = false := hR.created (h.begun hon)
    refine ⟨fun hbit => ?_, fun hbit => ⟨CtlSeg.sent rfl hc nofun, fun s₁ hR₁ => ?_⟩⟩
    · have hoff : s'.el.taskRun = false := by
        refine (hR.destroyed (h.begun hon) hbit).resolve_left ?_
        simp [Mem.withBit]
      have hsent : CtlSeg .terminate none s' (s'.sending .destroy) := CtlSeg.sent rfl hc nofun
      refine { hsent with ended := fun _ _ => ⟨hoff, fun hthread => ?_⟩ }
      rw [show (s'.sending .destroy).el.threadCreated = false from hc] at hthread
      exact absurd hthread (by decide)
    · cases hdestroyed : s₁.el.stateEvent .taskDestroyed with
      | false => exact CtlSeg.frame rfl rfl rfl rfl rfl fun _ => by decide
      | true =>
        have hoff : s₁.el.taskRun = false := by
          refine (hR₁.destroyed hc hdestroyed).resolve_left ?_
          rw [hbit]
          decide
        have hc₁ : s₁.el.threadCreated = false := hR₁.created hc
        have hframe : CtlSeg .terminate none s₁ s₁ := CtlSeg.frame rfl rfl rfl rfl rfl nofun
        refine { hframe with ended := fun _ _ => ⟨hoff, fun hthread => ?_⟩ }
        exact absurd hthread (by rw [hc₁]; decide)

/-- The calls that the functions of a pipeline make. -/
def ElApi.Controls : ElApi → Prop
  | .resume threshold => threshold = 0
  | .changeCmd _ => False
  | _ => True

/-- **Every call that a pipeline makes** does what `CtlSeg` says. -/
theorem wp_ctl {api : ElApi} (hapi : api.Controls) (h : CtlPre api m) :
    wp (fun _ => CtlRely) (fun _ => CtlSeg api none) (fun v _ => CtlSeg api (some v)) api.prog
      false m m := by
  cases api with
  | run => exact wp_run_ctl h
  | pause => exact wp_pause_ctl h
  | resume threshold =>
    obtain rfl : threshold = 0 := hapi
    exact wp_resume_ctl h
  | stop => exact wp_stop_ctl h
  | waitForStopMs => exact wp_waitForStopMs_ctl
  | changeCmd cmd => exact hapi.elim
  | resetState => exact wp_resetState_ctl
  | terminate => exact wp_terminate_ctl h

/-- **`audio_element_resume` returns `ESP_OK`** only if it finds the task, which stays if the others
keep it (`X` says whether they do). -/
theorem wp_resume_on {X : Prop} :
    wp (fun _ m m' => X → m.el.taskRun = true → m'.el.taskRun = true) (fun _ _ _ => True)
      (fun v _ _ m => (v = ESP_OK ∨ v = ESP_FAIL) ∧ (X → v = ESP_OK → m.el.taskRun = true))
      (audioElementResume 0) false m m := by
  have hfail : ∀ {m : Mem}, (ESP_FAIL = ESP_OK ∨ ESP_FAIL = ESP_FAIL) ∧
      (X → ESP_FAIL = ESP_OK → m.el.taskRun = true) :=
    ⟨Or.inr rfl, fun _ heq => absurd heq (by decide)⟩
  have hwait : ∀ m : Mem, (X → m.el.taskRun = true) →
      wp (fun _ m m' => X → m.el.taskRun = true → m'.el.taskRun = true) (fun _ _ _ => True)
        (fun v _ _ m => (v = ESP_OK ∨ v = ESP_FAIL) ∧ (X → v = ESP_OK → m.el.taskRun = true))
        (waitForThreshold 0 m) false m m := by
    intro m hon
    rw [waitForThreshold_zero]
    exact ⟨Or.inl rfl, fun hx _ => hon hx⟩
  refine wp_elementResume hfail (fun st hon => ⟨Or.inl rfl, fun _ _ => hon⟩)
    (fun hon _ => ⟨Or.inl rfl, fun _ _ => hon⟩) (fun _ => trivial) (fun _ _ _ => hfail)
    (fun hon _ s' hR => ?_)
  have hon' : X → s'.el.taskRun = true := fun hx => hR hx hon
  refine ⟨fun _ => ⟨nofun, fun _ => ⟨trivial, fun s₁ hR₁ => ?_⟩⟩,
    fun _ => ⟨trivial, fun s₁ hR₁ => ?_⟩⟩
  · exact hwait s₁ fun hx => hR₁ hx (hon' hx)
  · refine ⟨fun _ => hfail, fun _ => ⟨trivial, fun s₂ hR₂ => ?_⟩⟩
    exact hwait s₂ fun hx => hR₂ hx (hR₁ hx (hon' hx))

end Segments

end AudioPipeline
