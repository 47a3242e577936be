import AudioPipeline.Element.Equiv.Sys

/-!
# Open and close alternate

`audio_element_process_init` does not look at `is_open`: it opens whatever it is called for.  The
two places that lead to it are `audio_element_on_cmd_resume` for a received `RESUME` and for the
re-open path of `audio_element_process_running`, and both are guarded by the state alone, which
`audio_element_reset_state` and `audio_element_pause` write from outside.  As long as none of these
two finds the element open in a state other than `AEL_STATE_RUNNING`, the calls alternate.
-/

namespace AudioPipeline

open Prog

/-- The calls are `open`, `close`, `open`, `close`, and so on. -/
def Alternating (calls : List Callback) : Prop :=
  ∀ i c, calls[i]? = some c → c = if i % 2 = 0 then .open else .close

/-- The calls alternate, and the last one is an unmatched `open` exactly if `unmatched`. -/
structure Matched (unmatched : Bool) (calls : List Callback) : Prop where
  alternating : Alternating calls
  parity : calls.length % 2 = if unmatched then 1 else 0

namespace Matched

variable {unmatched : Bool} {calls : List Callback}

theorem nil : Matched false [] := ⟨fun _ _ h => by simp at h, rfl⟩

/-- One more call, of the kind whose turn it is. -/
theorem snoc {c : Callback} (h : Matched unmatched calls)
    (hc : c = if unmatched then .close else .open) : Matched (!unmatched) (calls ++ [c]) := by
  have hturn := h.parity
  constructor
  · intro i c' hi
    rcases Nat.lt_trichotomy i calls.length with hlt | rfl | hlt
    · rw [List.getElem?_append_left hlt] at hi
      exact h.alternating i c' hi
    · -- the call itself
      rw [List.getElem?_concat_length, Option.some.injEq] at hi
      rw [← hi, hturn, hc]
      cases unmatched <;> rfl
    · rw [List.getElem?_eq_none (by simp; omega)] at hi
      exact absurd hi (by simp)
  · rw [List.length_append, List.length_singleton]
    cases unmatched <;> simp at hturn ⊢ <;> omega

theorem either (h : Matched unmatched calls) : Matched false calls ∨ Matched true calls := by
  cases unmatched with
  | false => exact Or.inl h
  | true => exact Or.inr h

theorem opened (h : Matched false calls) : Matched true (calls ++ [.open]) := h.snoc rfl

theorem closed (h : Matched true calls) : Matched false (calls ++ [.close]) := h.snoc rfl

end Matched

/-- The next segment of the task enters `audio_element_on_cmd_resume`: for the command at the head
of the queue, or because the process callback has nothing more and finds the state reset. -/
def ElSys.EntersResume (s : ElSys) : ElLabel → Bool
  | .task v =>
    match s.task, s.task.answer v with
    | .recv, _ => s.m.el.taskRun && s.m.el.queue.head? = some .resume
    | _, some (.process, processLen) =>
      (processLen = AEL_IO_OK || processLen = AEL_IO_DONE) && s.m.el.state = .init
    | _, _ => false
  | .call _ | .ctl => false

/-- The step opens an element that is open. -/
def ElSys.Reopens (s : ElSys) (l : ElLabel) : Bool :=
  s.EntersResume l && s.m.el.isOpen && s.m.el.state ≠ .running

/-- The task of an element with both callbacks, while others change the state at will. -/
def callbackSpec : TaskSpec where
  rely o m m' := Own m m' ∧ ∀ v, o = some (.process, v) → v = AEL_IO_OK ∨ v = AEL_IO_DONE →
    m'.el.state = .init → m'.el.isOpen = false
  seg m m' := m'.el.taskStack = m.el.taskStack
  here _ _ m := m.el.hasOpen = true ∧ m.el.hasClose = true ∧
    (Matched false m.hist.trace ∨ Matched true m.hist.trace)
  rest _ m := m.el.hasOpen = true ∧ m.el.hasClose = true ∧ Matched m.el.isOpen m.hist.trace
  idle m := m.el.hasOpen = true ∧ m.el.hasClose = true ∧ m.el.isOpen = false ∧
    Matched false m.hist.trace
  left m := m.el.hasOpen = true ∧ m.el.hasClose = true ∧ Matched m.el.isOpen m.hist.trace
  admits cmd m := cmd = .resume → m.el.state = .running ∨ m.el.isOpen = false

namespace callbackSpec

variable {m m₀ m' : Mem} {spot : Spot} {c : Option Callback}

/-- Between two calls the element is where it rests. -/
theorem point_rest (h : callbackSpec.rest none m) (hseg : callbackSpec.seg m₀ m) :
    callbackSpec.point spot c m₀ m := ⟨⟨h.1, h.2.1, h.2.2.either⟩, hseg⟩

theorem rest_stable {last : Option (AelCmd × ℤ)} (h : callbackSpec.rest last m) (hown : Own m m') :
    callbackSpec.rest last m' := by
  refine ⟨hown.hasOpen.trans h.1, hown.hasClose.trans h.2.1, ?_⟩
  rw [hown.isOpen, hown.trace]
  exact h.2.2

theorem idle_rest (h : callbackSpec.idle m) : callbackSpec.rest none m := by
  refine ⟨h.1, h.2.1, ?_⟩
  rw [h.2.2.1]
  exact h.2.2.2

theorem idle_stable (h : callbackSpec.idle m) (hown : Own m m') : callbackSpec.idle m' :=
  ⟨hown.hasOpen.trans h.1, hown.hasClose.trans h.2.1, hown.isOpen.trans h.2.2.1,
    hown.trace ▸ h.2.2.2⟩

/-- **`close` is called** exactly if there is an `open` to match. -/
theorem closing {Z : Mem → Mem → Prop} (h : callbackSpec.rest none m) (hseg : callbackSpec.seg m₀ m)
    (hZ : ∀ s₀ s, callbackSpec.idle s → callbackSpec.seg s₀ s → Z s₀ s) :
    Closing callbackSpec.rely (callbackSpec.point spot) Z m₀ m where
  call hopen _ := by
    have hm := h.2.2
    rw [hopen] at hm
    exact ⟨⟨h.1, h.2.1, Or.inl hm.closed⟩, hseg⟩
  back hopen _ s' v hR := by
    obtain ⟨hown, -⟩ := hR
    have hm := h.2.2
    rw [hopen] at hm
    refine hZ s' s'.closed ⟨hown.hasOpen.trans h.1, hown.hasClose.trans h.2.1, rfl, ?_⟩ rfl
    show Matched false s'.hist.trace
    rw [hown.trace]
    exact hm.closed
  skip hno := by
    have hclosed : m.el.isOpen = false := by
      by_contra hopen
      exact hno ⟨by simpa using hopen, h.2.1⟩
    have hm := h.2.2
    rw [hclosed] at hm
    exact hZ m₀ m.closed ⟨h.1, h.2.1, rfl, hm⟩ hseg

/-- What the handlers leave behind. -/
def after (_ : ℤ) (_ : Bool) (s₀ s : Mem) : Prop := callbackSpec.rest none s ∧ callbackSpec.seg s₀ s

/-- An action behind it. -/
theorem commit_after {K : Mem → Mem → Prop} {ret : ℤ} {b : Bool} (h : after ret b m₀ m)
    (hK : ∀ s₀ s, after ret b s₀ s → K s₀ s) :
    commit callbackSpec.rely (callbackSpec.point spot) K b m₀ m :=
  commit_of h (fun _ _ h => point_rest h.1 h.2) (fun _ _ _ h hR => ⟨rest_stable h.1 hR.1, rfl⟩) hK

theorem stop (h : callbackSpec.rest none m) (hseg : callbackSpec.seg m₀ m) :
    wp callbackSpec.rely (callbackSpec.point spot) after audioElementOnCmdStop false m₀ m := by
  refine wp_onCmdStop (fun _ _ => ?_) (fun _ _ => ?_) (fun _ _ => ?_)
  · exact closing h hseg fun _ _ h hseg => ⟨idle_rest h, hseg⟩
  · exact ⟨h, hseg⟩
  · exact ⟨h, hseg⟩

theorem finish (h : callbackSpec.rest none m) (hseg : callbackSpec.seg m₀ m) :
    wp callbackSpec.rely (callbackSpec.point spot) after audioElementOnCmdFinish false m₀ m := by
  refine wp_onCmdFinish (fun _ => ?_) (fun _ _ => ?_)
  · exact ⟨h, hseg⟩
  · exact closing h hseg fun _ _ h hseg => ⟨idle_rest h, hseg⟩

theorem error (h : callbackSpec.rest none m) (hseg : callbackSpec.seg m₀ m) :
    wp callbackSpec.rely (callbackSpec.point spot) after audioElementOnCmdError false m₀ m := by
  refine wp_onCmdError (fun _ => ?_) (fun _ => ?_)
  · exact ⟨h, hseg⟩
  · exact closing h hseg fun _ _ h hseg => ⟨idle_rest h, hseg⟩

theorem pause (h : callbackSpec.rest none m) (hseg : callbackSpec.seg m₀ m) :
    wp callbackSpec.rely (callbackSpec.point spot) after (audioElementOnCmd .pause) false m₀ m := by
  have hpaused : callbackSpec.rest none (m.inState .paused) := h
  exact wp_onCmdPause (closing hpaused hseg fun _ _ h hseg => ⟨idle_rest h, hseg⟩)

theorem begin (h : callbackSpec.idle m) :
    wp callbackSpec.rely (callbackSpec.point .begin) callbackSpec.afterRest audioElementTaskBegin
      false m { m with el := { m.el with threadCreated := false } } := by
  have hcreated : callbackSpec.idle { m with el := { m.el with threadCreated := false } }.created :=
    h
  refine wp_taskBegin (point_rest (idle_rest hcreated) rfl) (fun s' hR _ => ?_)
    (fun s₁ s' v hR hR' => ?_) (fun s' hR _ => ?_)
  · have hidle : callbackSpec.idle s' := idle_stable hcreated hR.1
    exact point_rest (idle_rest hidle) rfl
  · have hreset : callbackSpec.idle s₁.reset := by
      have hidle : callbackSpec.idle s₁ := idle_stable hcreated hR.1
      exact hidle
    have hrest : callbackSpec.rest none s' := idle_rest (idle_stable hreset hR'.1)
    unfold Mem.allocated
    split_ifs <;> exact ⟨hrest, rfl⟩
  · have hrest : callbackSpec.rest none s' := idle_rest (idle_stable hcreated hR.1)
    exact ⟨hrest, rfl⟩

theorem ending (h : callbackSpec.left m) :
    wp callbackSpec.rely (callbackSpec.point .ending) callbackSpec.afterEnd audioElementTaskEnd
      false m m := by
  refine wp_taskEnd (J := callbackSpec.idle) (closing h rfl fun _ s h hseg st _ => ?_)
    (fun _ s' h hR => ?_) (fun _ s' h hR => ?_)
  · have hended : callbackSpec.idle (s.inState st).ended := ⟨h.1, h.2.1, rfl, h.2.2.2⟩
    exact ⟨point_rest (idle_rest hended) hseg, hended⟩
  · have hidle : callbackSpec.idle s' := idle_stable h hR.1
    exact ⟨point_rest (idle_rest hidle) rfl, hidle⟩
  · have hidle : callbackSpec.idle s' := idle_stable h hR.1
    exact ⟨hidle, rfl⟩

/-- `audio_element_process_init` opens an element that is closed. -/
theorem processInit (h : callbackSpec.idle m) (hseg : callbackSpec.seg m₀ m) :
    wp callbackSpec.rely (callbackSpec.point spot) after audioElementProcessInit true m₀ m := by
  refine wp_processInit (point_rest (idle_rest h) hseg) (fun s' hR hno => ?_) (fun s' hR _ => ?_)
    (fun s₁ s' v hR _ hR' => ?_)
  · rw [(idle_stable h hR.1).1] at hno
    exact nomatch hno
  · have hidle := idle_stable h hR.1
    exact ⟨⟨hidle.1, hidle.2.1, Or.inr hidle.2.2.2.opened⟩, rfl⟩
  · have hidle := idle_stable h hR.1
    have hopened : callbackSpec.rest none s₁.opening :=
      ⟨hidle.1, hidle.2.1, hidle.2.2.2.opened⟩
    have hrest : callbackSpec.rest none s' := rest_stable hopened hR'.1
    refine wp_afterOpen (fun _ => ?_) (fun _ => ?_) (fun _ => ?_) (fun _ => ?_)
    · exact ⟨hrest, rfl⟩
    · exact ⟨hrest, rfl⟩
    · exact stop hrest rfl
    · exact error hrest rfl

/-- `audio_element_on_cmd_resume` finds the element closed, unless it has nothing to open. -/
theorem resume (h : callbackSpec.rest none m)
    (hadm : m.el.state = .running ∨ m.el.isOpen = false) (hseg : callbackSpec.seg m₀ m) :
    wp callbackSpec.rely (callbackSpec.point spot) after audioElementOnCmdResume false m₀ m := by
  refine wp_onCmdResume (fun _ => ⟨h, hseg⟩) fun hstate rings _ => ?_
  have hclosed : m.el.isOpen = false := hadm.resolve_left hstate
  have hidle : callbackSpec.idle m := by
    refine ⟨h.1, h.2.1, hclosed, ?_⟩
    rw [← hclosed]
    exact h.2.2
  refine wp_post _ ?_ (processInit hidle hseg)
  intro ret b s₀ s h
  refine wp_afterProcessInit (fun _ => ?_) (fun _ => ?_)
  · exact commit_after h fun _ _ h => h
  · exact commit_after h fun _ _ h => h

theorem cmd (c : AelCmd) {queue : List AelCmd} (h : callbackSpec.rest none m)
    (hadm : callbackSpec.admits c m) :
    wp callbackSpec.rely (callbackSpec.point (.cmd c)) (callbackSpec.afterCmd c)
      (audioElementTaskCmd c) false m (Task.receive m c queue) := by
  -- the history of the commands is another matter
  have hrest : callbackSpec.rest none (Task.receive m c queue) := by
    unfold Task.receive
    split_ifs <;> exact h
  have hafter : ∀ ret b s₀ s, after ret b s₀ s → callbackSpec.afterCmd c ret b s₀ s := by
    intro ret b s₀ s h
    unfold TaskSpec.afterCmd
    split_ifs <;> exact h
  have hcmd : wp callbackSpec.rely (callbackSpec.point (.cmd c)) after (audioElementOnCmd c) false m
      (Task.receive m c queue) := by
    cases c with
    | finish => exact finish hrest rfl
    | stop => exact stop hrest rfl
    | pause => exact pause hrest rfl
    | resume => exact resume hrest (hadm rfl) rfl
    | destroy | other => exact ⟨hrest, rfl⟩
  refine wp_taskCmd (wp_post _ ?_ hcmd)
  intro ret b s₀ s h
  exact ⟨fun _ => hafter ret b s₀ s h, fun _ => commit_after h fun _ _ h => hafter ret true _ _ h⟩

/-- The process callback has returned. -/
theorem processed (processLen : ℤ) (h : callbackSpec.rest none m) (hseg : callbackSpec.seg m₀ m)
    (hclosed : ProcessEnds processLen → m.el.state = .init → m.el.isOpen = false) :
    wp callbackSpec.rely (callbackSpec.point .proc) callbackSpec.afterRest
      (audioElementProcessed processLen) false m₀ m := by
  refine wp_processed (fun _ _ => ⟨h, hseg⟩) (fun _ => ?_) (fun hends hinit => ?_)
    (fun _ _ _ _ => ?_) (fun _ => ?_)
  · exact stop h hseg
  · exact resume h (Or.inr (hclosed hends hinit)) hseg
  · exact finish h hseg
  · exact error h hseg

theorem proc {last : Option (AelCmd × ℤ)} (h : callbackSpec.rest last m) :
    wp callbackSpec.rely (callbackSpec.point .proc) callbackSpec.afterRest
      audioElementProcessRunning false m m := by
  have hrest : callbackSpec.rest none m.processing := h
  refine wp_running (fun _ => ⟨hrest, rfl⟩) (fun _ _ => point_rest hrest rfl) fun _ _ s' v hR => ?_
  have hrest' : callbackSpec.rest none s' := rest_stable hrest hR.1
  exact processed v hrest' rfl fun hends hinit => hR.2 v rfl hends.symm hinit

theorem valid : callbackSpec.Valid where
  rely_trans h h' := ⟨h.1.trans h'.1, h'.2⟩
  seg_refl _ := rfl
  here_stable := by
    rintro spot c m m' ⟨hopen, hclose, halt⟩ ⟨hown, -⟩
    exact ⟨hown.hasOpen.trans hopen, hown.hasClose.trans hclose, hown.trace ▸ halt⟩
  rest_stable h hR := rest_stable h hR.1
  idle_stable h hR := idle_stable h hR.1
  left_stable h hR := (rest_stable h hR.1 : callbackSpec.rest none _)
  begin := begin
  cmd h _ _ hadm := cmd _ h hadm
  proc := proc
  leave h _ := h
  ending := ending

theorem compatible : Compatible callbackSpec apiSpec fun _ => True where
  task := valid
  calls _ h := wp_api _ h
  task_rely _ h := h
  ctl_rely _ h := ⟨h.own, fun _ h => nomatch h⟩
  note_rely api m := ⟨Own.noted api m, fun _ h => nomatch h⟩

/-- A step that does not open an open element is one of those the specification speaks of. -/
theorem takes {s : ElSys} {l : ElLabel} (h : s.Reopens l = false) :
    callbackSpec.Takes (fun _ => True) s l := by
  cases l with
  | call api => trivial
  | ctl => trivial
  | task v =>
    simp only [ElSys.Reopens, ElSys.EntersResume] at h
    refine ⟨⟨Own.refl _, ?_⟩, ?_⟩
    · -- the process callback has nothing more
      intro processLen hans hv hst
      have hopen : s.m.el.isOpen = false ∨ s.task = .recv := by
        rw [hans, hst] at h
        split at h
        · right; assumption
        · rename_i heq _
          obtain ⟨⟩ := heq
          simp at h
          exact Or.inl (h hv)
        · rename_i hno
          exact absurd rfl (hno processLen)
      rcases hopen with hopen | hrecv
      · exact hopen
      · rw [hrecv] at hans
        exact nomatch hans
    · intro cmd queue ht hrun hq hcmd
      rw [ht, hrun, hq, hcmd] at h
      by_cases hst : s.m.el.state = .running
      · exact Or.inl hst
      · simp [hst] at h
        exact Or.inr h

end callbackSpec

/-- **Open and close alternate** in every run in which the task never enters
`audio_element_on_cmd_resume` with the element open in a state other than `AEL_STATE_RUNNING`; when
the task has ended every open is matched. -/
theorem callbacks_alternate {config : AudioElementCfg} {rings : ℕ → Ringbuf} {s : ElSys}
    (htask : 0 < config.taskStack) (hopen : config.hasOpen = true) (hclose : config.hasClose = true)
    (h : Lts.Reach ElSys.step (fun s l => s.Reopens l = false)
      (ElSys.ofElement (audioElementInit config) rings) s) :
    Alternating s.m.hist.trace ∧ (s.task = .absent → s.m.hist.trace.length % 2 = 0) := by
  have hinit : ElOk callbackSpec apiSpec (fun _ => True)
      (ElSys.ofElement (audioElementInit config) rings) :=
    ⟨⟨hopen, hclose, rfl, Matched.nil⟩, trivial⟩
  have hok := hinit.reach callbackSpec.compatible (fun hseg => hseg) (hasTask_init htask rings)
    (h.mono fun _ _ hl => callbackSpec.takes hl)
  have htask := hok.1
  constructor
  · have hcall : Matched false s.m.hist.trace ∨ Matched true s.m.hist.trace := by
      cases ht : s.task with
      | absent => rw [ht] at htask; exact Or.inl htask.2.2.2
      | recv | proc | leave => rw [ht] at htask; exact htask.2.2.either
      | begin | inCmd | inProc | ending => rw [ht] at htask; exact htask.1.2.2
    rcases hcall with hm | hm <;> exact hm.alternating
  · intro ht
    rw [ht] at htask
    exact htask.2.2.2.parity

/-- A session: the element opens, processes until there is nothing more, and closes. -/
theorem callbacks_alternate_session :
    ∃ s, Lts.Reach ElSys.step (fun s l => s.Reopens l = false)
        (ElSys.ofElement (audioElementInit plainCfg) fun _ => Ringbuf.empty 4) s ∧
      s.m.hist.trace = [.open, .close] ∧ Alternating s.m.hist.trace := by
  obtain ⟨s, hs⟩ : ∃ s, Lts.run ElSys.step (fun s l => s.Reopens l = false)
      (ElSys.ofElement (audioElementInit plainCfg) fun _ => Ringbuf.empty 4)
      (started ++ [.call (.changeCmd .resume), .task 0, .task 0, .task 0, .task 0, .task 0,
        .task 0, .task 0]) = some s :=
    ⟨_, rfl⟩
  have hr := Lts.Reach.of_run _ Lts.Reach.refl hs
  refine ⟨s, hr, ?_, (callbacks_alternate (by decide) rfl rfl hr).1⟩
  obtain rfl := Option.some.inj hs
  rfl

/-- The calls that send the commands, with those that write the state from outside. -/
def CallbackApi : ElApi → Bool
  | .run | .pause | .resetState => true
  | .changeCmd cmd => cmd ≠ .other
  | _ => false

/-- `audio_element_reset_state` while the element processes: when the process callback has nothing
more, the element is opened a second time and was never closed. -/
theorem not_callbacks_alternate :
    ¬∀ (config : AudioElementCfg) (rings : ℕ → Ringbuf) (s : ElSys), 0 < config.taskStack →
      config.hasOpen = true → config.hasClose = true →
      Lts.Reach ElSys.step (fun _ l => l.Only (CallbackApi ·))
        (ElSys.ofElement (audioElementInit config) rings) s →
      Alternating s.m.hist.trace ∧ (s.task = .absent → s.m.hist.trace.length % 2 = 0) := by
  intro hall
  obtain ⟨s, hs⟩ : ∃ s, Lts.run ElSys.step (fun _ l => l.Only (CallbackApi ·))
      (ElSys.ofElement (audioElementInit plainCfg) fun _ => Ringbuf.empty 4)
      (started ++ [.call (.changeCmd .resume), .task 0, .task 0, .task 0, .task 0, .task 0,
        .call .resetState, .task 0, .task 0]) = some s :=
    ⟨_, rfl⟩
  have halt := (hall _ _ s (by decide) rfl rfl (Lts.Reach.of_run _ Lts.Reach.refl hs)).1
  obtain rfl := Option.some.inj hs
  exact absurd (halt 1 .open rfl) (by decide)

end AudioPipeline
