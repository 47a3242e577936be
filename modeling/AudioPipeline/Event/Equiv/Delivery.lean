import AudioPipeline.Event.Basic
import AudioPipeline.Lib.Lts

/-!
## The messages of a source reach the listener

The queue of the listener is the external queue of every source attached to it, so a call that
discards the queues of one source, or that attaches or detaches one, takes away what the others
have sent.  `events_delivered`: as long as such a call finds no message of another source in the
queue, the listener reads the messages of every source in order, each once.  `event_destroyed`: an
element is run while the report of another one waits.
-/

namespace AudioPipeline

namespace Events

variable (es : Events) {q q' e l : ℕ}

@[simp] theorem setMsgs_iface (msgs : List EventMsg) : (es.setMsgs q msgs).iface = es.iface := rfl

@[simp] theorem setMsgs_msgs (msgs : List EventMsg) :
    ((es.setMsgs q msgs).queue q).msgs = msgs := by
  simp [setMsgs]

theorem setMsgs_msgs_ne (msgs : List EventMsg) (h : q' ≠ q) :
    (es.setMsgs q msgs).queue q' = es.queue q' := by
  simp [setMsgs, h]

@[simp] theorem setExternal_queue (x : Option ℕ) : (es.setExternal e x).queue = es.queue := rfl

theorem drain_iface (x : Option ℕ) (size : ℕ) : (es.drain x size).iface = es.iface := by
  unfold drain
  split
  · rfl
  · split_ifs <;> rfl

/-- A drain leaves a queue as it is, or empties it. -/
theorem drain_msgs (x : Option ℕ) (size : ℕ) :
    ((es.drain x size).queue q).msgs =
      if x = some q ∧ size ≠ 0 then [] else (es.queue q).msgs := by
  unfold drain
  split
  · simp
  · next q' =>
    by_cases hq : q' = q
    · subst hq
      split_ifs <;> simp_all
    · split_ifs <;> simp_all [setMsgs, Function.update_of_ne (Ne.symm hq)]

theorem discard_iface : (es.audioEventIfaceDiscard e).iface = es.iface := by
  rw [audioEventIfaceDiscard, drain_iface, drain_iface]

/-- The call empties the queue. -/
def Discards (e q : ℕ) : Prop :=
  ((es.iface e).externalQueue = some q ∧ (es.iface e).externalQueueSize ≠ 0) ∨
    ((es.iface e).internalQueue = some q ∧ (es.iface e).internalQueueSize ≠ 0)

instance : Decidable (es.Discards e q) := by unfold Discards; infer_instance

theorem discard_msgs :
    ((es.audioEventIfaceDiscard e).queue q).msgs =
      if es.Discards e q then [] else (es.queue q).msgs := by
  rw [audioEventIfaceDiscard, drain_msgs, drain_msgs]
  by_cases h : es.Discards e q
  · rw [if_pos h]
    rcases h with h | h <;> simp [h]
  · obtain ⟨hext, hint⟩ := not_or.mp h
    rw [if_neg h, if_neg hint, if_neg hext]

end Events

namespace EventSys

open Events

/-- Which calls empty the queue `q` of the listener. -/
def Empties (l q : ℕ) (es : Events) : EventLabel → Prop
  | .sendout _ _ | .cmd _ _ | .read _ => False
  | .setListener _ => es.Discards l q
  | .removeListener evt =>
    ¬((es.iface evt).externalQueue = none ∨ (es.iface evt).externalQueueSize = 0) ∧ es.Discards l q
  | .discard evt | .destroy evt => es.Discards evt q
  | .run evt taskRun => taskRun = false ∧ es.Discards evt q

/-- A call that empties the queue of the listener, without being one on the listener, finds no
message of another source there. -/
def Considerate (l q : ℕ) (s : EventSys) (lbl : EventLabel) : Prop :=
  Empties l q s.events lbl → lbl.evt ≠ l →
    ∀ msg ∈ (s.events.queue q).msgs, msg.source = lbl.evt ∨ msg.source = l

/-- The listener `l` has the queue `q`; every other interface is attached to it or to none, and
has another internal queue, if any. -/
structure Around (l q : ℕ) (es : Events) : Prop where
  queue : (es.iface l).internalQueue = some q
  size : (es.iface l).internalQueueSize ≠ 0
  alone : (es.iface l).externalQueue = none
  attached : ∀ e x, (es.iface e).externalQueue = some x → x = q
  apart : ∀ e, (es.iface e).internalQueue = some q → e = l

/-- Nothing was sent yet. -/
structure Init (l q : ℕ) (s : EventSys) : Prop where
  around : Around l q s.events
  empty : (s.events.queue q).msgs = []
  due : ∀ b, s.due b = []
  delivered : ∀ b, s.delivered b = []

/-- What is due of a source has been read, or waits in the queue. -/
structure Delivers (l q : ℕ) (s : EventSys) : Prop where
  around : Around l q s.events
  due : ∀ b, b ≠ l → s.due b = s.delivered b ++ s.events.pending q b

variable {l q : ℕ} {s s' : EventSys} {es : Events}

theorem Around.of_iface {es' : Events} (h : Around l q es) (hi : es'.iface = es.iface) :
    Around l q es' where
  queue := hi ▸ h.queue
  size := hi ▸ h.size
  alone := hi ▸ h.alone
  attached := hi ▸ h.attached
  apart := hi ▸ h.apart

/-- Attaching another interface to the listener, or detaching it. -/
theorem Around.setExternal (h : Around l q es) {e : ℕ} (he : e ≠ l) {x : Option ℕ}
    (hx : ∀ y, x = some y → y = q) : Around l q (es.setExternal e x) where
  queue := by simpa [Events.setExternal, Function.update_of_ne he.symm] using h.queue
  size := by simpa [Events.setExternal, Function.update_of_ne he.symm] using h.size
  alone := by simpa [Events.setExternal, Function.update_of_ne he.symm] using h.alone
  attached e' y hy := by
    by_cases hee : e' = e
    · subst hee
      exact hx y (by simpa [Events.setExternal] using hy)
    · exact h.attached e' y (by simpa [Events.setExternal, Function.update_of_ne hee] using hy)
  apart e' hi := by
    by_cases hee : e' = e
    · subst hee
      exact h.apart e' (by simpa [Events.setExternal] using hi)
    · exact h.apart e' (by simpa [Events.setExternal, Function.update_of_ne hee] using hi)

/-! ### What a call leaves in the queue of the listener -/

/-- A message is appended to the queue, or nothing happens to it. -/
theorem sendout_cases (h : Around l q es) (e : ℕ) (msg : EventMsg) :
    (es.audioEventIfaceSendout e msg).2.iface = es.iface ∧
      if (es.audioEventIfaceSendout e msg).1 = ESP_OK ∧ (es.iface e).externalQueue ≠ none then
        ((es.audioEventIfaceSendout e msg).2.queue q).msgs = (es.queue q).msgs ++ [msg]
      else ((es.audioEventIfaceSendout e msg).2.queue q).msgs = (es.queue q).msgs := by
  unfold audioEventIfaceSendout audioQueueSend
  split
  · next hx => simp [hx]
  · next x hx =>
    obtain rfl := h.attached e x hx
    split_ifs <;> simp_all

/-- A command goes to the interface itself. -/
theorem cmd_cases (h : Around l q es) (e : ℕ) (msg : EventMsg) :
    (es.audioEventIfaceCmd e msg).2.iface = es.iface ∧
      (((es.audioEventIfaceCmd e msg).2.queue q).msgs = (es.queue q).msgs ∨
        e = l ∧ ((es.audioEventIfaceCmd e msg).2.queue q).msgs = (es.queue q).msgs ++ [msg]) := by
  unfold audioEventIfaceCmd audioQueueSend
  split
  · simp
  · next x hx =>
    by_cases hxq : x = q
    · subst hxq
      have he : e = l := h.apart e hx
      split_ifs <;> simp_all
    · split_ifs
      · refine ⟨rfl, Or.inl ?_⟩
        rw [es.setMsgs_msgs_ne _ (Ne.symm hxq)]
      · exact ⟨rfl, Or.inl rfl⟩

/-- The listener takes the first message of the queue; others read elsewhere. -/
theorem read_cases (h : Around l q es) (e : ℕ) :
    (es.audioEventIfaceRead e).2.iface = es.iface ∧
      if e = l then
        (es.queue q).msgs =
          (es.audioEventIfaceRead e).1.toList ++ ((es.audioEventIfaceRead e).2.queue q).msgs
      else ((es.audioEventIfaceRead e).2.queue q).msgs = (es.queue q).msgs := by
  unfold audioEventIfaceRead audioQueueRecv
  by_cases he : e = l
  · subst he
    rw [h.queue, if_pos rfl]
    dsimp only
    split <;> simp_all
  · rw [if_neg he]
    split
    · exact ⟨rfl, rfl⟩
    · next x hx =>
      have hxq : q ≠ x := fun hq => he (h.apart e (hq ▸ hx))
      split
      · exact ⟨rfl, rfl⟩
      · exact ⟨rfl, by rw [es.setMsgs_msgs_ne _ hxq]⟩

theorem destroy_cases (h : Around l q es) (e : ℕ) :
    (es.audioEventIfaceDestroy e).iface = es.iface ∧
      ((es.audioEventIfaceDestroy e).queue q).msgs =
        if es.Discards e q then [] else (es.queue q).msgs := by
  unfold audioEventIfaceDestroy
  split
  · exact ⟨es.discard_iface, es.discard_msgs⟩
  · next x hx =>
    refine ⟨es.discard_iface, ?_⟩
    by_cases hxq : x = q
    · subst hxq
      obtain rfl := h.apart e hx
      have hd : es.Discards e x := Or.inr ⟨hx, h.size⟩
      simp [audioQueueDelete, hd]
    · rw [← es.discard_msgs, audioQueueDelete]
      exact congrArg MsgQueue.msgs (Function.update_of_ne (Ne.symm hxq) _ _)

/-! ### The invariant -/

theorem pending_append {es' : Events} {msg : EventMsg}
    (h : (es'.queue q).msgs = (es.queue q).msgs ++ [msg]) (b : ℕ) :
    es'.pending q b = es.pending q b ++ if msg.source = b then [msg.data] else [] := by
  rw [Events.pending, h, List.filter_append, List.map_append, Events.pending]
  by_cases hb : msg.source = b <;> simp [hb]

theorem pending_congr {es' : Events} (h : (es'.queue q).msgs = (es.queue q).msgs) (b : ℕ) :
    es'.pending q b = es.pending q b := by
  rw [Events.pending, h, Events.pending]

/-- A call that leaves the queue alone or empties it, considerately. -/
theorem Delivers.noteDiscard (h : Delivers l q s) {evt : ℕ} {es : Events} (hi : Around l q es)
    {E : Prop} [Decidable E]
    (hm : (es.queue q).msgs = if E then [] else (s.events.queue q).msgs)
    (hc : E → evt ≠ l → ∀ msg ∈ (s.events.queue q).msgs, msg.source = evt ∨ msg.source = l) :
    Delivers l q (s.noteDiscard l q evt es) := by
  refine ⟨hi, fun b hb => ?_⟩
  show (if evt = l ∨ evt = b then s.delivered b ++ es.pending q b else s.due b) =
    s.delivered b ++ es.pending q b
  split_ifs with he
  · rfl
  · obtain ⟨hel, heb⟩ := not_or.mp he
    rw [h.due b hb]
    congr 1
    by_cases hE : E
    · -- the queue was emptied, and held nothing of `b`
      have hnone : s.events.pending q b = [] := by
        rw [Events.pending, List.map_eq_nil_iff, List.filter_eq_nil_iff]
        intro msg hmsg hsrc
        rcases hc hE hel msg hmsg with h1 | h1 <;> simp_all
      rw [hnone, Events.pending, hm, if_pos hE]
      rfl
    · rw [if_neg hE] at hm
      exact (pending_congr hm b).symm

theorem Delivers.noteSent (h : Delivers l q s) (evt : ℕ) (data : ℤ) :
    Delivers l q (s.noteSent evt data (s.events.audioEventIfaceSendout evt ⟨evt, data⟩)) := by
  obtain ⟨hi, hm⟩ := sendout_cases h.around evt ⟨evt, data⟩
  unfold EventSys.noteSent
  split_ifs at hm ⊢ with hok
  · refine ⟨h.around.of_iface hi, fun b hb => ?_⟩
    show Function.update s.due evt (s.due evt ++ [data]) b = s.delivered b ++ _
    rw [pending_append hm b, ← List.append_assoc, ← h.due b hb]
    by_cases heb : evt = b
    · subst heb
      simp
    · simp [heb, Function.update_of_ne (Ne.symm heb)]
  · refine ⟨h.around.of_iface hi, fun b hb => ?_⟩
    show s.due b = s.delivered b ++ _
    rw [pending_congr hm b, h.due b hb]

theorem Delivers.cmd (h : Delivers l q s) (evt : ℕ) (data : ℤ) :
    Delivers l q { s with events := (s.events.audioEventIfaceCmd evt ⟨evt, data⟩).2 } := by
  obtain ⟨hi, hm⟩ := cmd_cases h.around evt ⟨evt, data⟩
  refine ⟨h.around.of_iface hi, fun b hb => ?_⟩
  show s.due b = s.delivered b ++ _
  rcases hm with hm | ⟨rfl, hm⟩
  · rw [pending_congr hm b, h.due b hb]
  · rw [pending_append hm b, if_neg (Ne.symm hb), List.append_nil, h.due b hb]

theorem Delivers.noteRead (h : Delivers l q s) (evt : ℕ) :
    Delivers l q (s.noteRead l evt (s.events.audioEventIfaceRead evt)) := by
  obtain ⟨hi, hm⟩ := read_cases h.around evt
  unfold EventSys.noteRead
  by_cases he : evt = l
  · rw [if_pos he] at hm
    cases hr : (s.events.audioEventIfaceRead evt).1 with
    | none =>
      rw [hr] at hm
      exact ⟨h.around.of_iface hi, fun b hb =>
        (h.due b hb).trans (congrArg _ (pending_congr hm.symm b).symm)⟩
    | some msg =>
      rw [hr] at hm
      refine ⟨by simpa [he] using h.around.of_iface hi, fun b hb => ?_⟩
      have hp : s.events.pending q b =
          (if msg.source = b then [msg.data] else []) ++
            (s.events.audioEventIfaceRead evt).2.pending q b := by
        rw [Events.pending, hm, Option.toList_some, List.filter_append, List.map_append,
          Events.pending]
        by_cases hb : msg.source = b <;> simp [hb]
      simp only [if_pos he]
      rw [h.due b hb, hp]
      by_cases hsb : msg.source = b
      · subst hsb
        simp
      · simp [hsb, Function.update_of_ne (Ne.symm hsb)]
  · rw [if_neg he] at hm
    have hkeep : Delivers l q { s with events := (s.events.audioEventIfaceRead evt).2 } :=
      ⟨h.around.of_iface hi, fun b hb =>
        (h.due b hb).trans (congrArg _ (pending_congr hm b).symm)⟩
    cases hr : (s.events.audioEventIfaceRead evt).1 with
    | none => exact hkeep
    | some msg => simpa [he] using hkeep

/-- One call keeps the invariant. -/
theorem Delivers.step (h : Delivers l q s) {lbl : EventLabel} (hc : Considerate l q s lbl)
    (hs : EventSys.step l q s lbl = some s') : Delivers l q s' := by
  unfold EventSys.step at hs
  have hl := h.around
  split_ifs at hs
  cases lbl with
  | sendout evt data =>
    obtain rfl := Option.some.inj hs
    exact h.noteSent evt data
  | cmd evt data =>
    obtain rfl := Option.some.inj hs
    exact h.cmd evt data
  | read evt =>
    obtain rfl := Option.some.inj hs
    exact h.noteRead evt
  | setListener evt =>
    dsimp only at hs
    split_ifs at hs with he
    obtain rfl := Option.some.inj hs
    have hev : evt ≠ l := fun hx => he (Or.inl hx)
    -- the queue of the source is attached to the set after the set has been emptied
    have hset : (s.events.audioEventIfaceSetListener evt l).2 =
        (s.events.audioEventIfaceDiscard l).setExternal evt (some q) := by
      simp [audioEventIfaceSetListener, hl.queue, hl.size]
    rw [hset]
    refine h.noteDiscard (E := s.events.Discards l q)
      ((hl.of_iface s.events.discard_iface).setExternal hev (by simp)) ?_ hc
    exact s.events.discard_msgs
  | removeListener evt =>
    dsimp only at hs
    split_ifs at hs with he
    obtain rfl := Option.some.inj hs
    have hev : evt ≠ l := fun hx => he (Or.inl hx)
    unfold audioEventIfaceRemoveListener
    split_ifs with hx
    · exact h.noteDiscard (E := False) hl (by simp) (by simp)
    · refine h.noteDiscard (E := s.events.Discards l q)
        ((hl.of_iface s.events.discard_iface).setExternal hev (by simp)) ?_
        (fun hE => hc ⟨hx, hE⟩)
      exact s.events.discard_msgs
  | discard evt =>
    obtain rfl := Option.some.inj hs
    exact h.noteDiscard (E := s.events.Discards evt q) (hl.of_iface s.events.discard_iface)
      s.events.discard_msgs hc
  | destroy evt =>
    obtain rfl := Option.some.inj hs
    obtain ⟨hi, hm⟩ := destroy_cases hl evt
    have hd := h.noteDiscard (E := s.events.Discards evt q) (hl.of_iface hi) hm hc
    exact ⟨hd.around, hd.due⟩
  | run evt taskRun =>
    dsimp only at hs
    split_ifs at hs with he
    obtain rfl := Option.some.inj hs
    -- a thread that is there already is left as it is
    unfold Events.audioElementRun
    split_ifs with ht
    · exact h.noteDiscard (E := False) hl (by simp) (by simp)
    · exact h.noteDiscard (E := s.events.Discards evt q) (hl.of_iface s.events.discard_iface)
        s.events.discard_msgs (fun hE => hc ⟨by simpa using ht, hE⟩)

/-- **Delivery**: as long as no call empties the queue of the listener while a message of another
source waits there, what is due of every source was read in order, each message once, or still
waits in the queue. -/
theorem events_delivered {s₀ : EventSys} (h₀ : Init l q s₀)
    (h : Lts.Reach (EventSys.step l q) (Considerate l q) s₀ s) (b : ℕ) (hb : b ≠ l) :
    s.due b = s.delivered b ++ s.events.pending q b := by
  have hinit : Delivers l q s₀ :=
    ⟨h₀.around, fun b _ => by rw [h₀.due, h₀.delivered, Events.pending, h₀.empty]; rfl⟩
  exact (h.invariant hinit fun _ _ _ hI hP hs => hI.step hP hs).due b hb

/-- The listener `0` and two elements, each with queues of five messages, attached to it. -/
def twoElements : EventSys where
  events :=
    { iface := fun e =>
        { internalQueue := some e, externalQueue := if e = 0 then none else some 0,
          internalQueueSize := 5, externalQueueSize := 5 }
      queue := fun _ => { maxmsg := 5, msgs := [] } }
  destroyed := fun _ => false
  due := fun _ => []
  delivered := fun _ => []

theorem twoElements_init : Init 0 0 twoElements where
  around :=
    { queue := rfl
      size := by decide
      alone := rfl
      attached := by
        intro e x hx
        simp only [twoElements] at hx
        split_ifs at hx
        exact (Option.some.inj hx).symm
      apart := fun e he => Option.some.inj he }
  empty := rfl
  due _ := rfl
  delivered _ := rfl

/-- An element reports, another one sends out a message of its own and is detached: of the first
report nothing is lost when the listener reads it before. -/
theorem events_delivered_two :
    ∃ s, Lts.Reach (EventSys.step 0 0) (Considerate 0 0) twoElements s ∧
      s.due 2 = s.delivered 2 ++ s.events.pending 0 2 ∧ s.delivered 2 = [6] := by
  obtain ⟨s₁, hs₁⟩ : ∃ s, EventSys.step 0 0 twoElements (.sendout 2 6) = some s := ⟨_, rfl⟩
  obtain ⟨s₂, hs₂⟩ : ∃ s, EventSys.step 0 0 s₁ (.read 0) = some s := by
    obtain rfl := Option.some.inj hs₁
    exact ⟨_, rfl⟩
  obtain ⟨s₃, hs₃⟩ : ∃ s, EventSys.step 0 0 s₂ (.removeListener 1) = some s := by
    obtain rfl := Option.some.inj hs₁
    obtain rfl := Option.some.inj hs₂
    exact ⟨_, rfl⟩
  have hempty : (s₂.events.queue 0).msgs = [] := by
    obtain rfl := Option.some.inj hs₁
    obtain rfl := Option.some.inj hs₂
    rfl
  have hr : Lts.Reach (EventSys.step 0 0) (Considerate 0 0) twoElements s₃ := by
    refine ((Lts.Reach.refl.tail ?_ hs₁).tail ?_ hs₂).tail ?_ hs₃
    · exact fun h => absurd h (by simp [Empties])
    · exact fun h => absurd h (by simp [Empties])
    · intro _ _ msg hmsg
      rw [hempty] at hmsg
      exact absurd hmsg (by simp)
  refine ⟨s₃, hr, events_delivered twoElements_init hr 2 (by decide), ?_⟩
  obtain rfl := Option.some.inj hs₁
  obtain rfl := Option.some.inj hs₂
  obtain rfl := Option.some.inj hs₃
  rfl

/-- The report of element `2` is sent out and waits for the listener; element `1` is run, and it is
gone. -/
theorem event_destroyed :
    ∃ s, Lts.Reach (EventSys.step 0 0) (fun _ _ => True) twoElements s ∧ Init 0 0 twoElements ∧
      s.due 2 = [6] ∧ s.delivered 2 = [] ∧ s.events.pending 0 2 = [] := by
  obtain ⟨s, hs⟩ : ∃ s, Lts.run (EventSys.step 0 0) (fun _ _ => True) twoElements
      [.sendout 2 6, .run 1 false] = some s := ⟨_, rfl⟩
  refine ⟨s, Lts.Reach.of_run _ Lts.Reach.refl hs, twoElements_init, ?_⟩
  obtain rfl := Option.some.inj hs
  exact ⟨rfl, rfl, rfl⟩

end EventSys

end AudioPipeline
