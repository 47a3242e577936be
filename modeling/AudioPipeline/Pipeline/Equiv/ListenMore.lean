import AudioPipeline.Pipeline.Status

/-!
# Listening to more

`audio_queue_recv` returns the length of the message, which is not 0, so that the loop over a queue
ends with the first message: `listenOne` takes one away.

* `listen_more_iff`: the queues are empty afterwards exactly if each had no more messages than there
  are elements in the list that send to it.
-/

namespace AudioPipeline

namespace Events

variable {sizeofMsg : ℕ+} {es : Events} {q : ℕ}

/-- The list names an element with this event queue so many times. -/
def visits (es : Events) (els : List ℕ) (q : ℕ) : ℕ :=
  els.countP fun el => es.audioElementGetEventQueue el = some q

/-- A message is taken from the queue. -/
theorem recv_msgs (es : Events) (q k : ℕ) : ((es.audioQueueRecv q).2.queue k).msgs =
    if k = q then (es.queue k).msgs.tail else (es.queue k).msgs := by
  unfold audioQueueRecv
  cases hmsgs : (es.queue q).msgs with
  | nil =>
    show (es.queue k).msgs = _
    split_ifs with hk
    · rw [hk, hmsgs]
      rfl
    · rfl
  | cons msg msgs =>
    show (Function.update es.queue q _ k).msgs = _
    split_ifs with hk
    · rw [hk, Function.update_self, hmsgs]
      rfl
    · rw [Function.update_of_ne hk]

theorem recv_iface (es : Events) (q : ℕ) : (es.audioQueueRecv q).2.iface = es.iface := by
  unfold audioQueueRecv
  split <;> rfl

/-- No result of `audio_queue_recv` is 0. -/
theorem recvReturns_ne_zero (sizeofMsg : ℕ+) (msg : Option EventMsg) :
    audioQueueRecvReturns sizeofMsg msg ≠ 0 := by
  cases msg with
  | none => exact nofun
  | some msg =>
    show ((sizeofMsg : ℕ) : ℤ) ≠ 0
    have hpos := sizeofMsg.pos
    omega

/-- The loop over a queue ends after one message. -/
theorem listenLoop_eq (sizeofMsg : ℕ+) (es : Events) (q fuel : ℕ) :
    listenLoop sizeofMsg q (fuel + 1) es = some (es.audioQueueRecv q).2 := by
  rw [listenLoop]
  exact if_neg (recvReturns_ne_zero sizeofMsg _)

/-- **One element**: a message less in its event queue. -/
theorem listenOne_spec (sizeofMsg : ℕ+) (es : Events) (el : ℕ) :
    ∃ es', listenOne sizeofMsg es el = some es' ∧ es'.iface = es.iface ∧
      ∀ k, (es'.queue k).msgs =
        if es.audioElementGetEventQueue el = some k then (es.queue k).msgs.tail
        else (es.queue k).msgs := by
  unfold listenOne
  cases hq : es.audioElementGetEventQueue el with
  | none => exact ⟨es, rfl, rfl, fun k => rfl⟩
  | some q =>
    refine ⟨_, listenLoop_eq sizeofMsg es q _, recv_iface es q, fun k => ?_⟩
    rw [recv_msgs]
    by_cases hk : k = q
    · rw [if_pos hk, hk, if_pos rfl]
    · rw [if_neg hk, if_neg (fun heq => hk (Option.some.inj heq).symm)]

/-- **The list**, by induction: each queue has lost a message for each visit. -/
theorem listenMore_spec (sizeofMsg : ℕ+) (es : Events) (els : List ℕ) :
    ∃ es', audioPipelineListenMore sizeofMsg es els = some es' ∧ es'.iface = es.iface ∧
      ∀ k, (es'.queue k).msgs = (es.queue k).msgs.drop (es.visits els k) := by
  induction els generalizing es with
  | nil => exact ⟨es, rfl, rfl, fun k => rfl⟩
  | cons el els ih =>
    obtain ⟨es₁, hone, hiface, hmsgs⟩ := listenOne_spec sizeofMsg es el
    obtain ⟨es', hmore, hiface', hmsgs'⟩ := ih es₁
    refine ⟨es', ?_, hiface'.trans hiface, fun k => ?_⟩
    · rw [audioPipelineListenMore, hone]
      exact hmore
    · have hvisits : es₁.visits els k = es.visits els k := by
        unfold visits audioElementGetEventQueue
        rw [hiface]
      have hcons : es.visits (el :: els) k = es.visits els k +
          if es.audioElementGetEventQueue el = some k then 1 else 0 := by
        unfold visits
        rw [List.countP_cons]
        simp only [decide_eq_true_eq]
      rw [hmsgs', hmsgs, hvisits, hcons]
      split_ifs with hk
      · rw [← List.drop_one, List.drop_drop, Nat.add_comm]
      · rfl

end Events

/-- **What `audio_pipeline_listen_more` leaves**: it returns, and the event queues of the elements
are empty exactly if each had no more messages than there are elements in the list that send to
it. -/
theorem listen_more_iff (sizeofMsg : ℕ+) (es : Events) (els : List ℕ) :
    ∃ es', Events.audioPipelineListenMore sizeofMsg es els = some es' ∧
      ((∀ el ∈ els, ∀ q, es.audioElementGetEventQueue el = some q → (es'.queue q).msgs = []) ↔
        ∀ el ∈ els, ∀ q, es.audioElementGetEventQueue el = some q →
          (es.queue q).msgs.length ≤ es.visits els q) := by
  obtain ⟨es', hmore, -, hmsgs⟩ := Events.listenMore_spec sizeofMsg es els
  refine ⟨es', hmore, ?_⟩
  simp only [hmsgs, List.drop_eq_nil_iff]

/-- An element with two events in its queue. -/
theorem listen_more_leaves :
    ¬∀ (sizeofMsg : ℕ+) (es : Events) (els : List ℕ),
      ∃ es', Events.audioPipelineListenMore sizeofMsg es els = some es' ∧
        ∀ el ∈ els, ∀ q, es.audioElementGetEventQueue el = some q → (es'.queue q).msgs = [] := by
  intro hall
  obtain ⟨es', hmore, hempty⟩ := hall 40
    { iface := fun _ => ⟨some 1, some 2, 5, 5⟩
      queue := fun _ => ⟨5, [⟨1, 0⟩, ⟨1, 1⟩]⟩ } [1]
  obtain rfl := Option.some.inj hmore
  exact nomatch hempty 1 (List.mem_singleton_self 1) 2 rfl

end AudioPipeline
