import AudioPipeline.Element.Info
import AudioPipeline.Lib.Lts

/-!
## Updates of the information of an element

`info_updates`: in every interleaving in which a callback writes its copy back only while the
fields that it does not mean to change are as it read them (`UpToDate`), `el->info` is what the
updates make of it in the order of their sections, and its string is allocated; and a step that
is not of this kind loses an update.

`info_update_lost`: `_pcm_write` puts back the string that `audio_element_set_uri` has replaced.
-/

namespace AudioPipeline

/-! ### One change -/

/-- The fields that the callback does not change, and those whose old values it uses, are the same
in its copy and in `el->info`. -/
def Change.Untouched : Change → Info → Info → Prop
  | .addBytePos _, copy, now => copy = now
  | .frame _, copy, now =>
    copy.bytePos = now.bytePos ∧ copy.totalBytes = now.totalBytes ∧
      copy.duration = now.duration ∧ copy.uri = now.uri ∧ copy.userData1 = now.userData1 ∧
      copy.userData2 = now.userData2 ∧ copy.userData3 = now.userData3 ∧
      copy.userData4 = now.userData4

instance (c : Change) (copy now : Info) : Decidable (c.Untouched copy now) := by
  cases c with
  | addBytePos n => exact inferInstanceAs (Decidable (copy = now))
  | frame f => exact inferInstanceAs (Decidable (_ ∧ _))

/-- Writing the changed copy back is the change of `el->info` exactly then. -/
theorem Change.apply_eq_iff (c : Change) (copy now : Info) :
    c.apply copy = c.apply now ↔ c.Untouched copy now := by
  cases c with
  | addBytePos n =>
    -- the addition can be taken back
    have hback : ∀ info,
        (Change.addBytePos (-n)).apply ((Change.addBytePos n).apply info) = info := by
      intro info
      have hpos : info.bytePos + n + -n = info.bytePos := by omega
      simp only [Change.apply, hpos]
    constructor
    · intro h
      show copy = now
      rw [← hback copy, h, hback]
    · intro h
      rw [show copy = now from h]
  | frame f => simp [Change.apply, Change.Untouched]

/-- A change keeps the string. -/
theorem Change.apply_uri (c : Change) (info : Info) : (c.apply info).uri = info.uri := by
  cases c <;> rfl

namespace InfoSys

variable {s₀ s s' : InfoSys}

/-! ### Runs -/

/-- The string of the element is allocated. -/
def HasUri (s : InfoSys) : Prop := ∀ str, s.info.uri = some str → s.strings str ≠ none

/-- Every update is in `el->info`, in the order of the sections, and the string is allocated. -/
def AllUpdates (s₀ s : InfoSys) : Prop :=
  s.info = s.updates.foldl (fun info u => u.apply info) s₀.info ∧ s.HasUri

/-- A callback that writes its copy back does so while nobody has touched the other fields. -/
def UpToDate (s : InfoSys) : Event → Prop
  | .task _ =>
    match s.task with
    | .setinfo change copy _ => change.Untouched copy s.info
    | _ => True
  | _ => True

instance (s : InfoSys) (e : Event) : Decidable (UpToDate s e) := by
  unfold UpToDate
  split
  · split <;> infer_instance
  · infer_instance

/-- A section whose update is `u`. -/
theorem AllUpdates.update {u : Update} (h : AllUpdates s₀ s) (hinfo : s'.info = u.apply s.info)
    (hupd : s'.updates = s.updates ++ [u]) (huri : s'.HasUri) : AllUpdates s₀ s' := by
  refine ⟨?_, huri⟩
  rw [hinfo, hupd, List.foldl_append, ← h.1]
  rfl

theorem freeUri_eq (s : InfoSys) :
    ∃ strings, s.freeUri = { s with strings := strings } := by
  unfold freeUri
  split
  · exact ⟨s.strings, rfl⟩
  · exact ⟨_, rfl⟩

/-- A call from another thread is one update; a string that it stores is allocated. -/
theorem AllUpdates.api (h : AllUpdates s₀ s) (c : InfoCall) : AllUpdates s₀ (s.api c).2 := by
  have hfield : ∀ u : Update, (u.apply s.info).uri = s.info.uri → AllUpdates s₀ (s.update u) := by
    intro u hu
    refine h.update rfl rfl fun str hstr => h.2 str ?_
    rw [← hu]
    exact hstr
  cases c with
  | setUri uri ok =>
    obtain ⟨strings, hfree⟩ := s.freeUri_eq
    show AllUpdates s₀ (s.audioElementSetUri uri ok).2
    unfold audioElementSetUri
    rw [hfree]
    cases uri with
    | none =>
      exact h.update rfl rfl fun str hstr => absurd hstr (by simp [InfoSys.update, Update.apply])
    | some uri =>
      cases ok with
      | false =>
        exact h.update rfl rfl fun str hstr => absurd hstr (by simp [InfoSys.update, Update.apply])
      | true =>
        refine h.update rfl rfl fun str hstr => ?_
        obtain rfl : s.nextStr = str := Option.some.inj hstr
        show Function.update strings s.nextStr (some uri) s.nextStr ≠ none
        rw [Function.update_self]
        exact Option.some_ne_none uri
  | setBytePos pos => exact hfield _ rfl
  | updateBytePos pos => exact hfield _ rfl
  | setTotalBytes n => exact hfield _ rfl
  | updateTotalBytes n => exact hfield _ rfl
  | setBps bitRate => exact hfield _ rfl
  | setCodecFmt format => exact hfield _ rfl
  | setMusicInfo sampleRates channels bits => exact hfield _ rfl
  | setDuration n => exact hfield _ rfl

/-- A step keeps all updates exactly if it writes no copy back that is out of date. -/
theorem AllUpdates.step_iff (h : AllUpdates s₀ s) {e : Event} (hs : step s e = some s') :
    AllUpdates s₀ s' ↔ UpToDate s e := by
  cases e with
  | api c =>
    obtain rfl := Option.some.inj hs
    exact iff_of_true (h.api c) trivial
  | start cb =>
    refine iff_of_true ?_ trivial
    simp only [step] at hs
    split at hs
    · obtain rfl := Option.some.inj hs
      exact h
    · exact absurd hs (by simp)
  | task answer =>
    simp only [step, runTask] at hs
    unfold UpToDate
    cases htask : s.task with
    | ret a => simp [htask] at hs
    | getinfo k =>
      simp only [htask, Option.some.injEq] at hs
      obtain rfl := hs
      exact iff_of_true h trivial
    | call k =>
      simp only [htask, Option.some.injEq] at hs
      obtain rfl := hs
      exact iff_of_true h trivial
    | updateBytePos pos k =>
      simp only [htask, Option.some.injEq] at hs
      obtain rfl := hs
      exact iff_of_true (h.update rfl rfl h.2) trivial
    | setinfo change copy k =>
      simp only [htask, Option.some.injEq] at hs
      obtain rfl := hs
      show AllUpdates s₀ _ ↔ change.Untouched copy s.info
      rw [← change.apply_eq_iff]
      constructor
      · -- the record says what `el->info` should be
        rintro ⟨hinfo, -⟩
        rw [List.foldl_append, ← h.1] at hinfo
        exact hinfo
      · intro heq
        have hinfo : change.apply copy = (Update.callback change).apply s.info := heq
        refine h.update hinfo rfl fun str hstr => h.2 str ?_
        change (change.apply copy).uri = some str at hstr
        rwa [heq, change.apply_uri] at hstr

/-- **No lost update**: in every run in which no copy is written back that is out of date, every
update is in `el->info`, in the order of the sections under the lock, and the string of the element
is allocated; and a further step loses an update exactly if it is not of that kind. -/
theorem info_updates (huri : s₀.HasUri) (hnone : s₀.updates = [])
    (hr : Lts.Reach step UpToDate s₀ s) :
    AllUpdates s₀ s ∧ ∀ e s', step s e = some s' → (AllUpdates s₀ s' ↔ UpToDate s e) := by
  have h₀ : AllUpdates s₀ s₀ := ⟨by rw [hnone]; rfl, huri⟩
  have h : AllUpdates s₀ s :=
    hr.invariant h₀ fun s e s' h hup hs => (h.step_iff hs).mpr hup
  exact ⟨h, fun e s' hs => h.step_iff hs⟩

theorem start_hasUri : start.HasUri := fun str h => absurd h (by simp [start, Info.default])

/-- `_pcm_write` runs between two calls of another thread, and `mp3_decoder_process` around one
that sets what it sets as well. -/
theorem info_updates_pcm :
    ∃ s, Lts.run step UpToDate start
        [.api (.setUri (some ['a']) true), .start (.pcmWrite 4), .task 0, .task 10, .task 0,
          .api (.setBytePos 7), .start (.mp3DecoderProcess 0 [⟨128000, 2, 44100, 16, 2304⟩] 1),
          .task 512, .task 0, .api (.setMusicInfo 8000 1 8), .task 0, .task 4608] = some s ∧
      AllUpdates start s ∧ s.info.bytePos = 7 ∧ s.info.sampleRates = 44100 ∧
      s.info.uri = some 0 := by
  obtain ⟨s, hs, hobs⟩ := Option.map_eq_some_iff.mp (show (Lts.run step UpToDate start
      [.api (.setUri (some ['a']) true), .start (.pcmWrite 4), .task 0, .task 10, .task 0,
        .api (.setBytePos 7), .start (.mp3DecoderProcess 0 [⟨128000, 2, 44100, 16, 2304⟩] 1),
        .task 512, .task 0, .api (.setMusicInfo 8000 1 8), .task 0, .task 4608]).map
        (fun s => (s.info.bytePos, s.info.sampleRates, s.info.uri)) = some (7, 44100, some 0) by
    decide)
  simp only [Prod.mk.injEq] at hobs
  exact ⟨s, hs, (info_updates start_hasUri rfl (Lts.Reach.refl.of_run _ hs)).1, hobs⟩

/-- What a process callback has returned. -/
def returnValue : InfoCode → Option ℤ
  | .ret a => some a
  | _ => none

/-- `audio_element_set_uri` replaces the string while `_pcm_write` waits for the sound card: the old
string is back, and it is not allocated. -/
theorem info_update_lost :
    ∃ s, Lts.run step (fun _ _ => True) start
        [.api (.setUri (some ['a']) true), .start (.pcmWrite 4), .task 0,
          .api (.setUri (some ['b']) true), .task 10, .task 0] = some s ∧
      (∃ a, s.task = .ret a) ∧ ¬AllUpdates start s ∧ s.info.uri = some 0 ∧ s.strings 0 = none ∧
      s.updates = [.uri (some 0), .uri (some 1), .callback (.addBytePos 40)] := by
  obtain ⟨s, hs, hobs⟩ := Option.map_eq_some_iff.mp (show (Lts.run step (fun _ _ => True) start
      [.api (.setUri (some ['a']) true), .start (.pcmWrite 4), .task 0,
        .api (.setUri (some ['b']) true), .task 10, .task 0]).map
        (fun s => (s.info.uri, s.strings 0, s.updates, returnValue s.task)) =
      some (some 0, none, [.uri (some 0), .uri (some 1), .callback (.addBytePos 40)], some 40) by
    decide)
  simp only [Prod.mk.injEq] at hobs
  obtain ⟨huri, hstr, hupd, htask⟩ := hobs
  refine ⟨s, hs, ?_, fun hall => hall.2 0 huri hstr, huri, hstr, hupd⟩
  cases h : s.task with
  | ret a => exact ⟨a, rfl⟩
  | _ => simp [h, returnValue] at htask

end InfoSys

end AudioPipeline
