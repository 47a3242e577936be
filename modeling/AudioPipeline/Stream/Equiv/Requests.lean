import AudioPipeline.Ringbuf.Equiv.Results
import AudioPipeline.Ringbuf.Equiv.Stall
import AudioPipeline.Stream.Basic

/-!
## What an element asks its input for

* `input_respects_iff`: `audio_element_input` keeps to the size that it is given exactly if the
  input is no sound card with a larger buffer.
-/

namespace AudioPipeline

variable {ι : Type} [DecidableEq ι]

/-- `el->in` and `el->read_type`. -/
inductive ElementIn
  | callback (cb : Option ReadCb)
  | ring (rb : Option Ringbuf)
  /-- neither -/
  | invalid

/-- `audio_element_input(el, buffer, wanted)` returns `ret`, after its callback has asked the source
for `asked` bytes.  A ring is read by the thread `t`, between other threads. -/
inductive InputReturns (ι : Type) [DecidableEq ι] (wanted : ℤ) :
    ElementIn → Option ℤ → ℤ → Prop
  | callback (cb : ReadCb) (answer : ℤ) (h : cb.Answers wanted answer) :
    InputReturns ι wanted (.callback (some cb)) (cb.asked wanted) (cb.ret answer)
  | noCallback : InputReturns ι wanted (.callback none) none ESP_FAIL
  | ring {blockSize nBlocks : ℤ} {allocated : Bool} {rb : Ringbuf}
    (hcreate : rbCreate blockSize nBlocks allocated = some rb) {s : RbTrace ι}
    (hs : RbTrace.Reachable rb s) {t : ι} {c : ReadCall} (hth : s.sys.thread t = .reading c)
    (hlen : (s.log t).len = wanted) {ret : ℤ} (hret : c.pc = .ret ret) :
    InputReturns ι wanted (.ring (some rb)) none ret
  | noRing : InputReturns ι wanted (.ring none) none ESP_FAIL
  | invalid : InputReturns ι wanted .invalid none ESP_FAIL

/-- The input keeps to the size that it is given. -/
def RespectsSize (ι : Type) [DecidableEq ι] (input : ElementIn) (wanted : ℤ) : Prop :=
  ∀ asked ret, InputReturns ι wanted input asked ret → ret ≤ wanted ∧ ∀ n ∈ asked, n ≤ wanted

/-- The buffer of a sound card is no larger than the wanted size. -/
def FitsCard (wanted : ℤ) : ElementIn → Prop
  | .callback (some (.pcm dev _)) => (dev.bufferSize * dev.frameBytes : ℤ) ≤ wanted
  | _ => True

/-- **`rb_read`** returns no more than it was asked for. -/
theorem rbRead_le {blockSize nBlocks : ℤ} {allocated : Bool} {rb : Ringbuf}
    (hcreate : rbCreate blockSize nBlocks allocated = some rb) {s : RbTrace ι}
    (hs : RbTrace.Reachable rb s) {t : ι} {c : ReadCall} (hth : s.sys.thread t = .reading c)
    {ret : ℤ} (hret : c.pc = .ret ret) : ret ≤ (s.log t).len := by
  obtain ⟨hwf, hempty, -⟩ := rbCreate_spec hcreate
  have hsplit := (readsAligned ((rbCreate_size_lt hcreate).trans (by decide))).holds hwf hempty hs t
  have hreported := (reported rb.size).holds hwf hempty hs t
  rw [hth] at hsplit hreported
  have hexits := hreported.2.2
  unfold ReadCall.Exits at hexits
  rw [hret] at hexits
  obtain ⟨retVal, hexit, hv⟩ := hexits
  have htotal := (result_spec hexit hv).1
  have hle : c.total + c.bufLen = (s.log t).len := hsplit.split
  by_cases hpos : 0 < ret
  · have := htotal hpos
    omega
  · omega

/-- **A callback** returns no more than `wanted` if it does not ask for more. -/
theorem ReadCb.ret_le {cb : ReadCb} {wanted answer : ℤ} (hwanted : 1 ≤ wanted ∧ wanted ≤ INT_MAX)
    (hfits : FitsCard wanted (.callback (some cb))) (h : cb.Answers wanted answer) :
    cb.ret answer ≤ wanted := by
  have hmax : INT_MAX = 2 ^ 31 - 1 := by decide
  cases cb with
  | fatfs el =>
    show (el.fatfsRead answer).1 ≤ wanted
    have hsame : (el.fatfsRead answer).1 = answer := by
      unfold FatfsEl.fatfsRead
      split_ifs <;> rfl
    rw [hsame]
    exact h.2
  | http el =>
    show (if el.contentLength = 0 then 0 else answer) ≤ wanted
    split_ifs
    · omega
    · exact h.2
  | pcm dev info =>
    show (pcmRead dev info answer).1 ≤ wanted
    unfold pcmRead
    split_ifs with hneg
    · show answer ≤ wanted
      omega
    · -- the bytes of the frames do not leave the range of an `int`
      have hframes : answer ≤ dev.bufferSize := h
      have hbytes : answer * dev.frameBytes ≤ wanted :=
        (mul_le_mul_of_nonneg_right hframes (Int.natCast_nonneg _)).trans hfits
      have hnonneg : 0 ≤ answer * dev.frameBytes :=
        mul_nonneg (not_lt.mp hneg) (Int.natCast_nonneg _)
      have hmod : dev.framesToBytes answer = answer * dev.frameBytes :=
        Int.emod_eq_of_lt hnonneg (by omega)
      have hint : toCInt (answer * dev.frameBytes) = answer * dev.frameBytes := by
        refine Int.bmod_eq_of_le_mul_two ?_ ?_ <;> omega
      show toCInt (dev.framesToBytes answer) ≤ wanted
      rw [hmod, hint]
      exact hbytes

/-- **Reads respect the caller's buffer** exactly if the input is no sound card whose buffer holds
more than the wanted size. -/
theorem input_respects_iff (ι : Type) [DecidableEq ι] (input : ElementIn) {wanted : ℤ}
    (hwanted : 1 ≤ wanted ∧ wanted ≤ INT_MAX) :
    RespectsSize ι input wanted ↔ FitsCard wanted input := by
  constructor
  · intro h
    cases input with
    | callback cb =>
      cases cb with
      | none => trivial
      | some cb =>
        cases cb with
        | fatfs el => trivial
        | http el => trivial
        | pcm dev info =>
          -- whatever it returns, it has asked for the whole buffer
          have hanswers : (ReadCb.pcm dev info).Answers wanted 0 := Int.natCast_nonneg _
          exact (h _ _ (.callback (.pcm dev info) 0 hanswers)).2 _ rfl
    | ring rb => trivial
    | invalid => trivial
  · intro h asked ret hreturns
    have hfail : ESP_FAIL ≤ wanted := le_trans (by decide) hwanted.1
    cases hreturns with
    | callback cb answer hanswers =>
      refine ⟨ReadCb.ret_le hwanted h hanswers, fun n hn => ?_⟩
      cases cb with
      | fatfs el =>
        obtain rfl := Option.some.inj hn
        exact le_rfl
      | http el =>
        change n ∈ (if el.contentLength = 0 then none else some wanted) at hn
        split_ifs at hn
        · exact nomatch hn
        · obtain rfl := Option.some.inj hn
          exact le_rfl
      | pcm dev info =>
        obtain rfl := Option.some.inj hn
        exact h
    | ring hcreate hs hth hlen hret =>
      rw [← hlen]
      exact ⟨rbRead_le hcreate hs hth hret, fun n hn => nomatch hn⟩
    | noCallback => exact ⟨hfail, fun n hn => nomatch hn⟩
    | noRing => exact ⟨hfail, fun n hn => nomatch hn⟩
    | invalid => exact ⟨hfail, fun n hn => nomatch hn⟩

/-- A sound card with a buffer of 1024 frames of 4 bytes. -/
def cardOf1024 : ElementIn := .callback (some (.pcm ⟨1024, 4⟩ .default))

/-- A block of the size of its buffer. -/
theorem input_respects_card : RespectsSize (Fin 2) cardOf1024 4096 :=
  (input_respects_iff (Fin 2) cardOf1024 (by decide)).mpr (show (1024 * 4 : ℤ) ≤ 4096 by decide)

/-- A smaller block. -/
theorem input_overruns_card :
    ¬∀ (input : ElementIn) (wanted : ℤ), 1 ≤ wanted ∧ wanted ≤ INT_MAX →
      RespectsSize (Fin 2) input wanted := by
  intro h
  have hasked := (h cardOf1024 1024 (by decide) _ _
    (.callback (.pcm ⟨1024, 4⟩ .default) 0 (show (0 : ℤ) ≤ 1024 by decide))).2 4096 rfl
  exact absurd hasked (by decide)

end AudioPipeline
