import AudioPipeline.Codec.Mono

/-!
## The expansion in place

When the loop comes to sample `i`, everything from `2 * i + 2` on is done, and everything below that
is as the decoder left it.  So the sample is read before a store can reach it.

* `mono_to_stereo`: every sample is there twice, and nothing behind them is touched.
* `monoToStereo_duplicate`: this is what `duplicate` says of both copies of the loop.
-/

namespace AudioPipeline

theorem Mp3Output.store_eq {output : Mp3Output} {i : ℕ} {x : UInt16} (h : i < 2304) :
    output.store i x = some (output.set i x h) := dif_pos h

/-- **One round of the loop**: two stores of a sample that is still in its place. -/
theorem monoToStereo_succ {i : ℕ} (output : Mp3Output) (hi : i * 2 + 1 < 2304) :
    ∃ next, monoToStereo (i + 1) output = monoToStereo i next ∧ next[i * 2]? = output[i]? ∧
      next[i * 2 + 1]? = output[i]? ∧ ∀ j, j ≠ i * 2 → j ≠ i * 2 + 1 → next[j]? = output[j]? := by
  have hlow : i * 2 < 2304 := by omega
  have hmid : i < 2304 := by omega
  have hread : output[i]? = some output[i] := Vector.getElem?_eq_getElem hmid
  -- the first store may be to the sample itself, with its own value
  have hagain : (output.set (i * 2) output[i] hlow)[i]? = some output[i] := by
    rw [Vector.getElem?_set]
    split_ifs
    · rfl
    · exact hread
  refine ⟨(output.set (i * 2) output[i] hlow).set (i * 2 + 1) output[i] hi, ?_, ?_, ?_, ?_⟩
  · show (output[i]?.bind fun x => (output.store (i * 2) x).bind _) = _
    rw [hread, Option.bind_some, Mp3Output.store_eq hlow, Option.bind_some]
    show ((output.set (i * 2) output[i] hlow)[i]?.bind fun x =>
      (Mp3Output.store _ (i * 2 + 1) x).bind _) = _
    rw [hagain, Option.bind_some, Mp3Output.store_eq hi, Option.bind_some]
  · rw [Vector.getElem?_set_ne hi (by omega), Vector.getElem?_set_self hlow, hread]
  · rw [Vector.getElem?_set_self hi, hread]
  · intro j hj hj'
    rw [Vector.getElem?_set_ne hi (Ne.symm hj'), Vector.getElem?_set_ne hlow (Ne.symm hj)]

/-- **The loop**, by induction on the samples that are left. -/
theorem monoToStereo_spec (n : ℕ) (output : Mp3Output) (hn : 2 * n ≤ 2304) :
    ∃ output', monoToStereo n output = some output' ∧
      (∀ j < 2 * n, output'[j]? = output[j / 2]?) ∧ ∀ j, 2 * n ≤ j → output'[j]? = output[j]? := by
  induction n generalizing output with
  | zero => exact ⟨output, rfl, (fun j hj => by omega), fun j _ => rfl⟩
  | succ i ih =>
    obtain ⟨next, hstep, hlow, hhigh, hrest⟩ := monoToStereo_succ output (i := i) (by omega)
    obtain ⟨output', hloop, hdone, hbehind⟩ := ih next (by omega)
    refine ⟨output', hstep.trans hloop, fun j hj => ?_, fun j hj => ?_⟩
    · by_cases hlt : j < 2 * i
      · -- the stores of this round are above what is still to be read
        rw [hdone j hlt]
        exact hrest _ (by omega) (by omega)
      · rw [hbehind j (by omega)]
        have hhalf : j / 2 = i := by omega
        rw [hhalf]
        rcases (by omega : j = i * 2 ∨ j = i * 2 + 1) with rfl | rfl
        · exact hlow
        · exact hhigh
    · rw [hbehind j (by omega)]
      exact hrest j (by omega) (by omega)

/-- **The expansion in place**: for every frame that fits the array, the loop stays inside of it,
every sample is there twice, and nothing behind them is touched. -/
theorem mono_to_stereo (n : ℕ) (output : Mp3Output) (hn : 2 * n ≤ 2304) :
    ∃ output', monoToStereo n output = some output' ∧
      (∀ i < n, output'[2 * i]? = output[i]? ∧ output'[2 * i + 1]? = output[i]?) ∧
      ∀ j, 2 * n ≤ j → output'[j]? = output[j]? := by
  obtain ⟨output', hloop, hdone, hbehind⟩ := monoToStereo_spec n output hn
  refine ⟨output', hloop, fun i hi => ⟨?_, ?_⟩, hbehind⟩
  · rw [hdone _ (by omega), (by omega : 2 * i / 2 = i)]
  · rw [hdone _ (by omega), (by omega : (2 * i + 1) / 2 = i)]

/-- A frame that fills the array. -/
theorem mono_to_stereo_full : ∃ output', monoToStereo 1152 (Vector.ofFn fun i => i.val.toUInt16) =
    some output' ∧ output'[2303]? = some 1151 := by
  obtain ⟨output', hloop, hdone, -⟩ :=
    mono_to_stereo 1152 (Vector.ofFn fun i => i.val.toUInt16) (by decide)
  refine ⟨output', hloop, ?_⟩
  have hlast := (hdone 1151 (by decide)).2
  rw [Vector.getElem?_ofFn] at hlast
  exact hlast

/-! ### In the process callback -/

theorem duplicate_spec (n : ℕ) (output : ℕ → UInt16) :
    (∀ j < 2 * n, duplicate n output j = output (j / 2)) ∧
      ∀ j, 2 * n ≤ j → duplicate n output j = output j := by
  induction n generalizing output with
  | zero => exact ⟨(fun j hj => by omega), fun j _ => rfl⟩
  | succ i ih =>
    have hagain : Function.update output (i * 2) (output i) i = output i := by
      by_cases hzero : i = i * 2
      · rw [← hzero, Function.update_self]
      · rw [Function.update_of_ne hzero]
    rw [duplicate]
    rw [hagain]
    obtain ⟨hdone, hbehind⟩ :=
      ih (Function.update (Function.update output (i * 2) (output i)) (i * 2 + 1) (output i))
    refine ⟨fun j hj => ?_, fun j hj => ?_⟩
    · by_cases hlt : j < 2 * i
      · rw [hdone j hlt, Function.update_of_ne (by omega), Function.update_of_ne (by omega)]
      · rw [hbehind j (by omega), (by omega : j / 2 = i)]
        rcases (by omega : j = i * 2 ∨ j = i * 2 + 1) with rfl | rfl
        · rw [Function.update_of_ne (by omega), Function.update_self]
        · rw [Function.update_self]
    · rw [hbehind j (by omega), Function.update_of_ne (by omega), Function.update_of_ne (by omega)]

/-- **What `mp3_decoder_process` puts out** for a frame with one channel is what the loop leaves in
the array. -/
theorem monoToStereo_duplicate (n : ℕ) (output : Mp3Output) (hn : 2 * n ≤ 2304) :
    ∃ output', monoToStereo n output = some output' ∧
      ∀ j < 2304, output'[j]? = some (duplicate n (fun k => output[k]?.getD 0) j) := by
  obtain ⟨output', hloop, hdone, hbehind⟩ := monoToStereo_spec n output hn
  obtain ⟨hdup, hsame⟩ := duplicate_spec n fun k => output[k]?.getD 0
  have hread : ∀ k < 2304, output[k]? = some (output[k]?.getD 0) := by
    intro k hk
    rw [Vector.getElem?_eq_getElem hk]
    rfl
  refine ⟨output', hloop, fun j hj => ?_⟩
  by_cases hlt : j < 2 * n
  · rw [hdone j hlt, hdup j hlt]
    exact hread _ (by omega)
  · rw [hbehind j (by omega), hsame j (by omega)]
    exact hread j hj

end AudioPipeline
