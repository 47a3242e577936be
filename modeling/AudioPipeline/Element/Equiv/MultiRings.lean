import AudioPipeline.Element.Equiv.Sys
import AudioPipeline.Element.MultiRings
import AudioPipeline.Ringbuf.Equiv.Results

/-!
# Functions over all ring buffers of an element

* `rings_reached_iff`: abort, reset and done reach every attached ring buffer exactly if no side has
  further ring buffers without a main one.
* `multi_output_iff`: `audio_element_multi_output` reports truthfully exactly if some `rb_write`
  fails or all of them take the same number of bytes.
-/

namespace AudioPipeline

/-! ### Abort, reset and done -/

/-- On this side of an element the loops over the further ring buffers are entered, or there are
none. -/
def Port.ReachesAll (port : Port) (multi : List (Option ℕ)) : Prop :=
  (∃ h, port = .rb (some h)) ∨ multi.filterMap id = []

theorem Port.handles_eq_attached {port : Port} {multi : List (Option ℕ)}
    (h : port.ReachesAll multi) : port.handles multi = port.attached multi := by
  rcases h with ⟨h, rfl⟩ | hnone
  · rfl
  · unfold Port.attached Port.handles
    rw [hnone]
    cases port with
    | rb handle => cases handle <;> rfl
    | cb set => rfl

/-- Without a main ring buffer the loops reach none. -/
theorem Port.reachesAll_of_subset {port : Port} {multi : List (Option ℕ)}
    (h : ∀ k ∈ port.attached multi, k ∈ port.handles multi) : port.ReachesAll multi := by
  cases port with
  | rb handle =>
    cases handle with
    | some k => exact Or.inl ⟨k, rfl⟩
    | none =>
      refine Or.inr (List.eq_nil_iff_forall_not_mem.mpr fun k hk => ?_)
      exact absurd (h k hk) List.not_mem_nil
  | cb set =>
    refine Or.inr (List.eq_nil_iff_forall_not_mem.mpr fun k hk => ?_)
    exact absurd (h k hk) List.not_mem_nil

/-- Abort, reset and done reach every ring buffer of the element. -/
structure RingsReached (m : Mem) : Prop where
  aborted : ∀ k ∈ m.el.attachedIn ++ m.el.attachedOut,
    ((m.after do
      audioElementAbortOutputRingbuf
      audioElementAbortInputRingbuf).rings k).abortRead = true ∧
    ((m.after do
      audioElementAbortOutputRingbuf
      audioElementAbortInputRingbuf).rings k).abortWrite = true
  resetIn : ∀ k ∈ m.el.attachedIn, ((m.after audioElementResetInputRingbuf).rings k).Clean
  resetOut : ∀ k ∈ m.el.attachedOut, ((m.after audioElementResetOutputRingbuf).rings k).Clean
  done : ∀ k ∈ m.el.attachedOut,
    ((m.after audioElementSetRingbufDone).rings k).isDoneWrite = true

section

variable (m : Mem) (f : Ringbuf → Ringbuf)

theorem after_onInputs : m.after (onInputs f) = m.onRings f m.el.inputs := rfl

theorem after_onOutputs : m.after (onOutputs f) = m.onRings f m.el.outputs := rfl

theorem after_aborts : (m.after do
    audioElementAbortOutputRingbuf
    audioElementAbortInputRingbuf) =
      (m.onRings Ringbuf.abort m.el.outputs).onRings Ringbuf.abort m.el.inputs := by
  show (m.onRings Ringbuf.abort m.el.outputs).onRings Ringbuf.abort
    (m.onRings Ringbuf.abort m.el.outputs).el.inputs = _
  rw [onRings_el]

end

/-- **Every ring buffer is reached**, whatever is in it, exactly if neither side of the element has
further ring buffers without a main one. -/
theorem rings_reached_iff (el : Element) :
    (∀ rings hist, RingsReached ⟨el, rings, hist⟩) ↔
      el.input.ReachesAll el.multiIn ∧ el.output.ReachesAll el.multiOut := by
  constructor
  · -- a byte in every ring buffer shows which of them are reset
    intro h
    have hall := h (fun _ => { Ringbuf.empty 4 with fillCnt := 1 }) .new
    refine ⟨Port.reachesAll_of_subset fun k hk => ?_, Port.reachesAll_of_subset fun k hk => ?_⟩
    · by_contra hnot
      have hinputs : k ∉ el.inputs := hnot
      have hclean := (hall.resetIn k hk).1
      rw [audioElementResetInputRingbuf, after_onInputs, onRings_rings _ _ _ hinputs] at hclean
      exact nomatch hclean
    · by_contra hnot
      have houtputs : k ∉ el.outputs := hnot
      have hclean := (hall.resetOut k hk).1
      rw [audioElementResetOutputRingbuf, after_onOutputs, onRings_rings _ _ _ houtputs] at hclean
      exact nomatch hclean
  · -- the loops then go over exactly the ring buffers that are attached
    rintro ⟨hin, hout⟩ rings hist
    have hinputs : el.inputs = el.attachedIn := Port.handles_eq_attached hin
    have houtputs : el.outputs = el.attachedOut := Port.handles_eq_attached hout
    constructor
    · intro k hk
      rw [after_aborts]
      dsimp only
      rw [hinputs, houtputs]
      have hmade : ∀ rb : Ringbuf, rb.abort.abortRead = true ∧ rb.abort.abortWrite = true :=
        fun rb => ⟨rfl, rfl⟩
      rcases List.mem_append.mp hk with hk | hk
      · exact onRings_makes (I := fun rb => rb.abortRead = true ∧ rb.abortWrite = true) hmade hk
      · -- the outputs are aborted first, and the abort of the inputs clears no flag of theirs
        refine onRings_keeps (I := fun rb => rb.abortRead = true ∧ rb.abortWrite = true)
          (fun rb _ => hmade rb) _ ?_
        exact onRings_makes (I := fun rb => rb.abortRead = true ∧ rb.abortWrite = true) hmade hk
    · intro k hk
      rw [audioElementResetInputRingbuf, after_onInputs]
      dsimp only
      rw [hinputs]
      exact onRings_makes (fun _ => clean_reset) hk
    · intro k hk
      rw [audioElementResetOutputRingbuf, after_onOutputs]
      dsimp only
      rw [houtputs]
      exact onRings_makes (fun _ => clean_reset) hk
    · intro k hk
      rw [audioElementSetRingbufDone, after_onOutputs]
      dsimp only
      rw [houtputs]
      exact onRings_makes (I := fun rb => rb.isDoneWrite = true) (fun _ => rfl) hk

/-- An element with a callback for its input and one further ring buffer. -/
theorem rings_not_reached : ¬∀ el rings hist, RingsReached ⟨el, rings, hist⟩ := by
  intro hall
  have hdirty := hall { audioElementInit { plainCfg with multiInRbNum := 1 } with
    multiIn := [some 0] } (fun _ => Ringbuf.empty 4) .new
  exact nomatch (hdirty.aborted 0 (List.mem_cons_self ..)).1

/-! ### The results of `rb_write` -/

/-- What the steps of a call of `rb_write` lead to, whatever the others do to the ring buffer in
between. -/
inductive WriteCall.Steps (c : WriteCall) : WriteCall → Prop
  | refl : Steps c c
  | tail {c₁ c₂ : WriteCall} {rb rb' : Ringbuf} {timeout : Bool} (h : Steps c c₁) (hwf : rb.Wf)
    (hs : c₁.step rb timeout = some (rb', c₂)) : Steps c c₂

/-- `rb_write` of `buffer` has returned `ret`, and the ring buffer has taken `accepted` bytes. -/
def RbWriteReturns (buffer : List UInt8) (accepted : ℕ) (ret : ℤ) : Prop :=
  ∃ c, (rbWrite buffer).Steps c ∧ c.pc = .ret ret ∧ accepted = buffer.length - c.buf.length

/-- A code of `rb_write`. -/
def IsWriteCode (ret : ℤ) : Prop := ret = RB_DONE ∨ ret = RB_ABORT ∨ ret = RB_TIMEOUT

/-- The count of a call, and what it leaves its loop or returns with. -/
structure WriteCall.Counts (buffer : List UInt8) (c : WriteCall) : Prop where
  total : c.total + c.buf.length = buffer.length
  pc : match c.pc with
    | .lock | .release | .block => True
    | .err retVal => retVal = RB_OK ∧ 0 < c.total ∨ IsWriteCode retVal
    | .ret v => v = c.total ∧ 0 < c.total ∨ IsWriteCode v

namespace WriteCall.Counts

variable {buffer : List UInt8} {c c' : WriteCall} {rb rb' : Ringbuf} {timeout : Bool}

/-- What the count and the code are merged to. -/
theorem result {retVal : ℤ} (h : retVal = RB_OK ∧ 0 < c.total ∨ IsWriteCode retVal) :
    c.result retVal = c.total ∧ 0 < c.total ∨ IsWriteCode (c.result retVal) := by
  unfold WriteCall.result
  dsimp only
  by_cases habort : retVal = RB_ABORT
  · rw [habort, if_pos (Or.inr rfl), if_neg (by decide)]
    exact Or.inr (Or.inr (Or.inl rfl))
  · have hcode : ¬(retVal = RB_FAIL ∨ retVal = RB_ABORT) := by
      rintro (rfl | hr)
      · rcases h with ⟨hr, -⟩ | hr | hr | hr <;> exact absurd hr (by decide)
      · exact habort hr
    rw [if_neg hcode]
    by_cases hpos : 0 < c.total
    · rw [if_pos (by omega)]
      exact Or.inl ⟨rfl, hpos⟩
    · rw [if_neg (by omega)]
      exact Or.inr (h.resolve_left fun hok => hpos hok.2)

/-- What the locked region leads to. -/
theorem locked_pc (rb : Ringbuf) (c : WriteCall) : match (c.locked rb).2.pc with
    | .lock | .release | .block => True
    | .err retVal => retVal = RB_OK ∧ 0 < (c.locked rb).2.total ∨ IsWriteCode retVal
    | .ret v => v = (c.locked rb).2.total ∧ 0 < (c.locked rb).2.total ∨ IsWriteCode v := by
  unfold WriteCall.locked
  dsimp only
  split_ifs with hzero hdone habort hall
  · exact Or.inr (Or.inl rfl)
  · exact Or.inr (Or.inr (Or.inl rfl))
  · trivial
  · refine Or.inl ⟨rfl, ?_⟩
    show 0 < c.total + _
    omega
  · trivial

/-- **A step of the call.** -/
theorem step (h : c.Counts buffer) (hwf : rb.Wf) (hs : c.step rb timeout = some (rb', c')) :
    c'.Counts buffer := by
  obtain ⟨k, hk, -, -, hbuf, -, -, -, -, htotal⟩ := WriteCall.step_data hwf hs
  refine ⟨?_, ?_⟩
  · have hsum := h.total
    rw [hbuf, htotal, List.length_drop]
    omega
  · have hpc := h.pc
    unfold WriteCall.step at hs
    cases hst : c.pc with
    | lock =>
      rw [hst] at hs
      dsimp only at hs
      split_ifs at hs
      · obtain ⟨rfl, rfl⟩ := Prod.mk.inj (Option.some.inj hs)
        exact Or.inr (Or.inr (Or.inr rfl))
      · have hlocked := locked_pc rb c
        rw [Option.some.inj hs] at hlocked
        exact hlocked
    | release =>
      rw [hst] at hs
      obtain ⟨rfl, rfl⟩ := Prod.mk.inj (Option.some.inj hs)
      trivial
    | block =>
      rw [hst] at hs
      dsimp only at hs
      split_ifs at hs
      · obtain ⟨rfl, rfl⟩ := Prod.mk.inj (Option.some.inj hs)
        exact Or.inr (Or.inr (Or.inr rfl))
      · obtain ⟨rfl, rfl⟩ := Prod.mk.inj (Option.some.inj hs)
        trivial
    | err retVal =>
      rw [hst] at hpc hs
      dsimp only at hs
      split_ifs at hs
      all_goals
        obtain ⟨rfl, rfl⟩ := Prod.mk.inj (Option.some.inj hs)
        exact result hpc
    | ret v =>
      rw [hst] at hs
      exact nomatch hs

/-- **The whole call.** -/
theorem steps (h : (rbWrite buffer).Steps c) : c.Counts buffer := by
  induction h with
  | refl => exact ⟨Nat.zero_add _, trivial⟩
  | tail _ hwf hs ih => exact ih.step hwf hs

end WriteCall.Counts

/-- `rb_write` returns the number of bytes that went into the ring buffer, or a negative code. -/
theorem RbWriteReturns.cases {buffer : List UInt8} {accepted : ℕ} {ret : ℤ}
    (h : RbWriteReturns buffer accepted ret) :
    accepted ≤ buffer.length ∧ (ret = accepted ∧ 0 < ret ∨ IsWriteCode ret) := by
  obtain ⟨c, hsteps, hret, haccepted⟩ := h
  obtain ⟨htotal, hpc⟩ := WriteCall.Counts.steps hsteps
  rw [hret] at hpc
  refine ⟨by omega, hpc.imp_left ?_⟩
  rintro ⟨hv, hpos⟩
  constructor <;> omega

/-! ### The results put together -/

/-- The results of the attached ring buffers. -/
def attachedResults (multiOut : List (Option ℕ)) (write : ℕ → ℤ) : List ℤ :=
  multiOut.zipIdx.filterMap fun p => p.1.map fun _ => write p.2

theorem mem_attachedResults {multiOut : List (Option ℕ)} {write : ℕ → ℤ} {r : ℤ} :
    r ∈ attachedResults multiOut write ↔
      ∃ i h, multiOut[i]? = some (some h) ∧ write i = r := by
  unfold attachedResults
  rw [List.mem_filterMap]
  constructor
  · rintro ⟨⟨o, i⟩, hmem, hr⟩
    rw [List.mem_zipIdx_iff_getElem?] at hmem
    obtain ⟨h, rfl, hw⟩ := Option.map_eq_some_iff.mp hr
    exact ⟨i, h, hmem, hw⟩
  · rintro ⟨i, h, hi, hw⟩
    refine ⟨(some h, i), List.mem_zipIdx_iff_getElem?.mpr hi, ?_⟩
    rw [Option.map_some, hw]

/-- `|=` over a list of results. -/
def orAll (ret : BitVec 32) (rs : List ℤ) : BitVec 32 :=
  rs.foldl (fun ret r => ret ||| BitVec.ofInt 32 r) ret

theorem multiOutput_eq (multiOut : List (Option ℕ)) (write : ℕ → ℤ) :
    audioElementMultiOutput multiOut write = (orAll 0 (attachedResults multiOut write)).toInt := by
  unfold audioElementMultiOutput orAll attachedResults
  rw [List.foldl_filterMap]
  congr 2
  funext ret p
  cases p.1 <;> rfl

/-- A code or a count of bytes, as a C `int`. -/
def IsInt32 (r : ℤ) : Prop := -2 ^ 31 ≤ r ∧ r < 2 ^ 31

theorem toInt_result {r : ℤ} (h : IsInt32 r) : (BitVec.ofInt 32 r).toInt = r :=
  BitVec.toInt_ofInt_eq_self (by decide) h.1 h.2

/-- **The sign**: a negative result anywhere makes the whole negative. -/
theorem msb_orAll {rs : List ℤ} (hrs : ∀ r ∈ rs, IsInt32 r) (ret : BitVec 32) :
    (orAll ret rs).msb = true ↔ ret.msb = true ∨ ∃ r ∈ rs, r < 0 := by
  induction rs generalizing ret with
  | nil => simp [orAll]
  | cons r rs ih =>
    rw [List.forall_mem_cons] at hrs
    show (orAll (ret ||| BitVec.ofInt 32 r) rs).msb = true ↔ _
    rw [ih hrs.2, BitVec.msb_or, Bool.or_eq_true, List.exists_mem_cons_iff, or_assoc,
      BitVec.msb_eq_toInt (x := BitVec.ofInt 32 r), toInt_result hrs.1, decide_eq_true_eq]

theorem orAll_eq_zero {rs : List ℤ} (hrs : ∀ r ∈ rs, IsInt32 r) (ret : BitVec 32) :
    orAll ret rs = 0 ↔ ret = 0 ∧ ∀ r ∈ rs, r = 0 := by
  induction rs generalizing ret with
  | nil => simp [orAll]
  | cons r rs ih =>
    rw [List.forall_mem_cons] at hrs
    have hzero : BitVec.ofInt 32 r = 0 ↔ r = 0 := by
      constructor
      · intro h
        rw [← toInt_result hrs.1, h]
        rfl
      · rintro rfl
        rfl
    show orAll (ret ||| BitVec.ofInt 32 r) rs = 0 ↔ _
    rw [ih hrs.2, List.forall_mem_cons, ← and_assoc, ← hzero]
    exact and_congr_left fun _ => BitVec.or_eq_zero_iff

/-- Equal results are put together to the same one. -/
theorem orAll_same {rs : List ℤ} {v : ℤ} (hrs : ∀ r ∈ rs, r = v) (ret : BitVec 32)
    (hret : ret = 0 ∧ rs ≠ [] ∨ ret = BitVec.ofInt 32 v) : orAll ret rs = BitVec.ofInt 32 v := by
  induction rs generalizing ret with
  | nil => exact hret.resolve_left fun h => h.2 rfl
  | cons r rs ih =>
    rw [List.forall_mem_cons] at hrs
    refine ih hrs.2 _ (Or.inr ?_)
    rw [hrs.1]
    rcases hret with ⟨rfl, -⟩ | rfl
    · exact BitVec.zero_or
    · exact BitVec.or_self

/-! ### `audio_element_multi_output` -/

/-- The reported value is true: a positive one is the number of bytes that every attached ring
buffer took, and a failure of one of them is reported. -/
structure ReportsTruthfully (buffer : List UInt8) (multiOut : List (Option ℕ)) (accepted : ℕ → ℕ)
    (write : ℕ → ℤ) : Prop where
  positive : 0 < audioElementMultiOutput multiOut write →
    audioElementMultiOutput multiOut write ≤ buffer.length ∧
      ∀ i h, multiOut[i]? = some (some h) →
        (accepted i : ℤ) = audioElementMultiOutput multiOut write
  negative : ∀ i h, multiOut[i]? = some (some h) → write i < 0 →
    audioElementMultiOutput multiOut write < 0

/-- **`audio_element_multi_output` reports truthfully** exactly if some `rb_write` fails, or all of
them return the same. -/
theorem multi_output_iff {buffer : List UInt8} (hsize : (buffer.length : ℤ) ≤ INT_MAX)
    (multiOut : List (Option ℕ)) {accepted : ℕ → ℕ} {write : ℕ → ℤ}
    (hwrite : ∀ i h, multiOut[i]? = some (some h) → RbWriteReturns buffer (accepted i) (write i)) :
    ReportsTruthfully buffer multiOut accepted write ↔
      (∃ i h, multiOut[i]? = some (some h) ∧ write i < 0) ∨
        ∀ i j h k, multiOut[i]? = some (some h) → multiOut[j]? = some (some k) →
          write i = write j := by
  have hcode : ∀ r, IsWriteCode r → -4 ≤ r ∧ r < 0 := by
    rintro r (rfl | rfl | rfl) <;> decide
  have hcases : ∀ i h, multiOut[i]? = some (some h) →
      write i = accepted i ∧ 0 < write i ∧ accepted i ≤ buffer.length ∨
        -4 ≤ write i ∧ write i < 0 := by
    intro i h hi
    obtain ⟨hle, hret | hret⟩ := (hwrite i h hi).cases
    · exact Or.inl ⟨hret.1, hret.2, hle⟩
    · exact Or.inr (hcode _ hret)
  have hint : ∀ r ∈ attachedResults multiOut write, IsInt32 r := by
    intro r hr
    obtain ⟨i, h, hi, rfl⟩ := mem_attachedResults.mp hr
    unfold INT_MAX at hsize
    unfold IsInt32
    rcases hcases i h hi with hok | hfail <;> omega
  -- the sign of the whole
  have hneg : audioElementMultiOutput multiOut write < 0 ↔
      ∃ i h, multiOut[i]? = some (some h) ∧ write i < 0 := by
    have hmsb := msb_orAll hint 0
    rw [BitVec.msb_eq_toInt, ← multiOutput_eq, decide_eq_true_eq] at hmsb
    rw [hmsb]
    constructor
    · rintro (hzero | ⟨r, hr, hlt⟩)
      · exact absurd hzero (by decide)
      · obtain ⟨i, h, hi, rfl⟩ := mem_attachedResults.mp hr
        exact ⟨i, h, hi, hlt⟩
    · rintro ⟨i, h, hi, hlt⟩
      exact Or.inr ⟨write i, mem_attachedResults.mpr ⟨i, h, hi, rfl⟩, hlt⟩
  constructor
  · intro htrue
    rw [or_iff_not_imp_left]
    intro hnone i j h k hi hj
    have hgood : ∀ i h, multiOut[i]? = some (some h) → write i = accepted i ∧ 0 < write i := by
      intro i h hi
      rcases hcases i h hi with hok | hfail
      · exact ⟨hok.1, hok.2.1⟩
      · exact absurd ⟨i, h, hi, hfail.2⟩ hnone
    have hpos : 0 < audioElementMultiOutput multiOut write := by
      have hnonneg := mt hneg.mp hnone
      have hne : audioElementMultiOutput multiOut write ≠ 0 := by
        intro hzero
        rw [multiOutput_eq] at hzero
        have hbits : orAll 0 (attachedResults multiOut write) = 0 :=
          BitVec.eq_of_toInt_eq hzero
        have hw := ((orAll_eq_zero hint 0).mp hbits).2 (write i)
          (mem_attachedResults.mpr ⟨i, h, hi, rfl⟩)
        have hwi := (hgood i h hi).2
        omega
      omega
    have hall := (htrue.positive hpos).2
    rw [(hgood i h hi).1, (hgood j k hj).1, hall i h hi, hall j k hj]
  · intro hcond
    refine ⟨fun hpos => ?_, fun i h hi hlt => hneg.mpr ⟨i, h, hi, hlt⟩⟩
    have hsame := hcond.resolve_left fun hfail => by
      have hlt := hneg.mpr hfail
      omega
    -- some ring buffer is attached, or the result would be 0
    have hne : attachedResults multiOut write ≠ [] := by
      intro hnone
      rw [multiOutput_eq, hnone] at hpos
      exact absurd hpos (by decide)
    obtain ⟨r, hr⟩ := List.exists_mem_of_ne_nil _ hne
    obtain ⟨i, h, hi, rfl⟩ := mem_attachedResults.mp hr
    have hresult : audioElementMultiOutput multiOut write = write i := by
      rw [multiOutput_eq, orAll_same (v := write i) ?_ 0 (Or.inl ⟨rfl, hne⟩),
        toInt_result (hint _ hr)]
      intro r hr
      obtain ⟨j, k, hj, rfl⟩ := mem_attachedResults.mp hr
      exact hsame j i k h hj hi
    rw [hresult] at hpos ⊢
    have hgood : ∀ j k, multiOut[j]? = some (some k) →
        (accepted j : ℤ) = write i ∧ accepted j ≤ buffer.length := by
      intro j k hj
      have heq := hsame j i k h hj hi
      rcases hcases j k hj with hok | hfail
      · exact ⟨by omega, hok.2.2⟩
      · omega
    refine ⟨?_, fun j k hj => (hgood j k hj).1⟩
    obtain ⟨haccepted, hle⟩ := hgood i h hi
    omega

/-- The ring buffer has room for all. -/
theorem returns_whole : RbWriteReturns [1, 2, 3, 4, 5, 6, 7, 8] 8 8 := by
  have hwf : (Ringbuf.empty 8).Wf := (rbCreate_spec (show rbCreate 8 1 true = _ from rfl)).1
  have hlock : (rbWrite [1, 2, 3, 4, 5, 6, 7, 8]).Steps
      ((rbWrite [1, 2, 3, 4, 5, 6, 7, 8]).locked (Ringbuf.empty 8)).2 :=
    .tail .refl hwf (show WriteCall.step _ _ false = some _ from rfl)
  exact ⟨_, .tail hlock hwf (show WriteCall.step _ _ false = some _ from rfl), rfl, rfl⟩

/-- The ring buffer has room for 4 bytes, and then there is a timeout. -/
theorem returns_part : RbWriteReturns [1, 2, 3, 4, 5, 6, 7, 8] 4 4 := by
  have hwf : (Ringbuf.empty 4).Wf := (rbCreate_spec (show rbCreate 4 1 true = _ from rfl)).1
  have hlock : (rbWrite [1, 2, 3, 4, 5, 6, 7, 8]).Steps
      ((rbWrite [1, 2, 3, 4, 5, 6, 7, 8]).locked (Ringbuf.empty 4)).2 :=
    .tail .refl hwf (show WriteCall.step _ _ false = some _ from rfl)
  have hblock := hlock.tail hwf (show WriteCall.step _ _ true = some _ from rfl)
  exact ⟨_, hblock.tail hwf (show WriteCall.step _ _ false = some _ from rfl), rfl, rfl⟩

/-- Two ring buffers take the whole buffer. -/
theorem multi_output_whole : ReportsTruthfully [1, 2, 3, 4, 5, 6, 7, 8] [some 0, none, some 1]
    (fun _ => 8) fun _ => 8 :=
  (multi_output_iff (by decide) _ fun _ _ _ => returns_whole).mpr (Or.inr fun _ _ _ _ _ _ => rfl)

/-- One ring buffer takes 4 bytes and the other one takes 8: the result is 12. -/
theorem multi_output_mixed :
    ¬∀ (buffer : List UInt8) (multiOut : List (Option ℕ)) (accepted : ℕ → ℕ) (write : ℕ → ℤ),
      (buffer.length : ℤ) ≤ INT_MAX → (∀ i h, multiOut[i]? = some (some h) →
        RbWriteReturns buffer (accepted i) (write i)) →
      ReportsTruthfully buffer multiOut accepted write := by
  intro hall
  have htrue := hall [1, 2, 3, 4, 5, 6, 7, 8] [some 0, some 1] (fun i => if i = 0 then 4 else 8)
    (fun i => if i = 0 then 4 else 8) (by decide) fun i h _ => by
      by_cases hi : i = 0
      · rw [if_pos hi, if_pos hi]
        exact returns_part
      · rw [if_neg hi, if_neg hi]
        exact returns_whole
  exact absurd (htrue.positive (by decide)).1 (by decide)

end AudioPipeline
