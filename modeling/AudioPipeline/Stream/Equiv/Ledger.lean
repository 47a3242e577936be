import AudioPipeline.Stream.Equiv.Recording
import Mathlib.Algebra.BigOperators.Group.List.Basic
import Mathlib.Algebra.Order.BigOperators.Group.List

/-!
## The positions of the readers

* `ledger_iff`: `total_bytes` and `byte_pos` follow a reader exactly if the size of the source is an
  `int`, the position an `int64_t`, and no read of an http element fails.
-/

namespace AudioPipeline

/-! ### Readers -/

/-- A reader of a file or of a response. -/
inductive StreamReader
  | fatfs (el : FatfsEl)
  | http (el : HttpEl)

namespace StreamReader

def info : StreamReader → Info
  | .fatfs el => el.info
  | .http el => el.info

/-- The read callback; `result` is what the read of the file or the socket returns. -/
def read (s : StreamReader) (result : ℤ) : StreamReader :=
  match s with
  | .fatfs el => .fatfs (el.fatfsRead result).2
  | .http el => .http (el.httpRead result).2

/-- The read callback is called once for each result. -/
def after (s : StreamReader) (results : List ℤ) : StreamReader := results.foldl read s

/-- The open callback succeeds on a source of `n` bytes. -/
inductive Opens (n : ℤ) : StreamReader → StreamReader → Prop
  | fatfs {el el' : FatfsEl} {opened seeked : Bool} (htype : el.type = .reader)
    (hopen : el.fatfsOpen opened n seeked = (ESP_OK, el')) : Opens n (.fatfs el) (.fatfs el')
  | http {el el' : HttpEl} {err statusCode : ℤ} (htype : el.type = .reader)
    (hopen : el.httpOpen err statusCode n = (ESP_OK, el')) : Opens n (.http el) (.http el')

/-- What a result adds to `byte_pos`. -/
def counted : StreamReader → ℤ → ℤ
  | .fatfs _, result => if result = 0 ∨ result = -1 then 0 else result
  | .http el, result => if el.contentLength = 0 then 0 else result

/-- The read of an http element can fail with -1. -/
def IsHttp : StreamReader → Prop
  | .fatfs _ => False
  | .http _ => True

end StreamReader

/-- The bytes of the positive results. -/
def gained (results : List ℤ) : ℤ := (results.filter (0 < ·)).sum

/-- `total_bytes` is `n`, and `byte_pos` is `start` and what was gained, after each call; it never
goes back. -/
structure Ledger (n start : ℤ) (s : StreamReader) (results : List ℤ) : Prop where
  total : ∀ k ≤ results.length, (s.after (results.take k)).info.totalBytes = n
  pos : ∀ k ≤ results.length,
    (s.after (results.take k)).info.bytePos = start + gained (results.take k)
  mono : ∀ j k, j ≤ k → k ≤ results.length →
    (s.after (results.take j)).info.bytePos ≤ (s.after (results.take k)).info.bytePos

/-! ### The callbacks -/

/-- **`_fatfs_open`** of a reader that succeeds. -/
theorem FatfsEl.fatfsOpen_reader {el el' : FatfsEl} {opened seeked : Bool} {size : ℤ}
    (htype : el.type = .reader) (h : el.fatfsOpen opened size seeked = (ESP_OK, el')) :
    el'.info = el.info.setTotalBytes size := by
  unfold fatfsOpen at h
  rw [htype] at h
  cases hpath : el.path with
  | none =>
    rw [hpath] at h
    exact absurd (Prod.mk.inj h).1 (by decide)
  | some path =>
    rw [hpath] at h
    dsimp only at h
    split_ifs at h
    · exact absurd (Prod.mk.inj h).1 (by decide)
    · exact absurd (Prod.mk.inj h).1 (by decide)
    · -- the file goes on at `byte_pos`
      rw [← (Prod.mk.inj h).2]
      rfl
    · rw [← (Prod.mk.inj h).2]
    · exact absurd (Prod.mk.inj h).1 (by decide)

/-- **`_http_open`** that succeeds. -/
theorem HttpEl.httpOpen_ok {el el' : HttpEl} {err statusCode contentLength : ℤ}
    (h : el.httpOpen err statusCode contentLength = (ESP_OK, el')) :
    el'.contentLength = contentLength ∧ el'.info = el.info.setTotalBytes contentLength := by
  unfold httpOpen at h
  cases huri : el.uri with
  | none =>
    rw [huri] at h
    split_ifs at h
    all_goals exact absurd (Prod.mk.inj h).1 (by decide)
  | some uri =>
    rw [huri] at h
    dsimp only at h
    split_ifs at h with hopen herr hstatus
    · exact absurd (Prod.mk.inj h).1 (by decide)
    · exact absurd (Prod.mk.inj h).1 herr
    · exact absurd (Prod.mk.inj h).1 (by decide)
    · rw [← (Prod.mk.inj h).2]
      exact ⟨rfl, rfl⟩

/-- **`_fatfs_read`**: end and error do not count. -/
theorem FatfsEl.fatfsRead_info (el : FatfsEl) (rlen : ℤ) :
    (el.fatfsRead rlen).2.info =
      if rlen = 0 ∨ rlen = -1 then el.info else el.info.updateBytePos rlen := by
  unfold fatfsRead
  by_cases h0 : rlen = 0
  · rw [if_pos h0, if_pos (Or.inl h0)]
  · by_cases h1 : rlen = -1
    · rw [if_neg h0, if_pos h1, if_pos (Or.inr h1)]
    · rw [if_neg h0, if_neg h1, if_neg (not_or.mpr ⟨h0, h1⟩)]

namespace StreamReader

variable {n : ℤ} {s s' : StreamReader}

/-- **An open** sets `total_bytes`, as an `int`, and leaves `byte_pos` alone. -/
theorem Opens.info (h : Opens n s s') :
    s'.info.totalBytes = toCInt n ∧ s'.info.bytePos = s.info.bytePos := by
  have hset : s'.info = s.info.setTotalBytes n := by
    cases h with
    | fatfs htype hopen => exact FatfsEl.fatfsOpen_reader htype hopen
    | http htype hopen => exact (HttpEl.httpOpen_ok hopen).2
  rw [hset]
  exact ⟨rfl, rfl⟩

/-- Every result of an http element counts: the content is not empty. -/
theorem Opens.counted (h : Opens n s s') (hn : 0 < n) (hhttp : s'.IsHttp) (result : ℤ) :
    s'.counted result = result := by
  cases h with
  | fatfs htype hopen => exact absurd hhttp not_false
  | @http el el' err statusCode htype hopen =>
    show (if el'.contentLength = 0 then 0 else result) = result
    rw [(HttpEl.httpOpen_ok hopen).1, if_neg (by omega)]

/-- **A read** leaves `total_bytes` alone, and adds what it counts to `byte_pos`. -/
theorem read_info (s : StreamReader) {result : ℤ} (hresult : -1 ≤ result ∧ result ≤ INT_MAX)
    (hpos : toInt64 s.info.bytePos = s.info.bytePos) :
    (s.read result).info.totalBytes = s.info.totalBytes ∧
      (s.read result).info.bytePos = toInt64 (s.info.bytePos + s.counted result) ∧
      (s.read result).counted = s.counted := by
  have hmax : INT_MAX = 2 ^ 31 - 1 := by decide
  have hint : toCInt result = result := by
    refine Int.bmod_eq_of_le_mul_two ?_ ?_ <;> omega
  cases s with
  | fatfs el =>
    have hread : ((StreamReader.fatfs el).read result).info =
        if result = 0 ∨ result = -1 then el.info else el.info.updateBytePos result :=
      el.fatfsRead_info result
    have hcounted : (StreamReader.fatfs el).counted result =
        if result = 0 ∨ result = -1 then 0 else result := rfl
    rw [hread, hcounted]
    split_ifs
    · rw [add_zero]
      exact ⟨rfl, hpos.symm, rfl⟩
    · refine ⟨rfl, ?_, rfl⟩
      show toInt64 (el.info.bytePos + toCInt result) = _
      rw [hint]
      rfl
  | http el =>
    refine ⟨rfl, ?_, rfl⟩
    show toInt64 (el.info.bytePos + toCInt (if el.contentLength = 0 then 0 else result)) =
      toInt64 (el.info.bytePos + if el.contentLength = 0 then 0 else result)
    split_ifs
    · rw [show toCInt 0 = 0 by decide]
    · rw [hint]

/-- **A run of reads.** -/
theorem after_info {results : List ℤ} (hresults : ∀ r ∈ results, -1 ≤ r ∧ r ≤ INT_MAX)
    (hpos : toInt64 s.info.bytePos = s.info.bytePos) :
    (s.after results).info.totalBytes = s.info.totalBytes ∧
      (s.after results).info.bytePos = toInt64 (s.info.bytePos + (results.map s.counted).sum) := by
  induction results generalizing s with
  | nil =>
    refine ⟨rfl, ?_⟩
    rw [List.map_nil, List.sum_nil, add_zero]
    exact hpos.symm
  | cons r results ih =>
    rw [List.forall_mem_cons] at hresults
    obtain ⟨htotal, hnext, hcounted⟩ := s.read_info hresults.1 hpos
    have hpos' : toInt64 (s.read r).info.bytePos = (s.read r).info.bytePos := by
      rw [hnext]
      exact Int.bmod_bmod
    obtain ⟨ihtotal, ihpos⟩ := ih hresults.2 hpos'
    refine ⟨ihtotal.trans htotal, ?_⟩
    show ((s.read r).after results).info.bytePos = _
    rw [ihpos, hnext, hcounted, toInt64_add, List.map_cons, List.sum_cons, add_assoc]

end StreamReader

/-! ### The ledger -/

theorem gained_cons (r : ℤ) (results : List ℤ) :
    gained (r :: results) = (if 0 < r then r else 0) + gained results := by
  unfold gained
  rw [List.filter_cons]
  by_cases hr : 0 < r
  · rw [if_pos (decide_eq_true hr), if_pos hr, List.sum_cons]
  · rw [if_neg (by simpa using hr), if_neg hr, zero_add]

theorem gained_append (results more : List ℤ) :
    gained (results ++ more) = gained results + gained more := by
  unfold gained
  rw [List.filter_append, List.sum_append]

theorem gained_nonneg (results : List ℤ) : 0 ≤ gained results := by
  refine List.sum_nonneg fun r hr => ?_
  rw [List.mem_filter, decide_eq_true_eq] at hr
  exact hr.2.le

/-- Later calls gain no less. -/
theorem gained_take_mono (results : List ℤ) {j k : ℕ} (hjk : j ≤ k) :
    gained (results.take j) ≤ gained (results.take k) := by
  obtain ⟨more, hmore⟩ := List.take_prefix_take_left hjk (l := results)
  have hnonneg := gained_nonneg more
  rw [← hmore, gained_append]
  omega

theorem gained_take_le (results : List ℤ) (k : ℕ) : gained (results.take k) ≤ gained results := by
  have hsplit := gained_append (results.take k) (results.drop k)
  have hnonneg := gained_nonneg (results.drop k)
  rw [List.take_append_drop] at hsplit
  omega

/-- What is counted is what is gained, if no result is counted below zero. -/
theorem sum_counted {f : ℤ → ℤ} {results : List ℤ}
    (hf : ∀ r ∈ results, f r = if 0 < r then r else 0) : (results.map f).sum = gained results := by
  induction results with
  | nil => rfl
  | cons r results ih =>
    rw [List.forall_mem_cons] at hf
    rw [List.map_cons, List.sum_cons, gained_cons, hf.1, ih hf.2]

theorem toInt64_emod (n : ℤ) : toInt64 n % 2 ^ 64 = n % 2 ^ 64 := Int.bmod_emod

theorem toInt64_eq_iff (n : ℤ) : toInt64 n = n ↔ -2 ^ 63 ≤ n ∧ n < 2 ^ 63 := by
  constructor
  · intro h
    have hle := Int.le_bmod (x := n) (m := 2 ^ 64) (by decide)
    have hlt := Int.bmod_lt (x := n) (m := 2 ^ 64) (by decide)
    unfold toInt64 at h
    rw [h] at hle hlt
    omega
  · rintro ⟨hle, hlt⟩
    refine Int.bmod_eq_of_le_mul_two ?_ ?_ <;> omega

theorem toCInt_eq_iff {n : ℤ} (hn : 0 < n) : toCInt n = n ↔ n < 2 ^ 31 := by
  constructor
  · intro h
    have hlt := Int.bmod_lt (x := n) (m := 2 ^ 32) (by decide)
    unfold toCInt at h
    rw [h] at hlt
    omega
  · intro hlt
    refine Int.bmod_eq_of_le_mul_two ?_ ?_ <;> omega

section

variable {n : ℤ} {s s' : StreamReader} {results : List ℤ}

/-- The state after some of the calls. -/
theorem after_take (hopen : s.Opens n s')
    (hstart : -2 ^ 63 ≤ s.info.bytePos ∧ s.info.bytePos < 2 ^ 63)
    (hresults : ∀ r ∈ results, -1 ≤ r ∧ r ≤ INT_MAX) (k : ℕ) :
    (s'.after (results.take k)).info.totalBytes = toCInt n ∧
      (s'.after (results.take k)).info.bytePos =
        toInt64 (s.info.bytePos + ((results.take k).map s'.counted).sum) := by
  obtain ⟨htotal, hpos⟩ := hopen.info
  rw [← hpos] at hstart
  have htake : ∀ r ∈ results.take k, -1 ≤ r ∧ r ≤ INT_MAX :=
    fun r hr => hresults r (List.mem_of_mem_take hr)
  have hafter := StreamReader.after_info htake ((toInt64_eq_iff s'.info.bytePos).mpr hstart)
  rw [htotal, hpos] at hafter
  exact hafter

/-- A failed read of an http element moves `byte_pos` back by one. -/
theorem Ledger.no_error (hn : 0 < n) (hopen : s.Opens n s')
    (hstart : -2 ^ 63 ≤ s.info.bytePos ∧ s.info.bytePos < 2 ^ 63)
    (hresults : ∀ r ∈ results, -1 ≤ r ∧ r ≤ INT_MAX)
    (h : Ledger n s.info.bytePos s' results) (hhttp : s'.IsHttp) : -1 ∉ results := by
  intro hmem
  obtain ⟨before, later, rfl⟩ := List.append_of_mem hmem
  have htake : (before ++ -1 :: later).take before.length = before := List.take_left
  have htake' : (before ++ -1 :: later).take (before.length + 1) = before ++ [-1] := by
    rw [List.take_length_add_append]
    rfl
  have hlen : before.length + 1 ≤ (before ++ -1 :: later).length := by
    rw [List.length_append, List.length_cons]
    omega
  have hbefore := h.pos before.length (by omega)
  have hafter := h.pos (before.length + 1) hlen
  rw [(after_take hopen hstart hresults _).2, htake] at hbefore
  rw [(after_take hopen hstart hresults _).2, htake', List.map_append, List.sum_append,
    gained_append, List.map_singleton, List.sum_singleton, hopen.counted hn hhttp] at hafter
  have hsame : gained [-1] = 0 := by decide
  have hmod := toInt64_emod (s.info.bytePos + (before.map s'.counted).sum)
  have hmod' := toInt64_emod (s.info.bytePos + ((before.map s'.counted).sum + -1))
  -- both positions would be the same modulo 2 ^ 64
  rw [hbefore] at hmod
  rw [hafter, hsame] at hmod'
  omega

/-- **The ledger of a reader** holds, after each of its reads, exactly if the size of the source is
an `int`, the position stays an `int64_t`, and no read of an http element fails. -/
theorem ledger_iff (hn : 0 < n) (hopen : s.Opens n s')
    (hstart : -2 ^ 63 ≤ s.info.bytePos ∧ s.info.bytePos < 2 ^ 63)
    (hresults : ∀ r ∈ results, -1 ≤ r ∧ r ≤ INT_MAX) :
    Ledger n s.info.bytePos s' results ↔
      n < 2 ^ 31 ∧ s.info.bytePos + gained results < 2 ^ 63 ∧ (s'.IsHttp → -1 ∉ results) := by
  constructor
  · intro h
    have htotal := h.total 0 (Nat.zero_le _)
    have hpos := h.pos results.length le_rfl
    rw [(after_take hopen hstart hresults _).1] at htotal
    refine ⟨(toCInt_eq_iff hn).mp htotal, ?_, h.no_error hn hopen hstart hresults⟩
    rw [(after_take hopen hstart hresults _).2, List.take_length] at hpos
    rw [← hpos]
    exact ((toInt64_eq_iff _).mp Int.bmod_bmod).2
  · rintro ⟨hsize, hsum, hhttp⟩
    have hcounted : ∀ r ∈ results, s'.counted r = if 0 < r then r else 0 := by
      intro r hr
      have hrange := (hresults r hr).1
      by_cases hkind : s'.IsHttp
      · have hne : r ≠ -1 := fun hr' => hhttp hkind (hr' ▸ hr)
        rw [hopen.counted hn hkind]
        split_ifs <;> omega
      · cases s' with
        | fatfs el =>
          show (if r = 0 ∨ r = -1 then 0 else r) = _
          split_ifs <;> omega
        | http el => exact absurd trivial hkind
    have hpos : ∀ k ≤ results.length, (s'.after (results.take k)).info.bytePos =
        s.info.bytePos + gained (results.take k) := by
      intro k _
      have hle := gained_take_le results k
      have hnonneg := gained_nonneg (results.take k)
      rw [(after_take hopen hstart hresults k).2,
        sum_counted fun r hr => hcounted r (List.mem_of_mem_take hr)]
      exact (toInt64_eq_iff _).mpr ⟨by omega, by omega⟩
    refine ⟨fun k _ => ?_, hpos, fun j k hjk hk => ?_⟩
    · rw [(after_take hopen hstart hresults k).1]
      exact (toCInt_eq_iff hn).mpr hsize
    · have hmono := gained_take_mono results hjk
      rw [hpos j (hjk.trans hk), hpos k hk]
      omega

end

/-- A closed reader of the file `a`. -/
def FatfsEl.readerOfA : FatfsEl where
  type := .reader
  isOpen := false
  wType := .unknow
  writeHeader := false
  path := some [0x61]
  info := .default
  paused := false
  content := []
  offset := none

/-- An open reader of the file `a`, which has `n` bytes. -/
def FatfsEl.openOfA (n : ℤ) : FatfsEl :=
  { readerOfA with isOpen := true, offset := some 0, info := Info.default.setTotalBytes n }

theorem StreamReader.opens_a (n : ℤ) : Opens n (.fatfs .readerOfA) (.fatfs (.openOfA n)) :=
  @Opens.fatfs n .readerOfA (.openOfA n) true true rfl rfl

/-- A file of ten bytes in two reads. -/
theorem ledger_ten : Ledger 10 0 (.fatfs (.openOfA 10)) [4, 6, 0] :=
  (ledger_iff (by decide) (StreamReader.opens_a 10) (by decide) (by decide)).mpr
    ⟨by decide, by decide, fun hhttp => absurd hhttp not_false⟩

/-- A file of 2 ^ 31 bytes. -/
theorem ledger_large :
    ¬∀ (n : ℤ) (s s' : StreamReader) (results : List ℤ), 0 < n → n < 2 ^ 63 → s.Opens n s' →
      -2 ^ 63 ≤ s.info.bytePos ∧ s.info.bytePos < 2 ^ 63 →
      (∀ r ∈ results, -1 ≤ r ∧ r ≤ INT_MAX) → Ledger n s.info.bytePos s' results := by
  intro h
  have hledger := h (2 ^ 31) _ _ [] (by decide) (by decide) (StreamReader.opens_a _) (by decide)
    (by decide)
  exact absurd (hledger.total 0 le_rfl) (by decide)

end AudioPipeline
