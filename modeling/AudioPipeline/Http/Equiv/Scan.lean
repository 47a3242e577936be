import AudioPipeline.Http.Client
import AudioPipeline.Lib.Places
import Mathlib.Data.List.TakeWhile
import Mathlib.Data.List.DropRight

/-!
## What `strstr` and `sscanf` read

`NumberBehind` and `WordBehind` say what stands in a text behind the end of a word and the whitespace
after it.

* `afterName_eq_some`: `sscanf` comes to the text behind the first place of a name (`Behind`);
* `scanInt_behindWord`, `frontWord_behindWord`: it reads the number or the word that stands there;
* `getD_fieldInt`, `exists_storeWord_str`: what is stored in the end.
-/

namespace AudioPipeline

open Places

/-! ### The place -/

theorem strstr_eq_some {name text pos : List UInt8} (hname : name ≠ []) :
    strstr name text = some pos ↔ FirstAt name text pos := by
  induction text with
  | nil =>
    refine iff_of_false (by simp [strstr]) fun h => hname ?_
    have hpos : pos = [] := List.suffix_nil.mp h.suffix
    exact List.prefix_nil.mp (hpos ▸ h.starts)
  | cons c text ih =>
    rw [strstr]
    by_cases h : name.isPrefixOf (c :: text)
    · rw [if_pos h, firstAt_start (List.isPrefixOf_iff_prefix.mp h), Option.some.injEq, eq_comm]
    · rw [if_neg h, ih, firstAt_cons fun hstarts => h (List.isPrefixOf_iff_prefix.mpr hstarts)]

/-- A piece of text without whitespace. -/
structure IsWord (word : List UInt8) : Prop where
  ne_nil : word ≠ []
  solid : ∀ c ∈ word, isspace c = false

theorem IsWord.head {word : List UInt8} (hword : IsWord word) (more : List UInt8) :
    ∀ c ∈ (word ++ more).head?, isspace c = false := by
  intro c hc
  cases word with
  | nil => exact absurd rfl hword.ne_nil
  | cons d word =>
    obtain rfl := Option.some.inj hc
    exact hword.solid d List.mem_cons_self

/-- The text behind a word and the whitespace after it, where `tail` starts inside of the word. -/
def behindWord (tail : List UInt8) : List UInt8 := (tail.dropWhile (!isspace ·)).dropWhile isspace

/-- The text behind the word at the first place of `name`, as `sscanf` comes to it. -/
def afterName (name text : List UInt8) : Option (List UInt8) :=
  ((strstr name text).bind skipWord).map (·.dropWhile isspace)

/-! ### Words and whitespace -/

/-- A word ends where the text does, or at whitespace. -/
theorem takeWhile_word {word rest : List UInt8} (hword : ∀ c ∈ word, isspace c = false)
    (hrest : ∀ c ∈ rest.head?, isspace c = true) :
    (word ++ rest).takeWhile (!isspace ·) = word ∧
      (word ++ rest).dropWhile (!isspace ·) = rest := by
  have hall : ∀ c ∈ word, (!isspace c) = true := fun c hc => by rw [hword c hc]; rfl
  rw [List.takeWhile_append_of_pos hall, List.dropWhile_append_of_pos hall]
  cases rest with
  | nil => exact ⟨List.append_nil word, rfl⟩
  | cons c rest =>
    have hc : ¬(!isspace c) = true := by simp [hrest c rfl]
    rw [List.takeWhile_cons, List.dropWhile_cons, if_neg hc, if_neg hc]
    exact ⟨List.append_nil word, rfl⟩

/-- What `dropWhile` leaves starts with what it stops at. -/
theorem head_dropWhile (p : UInt8 → Bool) (text : List UInt8) :
    ∀ c ∈ (text.dropWhile p).head?, p c = false := by
  intro c hc
  have h := List.head?_dropWhile_not p text
  rw [Option.mem_def.mp hc] at h
  exact h

/-- The word at a name is the longest piece without whitespace there. -/
theorem skipWord_name {name : List UInt8} (hname : IsWord name) (tail : List UInt8) :
    skipWord (name ++ tail) = some (tail.dropWhile (!isspace ·)) := by
  have hall : ∀ c ∈ name, (!isspace c) = true := fun c hc => by rw [hname.solid c hc]; rfl
  rw [← List.dropWhile_append_of_pos hall]
  cases name with
  | nil => exact absurd rfl hname.ne_nil
  | cons c name =>
    have hc : ¬isspace c = true := by simp [hname.solid c List.mem_cons_self]
    rw [skipWord, scanWord, List.cons_append, List.dropWhile_cons, if_neg hc]
    rfl

/-- **Where `sscanf` reads**: behind the word at the first place of the name. -/
theorem afterName_eq_some {name text rest : List UInt8} (hname : IsWord name) :
    afterName name text = some rest ↔ ∃ tail, Behind name text tail ∧ behindWord tail = rest := by
  rw [afterName, Option.map_eq_some_iff]
  constructor
  · rintro ⟨t, ht, rfl⟩
    obtain ⟨pos, hpos, hskip⟩ := Option.bind_eq_some_iff.mp ht
    rw [strstr_eq_some hname.ne_nil] at hpos
    obtain ⟨tail, rfl⟩ := hpos.starts
    rw [skipWord_name hname] at hskip
    obtain rfl := Option.some.inj hskip
    exact ⟨tail, hpos, rfl⟩
  · rintro ⟨tail, hplace, rfl⟩
    exact ⟨_, Option.bind_eq_some_iff.mpr
      ⟨_, (strstr_eq_some hname.ne_nil).mpr hplace, skipWord_name hname tail⟩, rfl⟩

/-! ### Where the reading starts -/

theorem scanInt_dropWhile (text : List UInt8) :
    scanInt (text.dropWhile isspace) = scanInt text := by
  rw [scanInt, scanInt, List.dropWhile_idempotent]

theorem fieldInt_eq (name text : List UInt8) :
    fieldInt name text = (afterName name text).bind scanInt := by
  rw [fieldInt, afterName, Option.bind_map]
  exact congrArg _ (funext fun t => (scanInt_dropWhile t).symm)

/-- The word at the front of a text without whitespace there. -/
def frontWord (rest : List UInt8) : List UInt8 := rest.takeWhile (!isspace ·)

theorem fieldWord_eq (name text : List UInt8) :
    fieldWord name text =
      (afterName name text).bind fun rest => if rest = [] then none else some (frontWord rest) := by
  rw [fieldWord, afterName, Option.bind_map, Option.map_bind]
  refine congrArg _ (funext fun t => ?_)
  show (scanWord t).map (·.1) =
    if t.dropWhile isspace = [] then none else some (frontWord (t.dropWhile isspace))
  rw [scanWord]
  cases t.dropWhile isspace with
  | nil => rfl
  | cons c rest => rfl

/-! ### Numerals -/

/-- What holds of the 256 bytes. -/
theorem forall_byte {p : UInt8 → Prop} (h : ∀ n : Fin 256, p (UInt8.ofNat n)) (c : UInt8) :
    p c := by
  have hc : UInt8.ofNat (⟨c.toNat, c.toNat_lt⟩ : Fin 256) = c := UInt8.ofNat_toNat
  exact hc ▸ h ⟨c.toNat, c.toNat_lt⟩

theorem digit_start (c : UInt8) :
    isdigit c = true → isspace c = false ∧ c ≠ 0x2D ∧ c ≠ 0x2B := by
  refine forall_byte (p := fun c => isdigit c = true → isspace c = false ∧ c ≠ 0x2D ∧ c ≠ 0x2B)
    ?_ c
  decide +kernel

/-- The digits end where the text does, or where there is no digit. -/
theorem scanDigits_digits {digits more : List UInt8} (hne : digits ≠ [])
    (hdigits : ∀ c ∈ digits, isdigit c = true) (hmore : ∀ c ∈ more.head?, isdigit c = false) :
    scanDigits (digits ++ more) = some (decimal digits) := by
  have htake : (digits ++ more).takeWhile isdigit = digits := by
    rw [List.takeWhile_append_of_pos hdigits]
    cases more with
    | nil => exact List.append_nil digits
    | cons c more => rw [List.takeWhile_cons, if_neg (by simp [hmore c rfl]), List.append_nil]
  rw [scanDigits, htake]
  cases digits with
  | nil => exact absurd rfl hne
  | cons d digits => rfl

theorem scanDigits_eq_some {text : List UInt8} {n : ℕ} (h : scanDigits text = some n) :
    ∃ digits more, text = digits ++ more ∧ digits ≠ [] ∧ (∀ c ∈ digits, isdigit c = true) ∧
      (∀ c ∈ more.head?, isdigit c = false) ∧ decimal digits = n := by
  refine ⟨text.takeWhile isdigit, text.dropWhile isdigit, List.takeWhile_append_dropWhile.symm,
    ?_, fun c hc => List.mem_takeWhile_imp hc, head_dropWhile isdigit text, ?_⟩
  · intro hnil
    rw [scanDigits, hnil] at h
    exact absurd h nofun
  · unfold scanDigits at h
    cases htake : text.takeWhile isdigit with
    | nil =>
      rw [htake] at h
      exact absurd h nofun
    | cons d digits =>
      rw [htake] at h
      exact Option.some.inj h

/-- Digits, with or without a sign. -/
inductive IsNumeral : List UInt8 → ℤ → Prop
  | digits {digits} : digits ≠ [] → (∀ c ∈ digits, isdigit c = true) →
      IsNumeral digits (decimal digits)
  | plus {digits} : digits ≠ [] → (∀ c ∈ digits, isdigit c = true) →
      IsNumeral (0x2B :: digits) (decimal digits)
  | minus {digits} : digits ≠ [] → (∀ c ∈ digits, isdigit c = true) →
      IsNumeral (0x2D :: digits) (-(decimal digits : ℤ))

theorem IsNumeral.isWord {numeral : List UInt8} {n : ℤ} (h : IsNumeral numeral n) :
    IsWord numeral := by
  have hsign {sign : UInt8} {digits : List UInt8} (hspace : isspace sign = false)
      (hdigits : ∀ c ∈ digits, isdigit c = true) : IsWord (sign :: digits) :=
    ⟨List.cons_ne_nil _ _,
      List.forall_mem_cons.mpr ⟨hspace, fun c hc => (digit_start c (hdigits c hc)).1⟩⟩
  cases h with
  | digits hne hdigits => exact ⟨hne, fun c hc => (digit_start c (hdigits c hc)).1⟩
  | plus _ hdigits => exact hsign (by decide) hdigits
  | minus _ hdigits => exact hsign (by decide) hdigits

theorem dropWhile_solid {text : List UInt8} (h : ∀ c ∈ text.head?, isspace c = false) :
    text.dropWhile isspace = text := by
  cases text with
  | nil => rfl
  | cons c text => rw [List.dropWhile_cons, if_neg (by simp [h c rfl])]

/-- **`%d` and `%ld`** on a numeral. -/
theorem scanInt_numeral {numeral more : List UInt8} {n : ℤ} (h : IsNumeral numeral n)
    (hmore : ∀ c ∈ more.head?, isdigit c = false) : scanInt (numeral ++ more) = some n := by
  rw [scanInt, dropWhile_solid (h.isWord.head more)]
  cases h with
  | digits hne hdigits =>
    have hscan := scanDigits_digits hne hdigits hmore
    cases numeral with
    | nil => exact absurd rfl hne
    | cons d digits =>
      -- a digit is no sign
      have hstart := digit_start d (hdigits d List.mem_cons_self)
      split
      · rename_i heq
        exact absurd (List.cons.inj heq).1 hstart.2.1
      · rename_i heq
        exact absurd (List.cons.inj heq).1 hstart.2.2
      · rw [hscan]
        rfl
  | @plus digits hne hdigits =>
    show (scanDigits (digits ++ more)).map _ = _
    rw [scanDigits_digits hne hdigits hmore]
    rfl
  | @minus digits hne hdigits =>
    show (scanDigits (digits ++ more)).map _ = _
    rw [scanDigits_digits hne hdigits hmore]
    rfl

theorem scanInt_digits {digits tail : List UInt8} (hne : digits ≠ [])
    (hdigits : ∀ c ∈ digits, isdigit c = true) (htail : ∀ c ∈ tail.head?, isdigit c = false) :
    scanInt (digits ++ tail) = some (decimal digits : ℤ) :=
  scanInt_numeral (.digits hne hdigits) htail

/-- What is read is a numeral. -/
theorem scanInt_eq_some {text : List UInt8} {n : ℤ} (htext : ∀ c ∈ text.head?, isspace c = false)
    (h : scanInt text = some n) :
    ∃ numeral more, text = numeral ++ more ∧ IsNumeral numeral n ∧
      ∀ c ∈ more.head?, isdigit c = false := by
  rw [scanInt, dropWhile_solid htext] at h
  split at h
  · obtain ⟨k, hk, rfl⟩ := Option.map_eq_some_iff.mp h
    obtain ⟨digits, more, rfl, hne, hdigits, hmore, rfl⟩ := scanDigits_eq_some hk
    exact ⟨0x2D :: digits, more, rfl, .minus hne hdigits, hmore⟩
  · obtain ⟨k, hk, rfl⟩ := Option.map_eq_some_iff.mp h
    obtain ⟨digits, more, rfl, hne, hdigits, hmore, rfl⟩ := scanDigits_eq_some hk
    exact ⟨0x2B :: digits, more, rfl, .plus hne hdigits, hmore⟩
  · obtain ⟨k, hk, rfl⟩ := Option.map_eq_some_iff.mp h
    obtain ⟨digits, more, rfl, hne, hdigits, hmore, rfl⟩ := scanDigits_eq_some hk
    exact ⟨digits, more, rfl, .digits hne hdigits, hmore⟩

/-! ### What stands behind a word -/

/-- `rest` starts behind the end of a word and the whitespace after it. -/
def NextWord (tail rest : List UInt8) : Prop :=
  ∃ front blanks, tail = front ++ (blanks ++ rest) ∧ (∀ c ∈ front, isspace c = false) ∧
    blanks ≠ [] ∧ ∀ c ∈ blanks, isspace c = true

/-- The next word. -/
def WordBehind (tail word : List UInt8) : Prop :=
  ∃ more, NextWord tail (word ++ more) ∧ IsWord word ∧ ∀ c ∈ more.head?, isspace c = true

/-- The number that the next word is, or starts with. -/
def NumberBehind (tail : List UInt8) (n : ℤ) : Prop :=
  ∃ numeral more, NextWord tail (numeral ++ more) ∧ IsNumeral numeral n ∧
    ∀ c ∈ more.head?, isdigit c = false

section

variable {tail rest word : List UInt8}

theorem NextWord.behindWord_eq (h : NextWord tail rest)
    (hrest : ∀ c ∈ rest.head?, isspace c = false) : behindWord tail = rest := by
  obtain ⟨front, blanks, rfl, hfront, hne, hblanks⟩ := h
  have hhead : ∀ c ∈ (blanks ++ rest).head?, isspace c = true := by
    intro c hc
    cases blanks with
    | nil => exact absurd rfl hne
    | cons d blanks =>
      obtain rfl := Option.some.inj hc
      exact hblanks d List.mem_cons_self
  rw [behindWord, (takeWhile_word hfront hhead).2, List.dropWhile_append_of_pos hblanks,
    dropWhile_solid hrest]

theorem nextWord_behindWord (h : behindWord tail ≠ []) : NextWord tail (behindWord tail) := by
  refine ⟨tail.takeWhile (!isspace ·), (tail.dropWhile (!isspace ·)).takeWhile isspace, ?_,
    fun c hc => ?_, fun hnil => ?_, fun c hc => List.mem_takeWhile_imp hc⟩
  · rw [behindWord, List.takeWhile_append_dropWhile, List.takeWhile_append_dropWhile]
  · simpa using List.mem_takeWhile_imp hc
  · -- the first word ends at whitespace, if anything is behind it
    unfold behindWord at h
    have hhead := head_dropWhile (!isspace ·) tail
    cases hdrop : tail.dropWhile (!isspace ·) with
    | nil =>
      rw [hdrop] at h
      exact h rfl
    | cons c text =>
      rw [hdrop] at hhead hnil
      have hc : isspace c = true := by simpa using hhead c rfl
      rw [List.takeWhile_cons, if_pos hc] at hnil
      exact List.cons_ne_nil _ _ hnil

theorem head_behindWord (tail : List UInt8) : ∀ c ∈ (behindWord tail).head?, isspace c = false :=
  head_dropWhile isspace _

/-- **The number that `sscanf` reads.** -/
theorem scanInt_behindWord (tail : List UInt8) (n : ℤ) :
    scanInt (behindWord tail) = some n ↔ NumberBehind tail n := by
  constructor
  · intro h
    have hne : behindWord tail ≠ [] := by
      intro hnil
      rw [hnil] at h
      exact absurd h nofun
    have hnext := nextWord_behindWord hne
    obtain ⟨numeral, more, heq, hnum, hmore⟩ := scanInt_eq_some (head_behindWord tail) h
    rw [heq] at hnext
    exact ⟨numeral, more, hnext, hnum, hmore⟩
  · rintro ⟨numeral, more, hnext, hnum, hmore⟩
    rw [hnext.behindWord_eq (hnum.isWord.head more)]
    exact scanInt_numeral hnum hmore

/-- **The word that `sscanf` reads.** -/
theorem frontWord_behindWord (tail word : List UInt8) :
    behindWord tail ≠ [] ∧ frontWord (behindWord tail) = word ↔ WordBehind tail word := by
  constructor
  · rintro ⟨hne, rfl⟩
    have hnext := nextWord_behindWord hne
    have hhead := head_behindWord tail
    rw [← List.takeWhile_append_dropWhile (p := (!isspace ·)) (l := behindWord tail)] at hnext
    refine ⟨_, hnext, ⟨?_, fun c hc => ?_⟩, fun c hc => ?_⟩
    · cases hrest : behindWord tail with
      | nil => exact absurd hrest hne
      | cons c rest =>
        rw [hrest] at hhead
        rw [frontWord, List.takeWhile_cons, if_pos (by simp [hhead c rfl])]
        exact List.cons_ne_nil _ _
    · simpa using List.mem_takeWhile_imp hc
    · simpa using head_dropWhile (!isspace ·) (behindWord tail) c hc
  · rintro ⟨more, hnext, hword, hmore⟩
    rw [hnext.behindWord_eq (hword.head more)]
    exact ⟨List.append_ne_nil_of_left_ne_nil hword.ne_nil more,
      (takeWhile_word hword.solid hmore).1⟩

end

/-! ### What is read -/

section

variable {name text : List UInt8}

theorem fieldInt_eq_some (hname : IsWord name) (n : ℤ) :
    fieldInt name text = some n ↔ ∃ tail, Behind name text tail ∧ NumberBehind tail n := by
  simp only [fieldInt_eq, Option.bind_eq_some_iff, afterName_eq_some hname, ← scanInt_behindWord]
  constructor
  · rintro ⟨_, ⟨tail, htail, rfl⟩, hscan⟩
    exact ⟨tail, htail, hscan⟩
  · rintro ⟨tail, htail, hscan⟩
    exact ⟨_, ⟨tail, htail, rfl⟩, hscan⟩

theorem fieldInt_eq_none (hname : IsWord name) :
    fieldInt name text = none ↔ ∀ tail n, Behind name text tail → ¬NumberBehind tail n := by
  rw [Option.eq_none_iff_forall_ne_some]
  constructor
  · exact fun h tail n htail hnum => h n ((fieldInt_eq_some hname n).mpr ⟨tail, htail, hnum⟩)
  · intro h n hread
    obtain ⟨tail, htail, hnum⟩ := (fieldInt_eq_some hname n).mp hread
    exact h tail n htail hnum

theorem fieldWord_eq_some (hname : IsWord name) (word : List UInt8) :
    fieldWord name text = some word ↔ ∃ tail, Behind name text tail ∧ WordBehind tail word := by
  simp only [fieldWord_eq, Option.bind_eq_some_iff, afterName_eq_some hname, ite_eq_iff,
    Option.some.injEq, reduceCtorEq, and_false, false_or, ← frontWord_behindWord]
  constructor
  · rintro ⟨_, ⟨tail, htail, rfl⟩, hword⟩
    exact ⟨tail, htail, hword⟩
  · rintro ⟨tail, htail, hword⟩
    exact ⟨_, ⟨tail, htail, rfl⟩, hword⟩

theorem fieldWord_eq_none (hname : IsWord name) :
    fieldWord name text = none ↔ ∀ tail word, Behind name text tail → ¬WordBehind tail word := by
  rw [Option.eq_none_iff_forall_ne_some]
  constructor
  · exact fun h tail word htail hword =>
      h word ((fieldWord_eq_some hname word).mpr ⟨tail, htail, hword⟩)
  · intro h word hread
    obtain ⟨tail, htail, hword⟩ := (fieldWord_eq_some hname word).mp hread
    exact h tail word htail hword

end

/-! ### What is stored -/

theorem WordBehind.subset {tail word : List UInt8} (h : WordBehind tail word) : word ⊆ tail := by
  obtain ⟨more, ⟨front, blanks, rfl, -⟩, -⟩ := h
  intro c hc
  simp [hc]

theorem getD_fieldInt {name text : List UInt8} (hname : IsWord name) (d v : ℤ) :
    (fieldInt name text).getD d = v ↔
      (∃ tail, Behind name text tail ∧ NumberBehind tail v) ∨
        (∀ tail n, Behind name text tail → ¬NumberBehind tail n) ∧ d = v := by
  rw [← fieldInt_eq_some hname, ← fieldInt_eq_none hname]
  cases fieldInt name text with
  | none => simp
  | some n => simp

theorem str_store {n : ℕ} {a b : CharArray n} {word : List UInt8} (hword : ∀ c ∈ word, c ≠ 0)
    (h : a.store word = some b) : b.str = word := by
  unfold CharArray.store at h
  split_ifs at h with hlen
  obtain rfl := Option.some.inj h
  show (word ++ 0 :: a.1.drop (word.length + 1)).takeWhile (· ≠ 0) = word
  rw [List.takeWhile_append_of_pos fun c hc => decide_eq_true (hword c hc)]
  simp

/-- The array has room for the word. -/
theorem exists_store {n : ℕ} (a : CharArray n) (word : List UInt8) :
    (∃ b, a.store word = some b) ↔ word.length < n := by
  unfold CharArray.store
  split_ifs with h
  · exact iff_of_true ⟨_, rfl⟩ h
  · exact iff_of_false (fun ⟨_, hb⟩ => hb) h

/-- A word is stored without a fault exactly if it fits. -/
theorem exists_storeWord {n : ℕ} (a : CharArray n) {name text : List UInt8}
    (hname : IsWord name) :
    (∃ b, storeWord a (fieldWord name text) = some b) ↔
      ∀ tail word, Behind name text tail → WordBehind tail word → word.length < n := by
  cases hfield : fieldWord name text with
  | none =>
    rw [fieldWord_eq_none hname] at hfield
    exact iff_of_true ⟨a, rfl⟩ fun tail word htail hword => absurd hword (hfield tail word htail)
  | some word =>
    refine (exists_store a word).trans ⟨fun hlen tail word' htail hword' => ?_, fun hlen => ?_⟩
    · have hread := (fieldWord_eq_some hname word').mpr ⟨tail, htail, hword'⟩
      rw [hfield] at hread
      obtain rfl := Option.some.inj hread
      exact hlen
    · obtain ⟨tail, htail, hword⟩ := (fieldWord_eq_some hname word).mp hfield
      exact hlen tail word htail hword

/-- The string that an array holds in the end: a word that fits, or what it held before. -/
theorem exists_storeWord_str {n : ℕ} (a : CharArray n) {name text : List UInt8}
    (hname : IsWord name) (htext : ∀ c ∈ text, c ≠ 0) (v : List UInt8) :
    (∃ b, storeWord a (fieldWord name text) = some b ∧ b.str = v) ↔
      (∃ tail, Behind name text tail ∧ WordBehind tail v ∧ v.length < n) ∨
        (∀ tail word, Behind name text tail → ¬WordBehind tail word) ∧ a.str = v := by
  cases hfield : fieldWord name text with
  | none =>
    rw [fieldWord_eq_none hname] at hfield
    constructor
    · rintro ⟨b, hb, hstr⟩
      obtain rfl : a = b := Option.some.inj hb
      exact Or.inr ⟨hfield, hstr⟩
    · rintro (⟨tail, htail, hword, -⟩ | ⟨-, hstr⟩)
      · exact absurd hword (hfield tail v htail)
      · exact ⟨a, rfl, hstr⟩
  | some word =>
    obtain ⟨tail, htail, hword⟩ := (fieldWord_eq_some hname word).mp hfield
    have hzero : ∀ c ∈ word, c ≠ 0 := fun c hc =>
      htext c (htail.suffix.subset (List.mem_append_right name (hword.subset hc)))
    constructor
    · rintro ⟨b, hb, rfl⟩
      rw [str_store hzero hb]
      exact Or.inl ⟨tail, htail, hword, (exists_store a word).mp ⟨b, hb⟩⟩
    · rintro (⟨tail', htail', hword', hlen⟩ | ⟨hnone, -⟩)
      · have hread := (fieldWord_eq_some hname v).mpr ⟨tail', htail', hword'⟩
        rw [hfield] at hread
        obtain rfl := Option.some.inj hread
        obtain ⟨b, hb⟩ := (exists_store a word).mpr hlen
        exact ⟨b, hb, str_store hzero hb⟩
      · exact absurd hword (hnone tail word htail)

end AudioPipeline
