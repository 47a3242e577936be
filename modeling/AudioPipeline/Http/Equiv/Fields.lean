import AudioPipeline.Http.Equiv.Scan

/-!
## What `parse_header` reads

* `mentioned_iff`: where the first place of a name is, in terms of the reason phrase and the fields;
* `parseHeader_iff`: the status code, the length and the location of a header are returned exactly
  if it is `HttpResponse.Readable`: the two fields are spelled as `parse_header` has them, with
  whitespace behind the colon and no mention of the name in front, or are not there at all.
-/

namespace AudioPipeline

open Places

/-! ### Responses -/

/-- The characters of a field name. -/
def isTokenChar (c : UInt8) : Bool :=
  isalnum c || (ascii "!#$%&'*+-.^_|~").contains c || c == 0x60

/-- The characters of a field value: visible ones, blanks and those above ASCII. -/
def isTextChar (c : UInt8) : Bool := c == 0x09 || (0x20 ≤ c && c != 0x7F)

/-- A field of a header, with the whitespace behind its colon. -/
structure HttpField where
  name : List UInt8
  ows : List UInt8
  value : List UInt8
  name_ne_nil : name ≠ []
  name_token : ∀ c ∈ name, isTokenChar c = true
  ows_blank : ∀ c ∈ ows, c = 0x20 ∨ c = 0x09
  value_text : ∀ c ∈ value, isTextChar c = true
  value_trimmed : (∀ c ∈ value.head?, isspace c = false) ∧ ∀ c ∈ value.getLast?, isspace c = false

namespace HttpField

/-- The line of the field. -/
def line (f : HttpField) : List UInt8 := f.name ++ 0x3A :: (f.ows ++ (f.value ++ [0x0D, 0x0A]))

/-- The field has this name, in any letter case. -/
def Named (f : HttpField) (name : List UInt8) : Prop := f.name.map tolower = name.map tolower

instance (f : HttpField) (name : List UInt8) : Decidable (f.Named name) :=
  inferInstanceAs (Decidable (_ = _))

/-- The name stands in front of a colon in the line: the name of the field ends with it, or it is in
the value. -/
def Mentions (f : HttpField) (name : List UInt8) : Prop :=
  name <:+ f.name ∨ name ++ [0x3A] <:+: f.value

instance (f : HttpField) (name : List UInt8) : Decidable (f.Mentions name) :=
  inferInstanceAs (Decidable (_ ∨ _))

end HttpField

/-- The header of a response. -/
structure HttpResponse where
  status : List UInt8
  reason : List UInt8
  fields : List HttpField
  status_digits : status.length = 3 ∧ ∀ c ∈ status, isdigit c = true
  reason_text : ∀ c ∈ reason, isTextChar c = true
  one_length : (fields.filter (·.Named (ascii "Content-Length"))).length ≤ 1
  length_value : ∀ f ∈ fields, f.Named (ascii "Content-Length") →
    f.value ≠ [] ∧ (∀ c ∈ f.value, isdigit c = true) ∧ decimal f.value < 2 ^ 63
  one_location : (fields.filter (·.Named (ascii "Location"))).length ≤ 1

namespace HttpResponse

/-- The bytes of the header. -/
def text (r : HttpResponse) : List UInt8 :=
  ascii "HTTP/1.1" ++ ([0x20] ++ (r.status ++ 0x20 :: (r.reason ++ [0x0D, 0x0A] ++
    r.fields.flatMap HttpField.line ++ [0x0D, 0x0A])))

/-- The status code. -/
def code (r : HttpResponse) : ℕ := decimal r.status

/-- The value of `Content-Length`, or 0. -/
def length (r : HttpResponse) : ℕ :=
  ((r.fields.find? (·.Named (ascii "Content-Length"))).map fun f => decimal f.value).getD 0

/-- The value of `Location`, or nothing. -/
def location (r : HttpResponse) : List UInt8 :=
  ((r.fields.find? (·.Named (ascii "Location"))).map (·.value)).getD []

/-- `parse_header` returns what the header says. -/
def ReadAs (r : HttpResponse) (parsed : Option HttpResHeader) : Prop :=
  ∃ resp ∈ parsed, resp.statusCode = r.code ∧ resp.contentLength = r.length ∧
    resp.location.str = r.location

/-! ### Where a name stands first -/

/-- Neither the reason phrase nor one of the fields `pre` mentions the name. -/
def Unmentioned (r : HttpResponse) (name : List UInt8) (pre : List HttpField) : Prop :=
  ¬name ++ [0x3A] <:+: r.reason ∧ ∀ f ∈ pre, ¬f.Mentions name

instance (r : HttpResponse) (name : List UInt8) (pre : List HttpField) :
    Decidable (r.Unmentioned name pre) :=
  inferInstanceAs (Decidable (_ ∧ _))

/-- What stands behind the reason phrase, or behind a value: the fields `post`. -/
def rest (post : List HttpField) : List UInt8 :=
  0x0D :: 0x0A :: (post.flatMap HttpField.line ++ [0x0D, 0x0A])

/-- The name is first mentioned in front of a colon and `tail`: in the reason phrase, at the end of
the name of a field, or in a value. -/
inductive Mentioned (r : HttpResponse) (name : List UInt8) : List UInt8 → Prop
  | reason {after} : Behind (name ++ [0x3A]) r.reason after →
      r.Mentioned name (after ++ rest r.fields)
  | name {pre f post} : r.fields = pre ++ f :: post → r.Unmentioned name pre → name <:+ f.name →
      r.Mentioned name (f.ows ++ (f.value ++ rest post))
  | value {pre f post after} : r.fields = pre ++ f :: post → r.Unmentioned name pre →
      ¬name <:+ f.name → Behind (name ++ [0x3A]) f.value after →
      r.Mentioned name (after ++ rest post)

/-- The field is spelled like the name, has whitespace behind its colon, and nothing in front of it
mentions the name. -/
structure Ordinary (r : HttpResponse) (name : List UInt8) (f : HttpField) : Prop where
  spelled : f.name = name
  spaced : f.ows ≠ []
  first : ∃ pre post, r.fields = pre ++ f :: post ∧ r.Unmentioned name pre

/-- The name is first mentioned elsewhere: in the reason phrase, at the end of a longer name, in a
field without whitespace behind its colon, or in a value. -/
inductive Elsewhere (r : HttpResponse) (name : List UInt8) : List UInt8 → Prop
  | reason {after} : Behind (name ++ [0x3A]) r.reason after →
      r.Elsewhere name (after ++ rest r.fields)
  | longer {pre f post} : r.fields = pre ++ f :: post → r.Unmentioned name pre → name <:+ f.name →
      f.name ≠ name → r.Elsewhere name (f.ows ++ (f.value ++ rest post))
  | unspaced {pre f post} : r.fields = pre ++ f :: post → r.Unmentioned name pre → f.name = name →
      f.ows = [] → r.Elsewhere name (f.value ++ rest post)
  | value {pre f post after} : r.fields = pre ++ f :: post → r.Unmentioned name pre →
      ¬name <:+ f.name → Behind (name ++ [0x3A]) f.value after →
      r.Elsewhere name (after ++ rest post)

/-- A content type fits its array.  There is an ordinary field with the length, or the word behind
another mention of the name happens to be the same number, or no number stands behind a mention and
`resp` holds the length before; there is an ordinary field with the location, which is one word that
fits its array, or the word behind another mention happens to be the location, or no word stands
behind a mention and `resp` holds the location before. -/
structure Readable (r : HttpResponse) (resp : HttpResHeader) : Prop where
  type : ∀ tail word, r.Mentioned (ascii "Content-Type") tail → WordBehind tail word →
    word.length < 128
  length :
    (∃ f, r.Ordinary (ascii "Content-Length") f) ∨
      (∃ tail, r.Elsewhere (ascii "Content-Length") tail ∧ NumberBehind tail r.length) ∨
      (∀ tail n, r.Mentioned (ascii "Content-Length") tail → ¬NumberBehind tail n) ∧
        resp.contentLength = r.length
  location :
    (∃ f, r.Ordinary (ascii "Location") f ∧ IsWord f.value ∧ f.value.length < 1024) ∨
      (∃ tail, r.Elsewhere (ascii "Location") tail ∧ WordBehind tail r.location ∧
        r.location.length < 1024) ∨
      (∀ tail word, r.Mentioned (ascii "Location") tail → ¬WordBehind tail word) ∧
        resp.location.str = r.location

end HttpResponse

/-! ### The name in a piece of the header -/

/-- The name of a field. -/
structure IsFieldName (name : List UInt8) : Prop where
  ne_nil : name ≠ []
  token : ∀ c ∈ name, isTokenChar c = true

theorem token_sep (c : UInt8) : isTokenChar c = true →
    isspace c = false ∧ c ≠ 0x3A ∧ c ≠ 0x20 ∧ c ≠ 0x09 ∧ c ≠ 0x0D ∧ c ≠ 0x0A := by
  refine forall_byte (p := fun c => isTokenChar c = true →
    isspace c = false ∧ c ≠ 0x3A ∧ c ≠ 0x20 ∧ c ≠ 0x09 ∧ c ≠ 0x0D ∧ c ≠ 0x0A) ?_ c
  decide +kernel

theorem HttpField.not_colon (f : HttpField) : (0x3A : UInt8) ∉ f.name :=
  fun hmem => (token_sep _ (f.name_token _ hmem)).2.1 rfl

namespace IsFieldName

variable {name : List UInt8}

theorem not_colon (hname : IsFieldName name) : (0x3A : UInt8) ∉ name :=
  fun hmem => (token_sep _ (hname.token _ hmem)).2.1 rfl

/-- A name with its colon is looked for as a word. -/
theorem isWord (hname : IsFieldName name) : IsWord (name ++ [0x3A]) where
  ne_nil := List.append_ne_nil_of_right_ne_nil _ (List.cons_ne_nil _ _)
  solid c hc := by
    rcases List.mem_append.mp hc with hc | hc
    · exact (token_sep c (hname.token c hc)).1
    · obtain rfl := List.mem_singleton.mp hc
      decide

/-- What separates the pieces of a header is not in the name. -/
theorem sep (hname : IsFieldName name) {c : UInt8}
    (hc : c = 0x20 ∨ c = 0x09 ∨ c = 0x0D ∨ c = 0x0A) : c ∉ name ++ [0x3A] := by
  intro hmem
  rcases List.mem_append.mp hmem with hmem | hmem
  · obtain ⟨-, -, hsep⟩ := token_sep c (hname.token c hmem)
    tauto
  · obtain rfl := List.mem_singleton.mp hmem
    revert hc
    decide

/-- A place behind a separator. -/
theorem infix_cons (hname : IsFieldName name) {c : UInt8}
    (hc : c = 0x20 ∨ c = 0x09 ∨ c = 0x0D ∨ c = 0x0A) (text : List UInt8) :
    name ++ [0x3A] <:+: c :: text ↔ name ++ [0x3A] <:+: text := by
  have hsep := infix_sep (a := []) (b := text) hname.isWord.ne_nil (hname.sep hc)
  rw [List.nil_append, List.infix_nil] at hsep
  rw [hsep, or_iff_right hname.isWord.ne_nil]

theorem infix_blanks (hname : IsFieldName name) {blanks : List UInt8}
    (hblanks : ∀ c ∈ blanks, c = 0x20 ∨ c = 0x09) (text : List UInt8) :
    name ++ [0x3A] <:+: blanks ++ text ↔ name ++ [0x3A] <:+: text := by
  induction blanks with
  | nil => rfl
  | cons c blanks ih =>
    have hc : c = 0x20 ∨ c = 0x09 ∨ c = 0x0D ∨ c = 0x0A :=
      (hblanks c List.mem_cons_self).imp_right Or.inl
    rw [List.cons_append, hname.infix_cons hc, ih fun d hd => hblanks d (List.mem_cons_of_mem c hd)]

/-- The end of a line. -/
theorem infix_crlf (hname : IsFieldName name) (text more : List UInt8) :
    name ++ [0x3A] <:+: text ++ 0x0D :: 0x0A :: more ↔
      name ++ [0x3A] <:+: text ∨ name ++ [0x3A] <:+: more := by
  rw [infix_sep hname.isWord.ne_nil (hname.sep (by decide)), hname.infix_cons (by decide)]

/-- The part of a line in front of a place in the value. -/
theorem infix_field (hname : IsFieldName name) (f : HttpField) (text : List UInt8) :
    name ++ [0x3A] <:+: f.name ++ 0x3A :: (f.ows ++ text) ↔
      name <:+ f.name ∨ name ++ [0x3A] <:+: text := by
  rw [infix_stop hname.not_colon, or_iff_right (not_infix_of_not_mem f.not_colon),
    hname.infix_blanks f.ows_blank]

theorem infix_line (hname : IsFieldName name) (f : HttpField) (text : List UInt8) :
    name ++ [0x3A] <:+: f.line ++ text ↔ f.Mentions name ∨ name ++ [0x3A] <:+: text := by
  have hline : f.line ++ text = f.name ++ 0x3A :: (f.ows ++ (f.value ++ 0x0D :: 0x0A :: text)) := by
    simp [HttpField.line]
  rw [hline, hname.infix_field, hname.infix_crlf, HttpField.Mentions, or_assoc]

theorem infix_lines (hname : IsFieldName name) (fields : List HttpField) (text : List UInt8) :
    name ++ [0x3A] <:+: fields.flatMap HttpField.line ++ text ↔
      (∃ f ∈ fields, f.Mentions name) ∨ name ++ [0x3A] <:+: text := by
  induction fields with
  | nil => simp
  | cons f fields ih =>
    rw [List.flatMap_cons, List.append_assoc, hname.infix_line, ih]
    simp only [List.mem_cons, exists_eq_or_imp, or_assoc]

end IsFieldName

namespace HttpResponse

variable {r : HttpResponse} {name : List UInt8} {pre post : List HttpField} {f : HttpField}

/-- The status line up to the reason phrase. -/
def start (r : HttpResponse) : List UInt8 := ascii "HTTP/1.1" ++ 0x20 :: (r.status ++ [0x20])

theorem text_reason (r : HttpResponse) : r.text = r.start ++ (r.reason ++ rest r.fields) := by
  simp [text, start, rest]

/-- The header in front of a field, where `pre` are the fields before it. -/
def front (r : HttpResponse) (pre : List HttpField) : List UInt8 :=
  r.start ++ (r.reason ++ 0x0D :: 0x0A :: pre.flatMap HttpField.line)

theorem text_field (hfields : r.fields = pre ++ f :: post) :
    r.text = r.front pre ++ (f.name ++ 0x3A :: (f.ows ++ (f.value ++ rest post))) := by
  simp [text, start, front, rest, hfields, HttpField.line]

theorem infix_start (hname : IsFieldName name) (r : HttpResponse) (text : List UInt8) :
    name ++ [0x3A] <:+: r.start ++ text ↔ name ++ [0x3A] <:+: text := by
  have hhttp : (0x3A : UInt8) ∉ ascii "HTTP/1.1" := by decide
  have hstatus : (0x3A : UInt8) ∉ r.status := fun hmem =>
    absurd (r.status_digits.2 _ hmem) (by decide)
  have hblank : (0x20 : UInt8) ∉ name ++ [0x3A] := hname.sep (by decide)
  rw [start, List.append_assoc, List.cons_append, List.append_assoc, List.singleton_append,
    infix_sep hname.isWord.ne_nil hblank, or_iff_right (not_infix_of_not_mem hhttp),
    infix_sep hname.isWord.ne_nil hblank, or_iff_right (not_infix_of_not_mem hstatus)]

/-- Where nothing in front mentions the name, it is looked for behind it. -/
theorem infix_front (hname : IsFieldName name) (h : r.Unmentioned name pre) (text : List UInt8) :
    name ++ [0x3A] <:+: r.front pre ++ text ↔ name ++ [0x3A] <:+: text := by
  have hnone : ¬∃ g ∈ pre, g.Mentions name := fun ⟨g, hg, hmention⟩ => h.2 g hg hmention
  rw [front, List.append_assoc, infix_start hname, List.append_assoc, List.cons_append,
    List.cons_append, hname.infix_crlf, or_iff_right h.1, hname.infix_lines, or_iff_right hnone]

/-- **The name stands first where it is first mentioned.** -/
theorem Mentioned.behind (hname : IsFieldName name) {tail : List UInt8}
    (h : r.Mentioned name tail) :
    Behind (name ++ [0x3A]) r.text tail := by
  rw [behind_iff hname.isWord.ne_nil, List.dropLast_concat]
  cases h with
  | reason hafter =>
    obtain ⟨before, hreason, hfirst⟩ := (behind_iff hname.isWord.ne_nil).mp hafter
    rw [List.dropLast_concat] at hfirst
    refine ⟨r.start ++ before, ?_, ?_⟩
    · rw [text_reason, hreason]
      simp
    · rw [List.append_assoc, infix_start hname]
      exact hfirst
  | @name pre f post hfields hpre hends =>
    obtain ⟨longer, hlonger⟩ := hends
    refine ⟨r.front pre ++ longer, ?_, ?_⟩
    · rw [text_field hfields, ← hlonger]
      simp
    · rw [List.append_assoc, hlonger, infix_front hname hpre]
      exact not_infix_of_not_mem f.not_colon
  | @value pre f post after hfields hpre hends hafter =>
    obtain ⟨before, hvalue, hfirst⟩ := (behind_iff hname.isWord.ne_nil).mp hafter
    rw [List.dropLast_concat] at hfirst
    refine ⟨r.front pre ++ (f.name ++ 0x3A :: (f.ows ++ before)), ?_, ?_⟩
    · rw [text_field hfields, hvalue]
      simp
    · rw [List.append_assoc, infix_front hname hpre, List.append_assoc, List.cons_append,
        List.append_assoc, hname.infix_field, or_iff_right hends]
      exact hfirst

/-- The first field that mentions the name. -/
theorem exists_first_mention (h : ∃ f ∈ r.fields, f.Mentions name)
    (hreason : ¬name ++ [0x3A] <:+: r.reason) :
    ∃ pre f post, r.fields = pre ++ f :: post ∧ r.Unmentioned name pre ∧ f.Mentions name := by
  obtain ⟨fields, hfields⟩ : ∃ fields, r.fields = fields := ⟨_, rfl⟩
  unfold Unmentioned
  simp only [hfields] at h ⊢
  clear hfields
  -- by induction on the fields: the first one mentions the name, or it is in front of the one that
  -- does
  induction fields with
  | nil => exact absurd h (by simp)
  | cons g fields ih =>
    by_cases hg : g.Mentions name
    · exact ⟨[], g, fields, rfl, ⟨hreason, by simp⟩, hg⟩
    · simp only [List.mem_cons, exists_eq_or_imp, hg, false_or] at h
      obtain ⟨pre, f, post, hfields, ⟨-, hpre⟩, hf⟩ := ih h
      refine ⟨g :: pre, f, post, by rw [hfields, List.cons_append], ⟨hreason, ?_⟩, hf⟩
      exact List.forall_mem_cons.mpr ⟨hg, hpre⟩

theorem exists_mentioned (hname : IsFieldName name) (h : name ++ [0x3A] <:+: r.text) :
    ∃ tail, r.Mentioned name tail := by
  by_cases hreason : name ++ [0x3A] <:+: r.reason
  · obtain ⟨after, hafter⟩ := (exists_behind hname.isWord.ne_nil).mpr hreason
    exact ⟨_, .reason hafter⟩
  · have hnone : ¬name ++ [0x3A] <:+: [0x0D, 0x0A] := not_infix_of_not_mem (by decide)
    rw [text_reason, infix_start hname, rest, hname.infix_crlf, or_iff_right hreason,
      hname.infix_lines, or_iff_left hnone] at h
    obtain ⟨pre, f, post, hfields, hpre, hmention⟩ := exists_first_mention h hreason
    by_cases hends : name <:+ f.name
    · exact ⟨_, .name hfields hpre hends⟩
    · obtain ⟨after, hafter⟩ :=
        (exists_behind hname.isWord.ne_nil).mpr (hmention.resolve_left hends)
      exact ⟨_, .value hfields hpre hends hafter⟩

/-- **Where `strstr` comes to**, in terms of the fields. -/
theorem mentioned_iff (hname : IsFieldName name) {tail : List UInt8} :
    Behind (name ++ [0x3A]) r.text tail ↔ r.Mentioned name tail := by
  constructor
  · intro h
    obtain ⟨tail', htail'⟩ := exists_mentioned hname
      ((exists_behind hname.isWord.ne_nil).mp ⟨tail, h⟩)
    rw [h.unique (htail'.behind hname)]
    exact htail'
  · exact Mentioned.behind hname

theorem Unmentioned.not_mentioned (h : r.Unmentioned name r.fields) (tail : List UInt8) :
    ¬r.Mentioned name tail := by
  have hmem {pre post : List HttpField} {f : HttpField} (hfields : r.fields = pre ++ f :: post) :
      f ∈ r.fields :=
    hfields ▸ List.mem_append_right pre List.mem_cons_self
  have hne : name ++ [0x3A] ≠ [] := List.append_ne_nil_of_right_ne_nil _ (List.cons_ne_nil _ _)
  intro hmention
  cases hmention with
  | reason hafter => exact h.1 ((exists_behind hne).mp ⟨_, hafter⟩)
  | name hfields _ hends => exact h.2 _ (hmem hfields) (Or.inl hends)
  | value hfields _ _ hafter =>
    exact h.2 _ (hmem hfields) (Or.inr ((exists_behind hne).mp ⟨_, hafter⟩))

/-- A mention is that of an ordinary field, or another one. -/
theorem Mentioned.cases {tail : List UInt8} (h : r.Mentioned name tail) :
    (∃ f post, r.Ordinary name f ∧ tail = f.ows ++ (f.value ++ rest post)) ∨
      r.Elsewhere name tail := by
  cases h with
  | reason hafter => exact Or.inr (.reason hafter)
  | @name pre f post hfields hpre hends =>
    by_cases hspelled : f.name = name
    · by_cases hspaced : f.ows = []
      · rw [hspaced]
        exact Or.inr (.unspaced hfields hpre hspelled hspaced)
      · exact Or.inl ⟨f, post, ⟨hspelled, hspaced, pre, post, hfields, hpre⟩, rfl⟩
    · exact Or.inr (.longer hfields hpre hends hspelled)
  | value hfields hpre hends hafter => exact Or.inr (.value hfields hpre hends hafter)

theorem Elsewhere.mentioned {tail : List UInt8} (h : r.Elsewhere name tail) :
    r.Mentioned name tail := by
  cases h with
  | reason hafter => exact .reason hafter
  | longer hfields hpre hends _ => exact .name hfields hpre hends
  | @unspaced pre f post hfields hpre hspelled hows =>
    have hmention := Mentioned.name hfields hpre (hspelled ▸ List.suffix_rfl)
    rwa [hows] at hmention
  | value hfields hpre hends hafter => exact .value hfields hpre hends hafter

/-! ### Ordinary fields -/

theorem Ordinary.mem (h : r.Ordinary name f) : f ∈ r.fields := by
  obtain ⟨pre, post, hfields, -⟩ := h.first
  rw [hfields]
  exact List.mem_append_right pre List.mem_cons_self

theorem Ordinary.mentioned (h : r.Ordinary name f) :
    ∃ post, r.Mentioned name (f.ows ++ (f.value ++ rest post)) := by
  obtain ⟨pre, post, hfields, hpre⟩ := h.first
  exact ⟨post, .name hfields hpre (h.spelled ▸ List.suffix_rfl)⟩

/-- There is no second field of the name. -/
theorem Ordinary.find (h : r.Ordinary name f) (hone : (r.fields.filter (·.Named name)).length ≤ 1) :
    r.fields.find? (·.Named name) = some f := by
  have hnamed : f.Named name := by rw [HttpField.Named, h.spelled]
  have hmem : f ∈ r.fields.filter (·.Named name) :=
    List.mem_filter.mpr ⟨h.mem, decide_eq_true hnamed⟩
  rw [← List.head?_filter]
  cases hfilter : r.fields.filter (·.Named name) with
  | nil =>
    rw [hfilter] at hmem
    exact absurd hmem List.not_mem_nil
  | cons g others =>
    rw [hfilter] at hone hmem
    rw [List.length_cons] at hone
    have hnil : others = [] := List.eq_nil_of_length_eq_zero (by omega)
    rw [hnil, List.mem_singleton] at hmem
    rw [hmem]
    rfl

/-- The word at the name of an ordinary field ends with the colon, and its value is behind it. -/
theorem Ordinary.nextWord (h : r.Ordinary name f) (post : List HttpField) :
    NextWord (f.ows ++ (f.value ++ rest post)) (f.value ++ rest post) := by
  refine ⟨[], f.ows, rfl, fun c hc => absurd hc List.not_mem_nil, h.spaced, fun c hc => ?_⟩
  rcases f.ows_blank c hc with rfl | rfl <;> decide

/-- **An ordinary `Content-Length`** is read. -/
theorem Ordinary.length (h : r.Ordinary (ascii "Content-Length") f) :
    ∃ tail, r.Mentioned (ascii "Content-Length") tail ∧ NumberBehind tail r.length := by
  have hnamed : f.Named (ascii "Content-Length") := by rw [HttpField.Named, h.spelled]
  obtain ⟨hne, hdigits, -⟩ := r.length_value f h.mem hnamed
  obtain ⟨post, hmention⟩ := h.mentioned
  rw [HttpResponse.length, h.find r.one_length]
  refine ⟨_, hmention, f.value, rest post, h.nextWord post, .digits hne hdigits, fun c hc => ?_⟩
  obtain rfl := Option.some.inj hc
  decide

/-- The word at the front of an ordinary field is its value exactly if that is one word. -/
theorem Ordinary.wordBehind_iff (h : r.Ordinary name f) (post : List HttpField) :
    WordBehind (f.ows ++ (f.value ++ rest post)) f.value ↔ IsWord f.value := by
  constructor
  · rintro ⟨-, -, hword, -⟩
    exact hword
  · intro hword
    refine ⟨rest post, h.nextWord post, hword, fun c hc => ?_⟩
    obtain rfl := Option.some.inj hc
    decide

end HttpResponse

/-! ### The header of a response -/

theorem no_space {word : List UInt8} (h : word.all (!isspace ·) = true) :
    ∀ c ∈ word, isspace c = false := by
  simpa using h

theorem isWord_http : IsWord (ascii "HTTP/") := ⟨by decide, no_space (by decide)⟩

theorem isFieldName_type : IsFieldName (ascii "Content-Type") :=
  ⟨by decide, List.all_eq_true.mp (by decide)⟩

theorem isFieldName_length : IsFieldName (ascii "Content-Length") :=
  ⟨by decide, List.all_eq_true.mp (by decide)⟩

theorem isFieldName_location : IsFieldName (ascii "Location") :=
  ⟨by decide, List.all_eq_true.mp (by decide)⟩

theorem ascii_type : ascii "Content-Type:" = ascii "Content-Type" ++ [0x3A] := by decide

theorem ascii_length : ascii "Content-Length:" = ascii "Content-Length" ++ [0x3A] := by decide

theorem ascii_location : ascii "Location:" = ascii "Location" ++ [0x3A] := by decide

theorem char_ne_zero (c : UInt8) (h : isTokenChar c = true ∨ isTextChar c = true ∨
    isdigit c = true) : c ≠ 0 := by
  rintro rfl
  revert h
  decide

theorem HttpField.line_ne_zero (f : HttpField) : ∀ c ∈ f.line, c ≠ 0 := by
  intro c hc
  simp only [HttpField.line, List.mem_append, List.mem_cons, List.not_mem_nil, or_false] at hc
  rcases hc with hc | rfl | hc | hc | rfl | rfl
  · exact char_ne_zero c (Or.inl (f.name_token c hc))
  · decide
  · rcases f.ows_blank c hc with rfl | rfl <;> decide
  · exact char_ne_zero c (Or.inr (Or.inl (f.value_text c hc)))
  · decide
  · decide

namespace HttpResponse

theorem text_ne_zero (r : HttpResponse) : ∀ c ∈ r.text, c ≠ 0 := by
  have hhttp : ∀ c ∈ ascii "HTTP/1.1", c ≠ 0 := List.forall_mem_ne'.mpr (by decide)
  intro c hc
  simp only [text, List.mem_append, List.mem_cons, List.not_mem_nil, or_false] at hc
  rcases hc with hc | rfl | hc | rfl | ((hc | rfl | rfl) | hc) | rfl | rfl
  · exact hhttp c hc
  · decide
  · exact char_ne_zero c (Or.inr (Or.inr (r.status_digits.2 c hc)))
  · decide
  · exact char_ne_zero c (Or.inr (Or.inl (r.reason_text c hc)))
  · decide
  · decide
  · obtain ⟨f, -, hf⟩ := List.mem_flatMap.mp hc
    exact f.line_ne_zero c hf
  · decide
  · decide

/-- The status code is always read: the block starts with it. -/
theorem fieldInt_status (r : HttpResponse) :
    fieldInt (ascii "HTTP/") r.text = some (r.code : ℤ) := by
  obtain ⟨hlen, hdigits⟩ := r.status_digits
  have hne : r.status ≠ [] := by
    intro hnil
    rw [hnil] at hlen
    exact absurd hlen (by decide)
  obtain ⟨more, hmore⟩ : ∃ more, 0x20 :: (r.reason ++ rest r.fields) = more := ⟨_, rfl⟩
  have hbehind : Behind (ascii "HTTP/") r.text (ascii "1.1" ++ 0x20 :: (r.status ++ more)) := by
    have hhttp : ascii "HTTP/1.1" = ascii "HTTP/" ++ ascii "1.1" := by decide
    have htext : ascii "HTTP/" ++ (ascii "1.1" ++ 0x20 :: (r.status ++ more)) = r.text := by
      rw [text_reason, start, hhttp, ← hmore]
      simp
    exact (firstAt_start ⟨_, htext⟩).mpr htext
  -- the version ends at the blank, and the status starts behind it
  have hnext : NextWord (ascii "1.1" ++ 0x20 :: (r.status ++ more)) (r.status ++ more) :=
    ⟨ascii "1.1", [0x20], rfl, no_space (by decide), List.cons_ne_nil _ _,
      List.forall_mem_singleton.mpr rfl⟩
  refine (fieldInt_eq_some isWord_http _).mpr
    ⟨_, hbehind, r.status, more, hnext, .digits hne hdigits, fun c hc => ?_⟩
  rw [← hmore] at hc
  obtain rfl := Option.some.inj hc
  decide

/-- The length is read from an ordinary field, or happens to stand behind another mention. -/
theorem mentioned_length_iff (r : HttpResponse) :
    (∃ tail, r.Mentioned (ascii "Content-Length") tail ∧ NumberBehind tail r.length) ↔
      (∃ f, r.Ordinary (ascii "Content-Length") f) ∨
        ∃ tail, r.Elsewhere (ascii "Content-Length") tail ∧ NumberBehind tail r.length := by
  constructor
  · rintro ⟨tail, hmention, hnum⟩
    rcases hmention.cases with ⟨f, post, hord, -⟩ | helse
    · exact Or.inl ⟨f, hord⟩
    · exact Or.inr ⟨tail, helse, hnum⟩
  · rintro (⟨f, hord⟩ | ⟨tail, helse, hnum⟩)
    · exact hord.length
    · exact ⟨tail, helse.mentioned, hnum⟩

/-- The location is read from an ordinary field of one word, or happens to stand behind another
mention. -/
theorem mentioned_location_iff (r : HttpResponse) :
    (∃ tail, r.Mentioned (ascii "Location") tail ∧ WordBehind tail r.location ∧
        r.location.length < 1024) ↔
      (∃ f, r.Ordinary (ascii "Location") f ∧ IsWord f.value ∧ f.value.length < 1024) ∨
        ∃ tail, r.Elsewhere (ascii "Location") tail ∧ WordBehind tail r.location ∧
          r.location.length < 1024 := by
  have hvalue {f : HttpField} (hord : r.Ordinary (ascii "Location") f) : r.location = f.value := by
    rw [HttpResponse.location, hord.find r.one_location]
    rfl
  constructor
  · rintro ⟨tail, hmention, hword, hlen⟩
    rcases hmention.cases with ⟨f, post, hord, rfl⟩ | helse
    · rw [hvalue hord] at hword hlen
      exact Or.inl ⟨f, hord, (hord.wordBehind_iff post).mp hword, hlen⟩
    · exact Or.inr ⟨tail, helse, hword, hlen⟩
  · rintro (⟨f, hord, hword, hlen⟩ | ⟨tail, helse, hrest⟩)
    · obtain ⟨post, hmention⟩ := hord.mentioned
      rw [hvalue hord]
      exact ⟨_, hmention, (hord.wordBehind_iff post).mpr hword, hlen⟩
    · exact ⟨tail, helse.mentioned, hrest⟩

end HttpResponse

/-- The two arrays are written, and the number is read, independently of each other. -/
theorem readAs_parseHeader (resp : HttpResHeader) (r : HttpResponse) :
    r.ReadAs (parseHeader resp r.text) ↔
      (∃ a, storeWord resp.contentType (fieldWord (ascii "Content-Type:") r.text) = some a) ∧
      (fieldInt (ascii "Content-Length:") r.text).getD resp.contentLength = r.length ∧
      ∃ b, storeWord resp.location (fieldWord (ascii "Location:") r.text) = some b ∧
        b.str = r.location := by
  have hcode : (fieldInt (ascii "HTTP/") r.text).getD resp.statusCode = r.code := by
    rw [r.fieldInt_status]
    rfl
  unfold parseHeader HttpResponse.ReadAs
  cases storeWord resp.contentType (fieldWord (ascii "Content-Type:") r.text) with
  | none => simp
  | some a =>
    cases storeWord resp.location (fieldWord (ascii "Location:") r.text) with
    | none => simp
    | some b =>
      constructor
      · rintro ⟨parsed, hparsed, -, hlength, hlocation⟩
        obtain rfl := Option.some.inj hparsed
        exact ⟨⟨a, rfl⟩, hlength, b, rfl, hlocation⟩
      · rintro ⟨-, hlength, b', hb', hlocation⟩
        obtain rfl := Option.some.inj hb'
        exact ⟨_, rfl, hcode, hlength, hlocation⟩

/-- **`parse_header`** returns the status code, the length and the location of a header exactly if
the fields are spelled and spaced as it expects them and nothing in front mentions their names, but
for what it happens to find elsewhere or in `resp`. -/
theorem parseHeader_iff (resp : HttpResHeader) (r : HttpResponse) :
    r.ReadAs (parseHeader resp r.text) ↔ r.Readable resp := by
  rw [readAs_parseHeader, ascii_type, ascii_length, ascii_location,
    exists_storeWord _ isFieldName_type.isWord,
    getD_fieldInt isFieldName_length.isWord,
    exists_storeWord_str _ isFieldName_location.isWord r.text_ne_zero]
  simp only [HttpResponse.mentioned_iff isFieldName_type,
    HttpResponse.mentioned_iff isFieldName_length, HttpResponse.mentioned_iff isFieldName_location]
  rw [r.mentioned_length_iff, r.mentioned_location_iff, or_assoc, or_assoc]
  exact ⟨fun ⟨htype, hlength, hlocation⟩ => ⟨htype, hlength, hlocation⟩,
    fun h => ⟨h.type, h.length, h.location⟩⟩

/-- An `HTTP_RES_HEADER` of zeros. -/
def HttpResHeader.clean : HttpResHeader where
  statusCode := 0
  contentType := ⟨List.replicate 128 0, List.length_replicate⟩
  contentLength := 0
  location := ⟨List.replicate 1024 0, List.length_replicate⟩

/-- A response with a length and a location. -/
def plainResponse : HttpResponse where
  status := ascii "201"
  reason := ascii "Created"
  fields :=
    [⟨ascii "Content-Type", ascii " ", ascii "text/html", by decide, by decide +kernel,
        by decide +kernel, by decide +kernel, by decide +kernel⟩,
      ⟨ascii "Content-Length", ascii " ", ascii "17", by decide, by decide +kernel,
        by decide +kernel, by decide +kernel, by decide +kernel⟩,
      ⟨ascii "Location", ascii " ", ascii "/b", by decide, by decide +kernel,
        by decide +kernel, by decide +kernel, by decide +kernel⟩]
  status_digits := by decide +kernel
  reason_text := by decide +kernel
  one_length := by decide
  length_value := by decide +kernel
  one_location := by decide

theorem parseHeader_plain :
    plainResponse.ReadAs (parseHeader .clean plainResponse.text) ∧ plainResponse.length = 17 ∧
      plainResponse.location = ascii "/b" := by
  have hread : fieldWord (ascii "Content-Type:") plainResponse.text = some (ascii "text/html") := by
    decide
  have htype : ∀ tail word, plainResponse.Mentioned (ascii "Content-Type") tail →
      WordBehind tail word → word.length < 128 := by
    intro tail word htail hword
    have hplace := (HttpResponse.mentioned_iff isFieldName_type).mpr htail
    have hfield := (fieldWord_eq_some isFieldName_type.isWord word).mpr ⟨tail, hplace, hword⟩
    rw [← ascii_type, hread] at hfield
    obtain rfl := Option.some.inj hfield
    decide
  have hlength : ∃ f, plainResponse.Ordinary (ascii "Content-Length") f :=
    ⟨_, ⟨rfl, by decide, [_], [_], rfl, by decide⟩⟩
  have hlocation : plainResponse.Ordinary (ascii "Location")
      ⟨ascii "Location", ascii " ", ascii "/b", by decide, by decide +kernel,
        by decide +kernel, by decide +kernel, by decide +kernel⟩ :=
    ⟨rfl, by decide, [_, _], [], rfl, by decide⟩
  refine ⟨(parseHeader_iff .clean plainResponse).mpr
    ⟨htype, Or.inl hlength, Or.inl ⟨_, hlocation, ⟨by decide, no_space (by decide)⟩, by decide⟩⟩,
    by decide, by decide⟩

/-- A response that moves the client on, with a field in front whose name ends in `Location`. -/
def movedResponse : HttpResponse where
  status := ascii "302"
  reason := ascii "Found"
  fields :=
    [⟨ascii "Content-Location", ascii " ", ascii "/a", by decide, by decide +kernel,
        by decide +kernel, by decide +kernel, by decide +kernel⟩,
      ⟨ascii "Location", ascii " ", ascii "/b", by decide, by decide +kernel,
        by decide +kernel, by decide +kernel, by decide +kernel⟩]
  status_digits := by decide +kernel
  reason_text := by decide +kernel
  one_length := by decide
  length_value := by decide +kernel
  one_location := by decide

/-- The value of `Content-Location` is returned for the one of `Location`. -/
theorem parseHeader_not_always :
    ¬∀ (resp : HttpResHeader) (r : HttpResponse), r.ReadAs (parseHeader resp r.text) := by
  intro h
  have hread : fieldWord (ascii "Location:") movedResponse.text = some (ascii "/a") := by
    decide
  have hvalue : movedResponse.location = ascii "/b" := by decide
  obtain ⟨-, -, b, hb, hstr⟩ := (readAs_parseHeader .clean movedResponse).mp (h _ _)
  rw [hread] at hb
  rw [str_store (by decide +kernel) hb, hvalue] at hstr
  exact absurd hstr (by decide)

end AudioPipeline
