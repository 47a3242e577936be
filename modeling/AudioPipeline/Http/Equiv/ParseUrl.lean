import AudioPipeline.Http.Equiv.Fields
import AudioPipeline.Http.ParseUrl
import Mathlib.Data.Nat.Digits.Lemmas

/-!
## The buffers of `parse_url`

The loops write an array from the front, so that what they have written is a prefix of it. The
loop over the file name starts again at each `/` but a last one.

* `connect_bounded_iff`: nothing is written past the end of a buffer exactly if the host, each
  segment of the URL and the request fit theirs (`UrlFits`).
* `parse_url_build`: from a URL that was built of a host, a port and segments, `parse_url` gets the
  host, the port and the last segment.
-/

namespace AudioPipeline

namespace CharArray

variable {n : ℕ} {a : CharArray n} {str : List UInt8}

theorem set_eq_none {j : ℕ} (h : n ≤ j) (c : UInt8) : a.set j c = none := if_neg (by omega)

/-- One character behind what was written. -/
theorem set_next (hfront : str <+: a.1) (hlen : str.length < n) (c : UInt8) :
    ∃ a', a.set str.length c = some a' ∧ str ++ [c] <+: a'.1 := by
  obtain ⟨rest, hrest⟩ := hfront
  have hsize := a.2
  rw [← hrest, List.length_append] at hsize
  obtain ⟨d, rest, rfl⟩ : ∃ d ds, rest = d :: ds := by
    refine List.exists_cons_of_ne_nil ?_
    rintro rfl
    rw [List.length_nil] at hsize
    omega
  refine ⟨⟨a.1.set str.length c, by rw [List.length_set, a.2]⟩, if_pos hlen, ⟨rest, ?_⟩⟩
  show str ++ [c] ++ rest = a.1.set str.length c
  rw [← hrest, List.set_append_right _ _ le_rfl, Nat.sub_self, List.append_assoc]
  rfl

/-- The string behind a terminator that was written. -/
theorem str_eq (htext : ∀ c ∈ str, c ≠ 0) (hfront : str ++ [0] <+: a.1) : a.str = str := by
  obtain ⟨rest, hrest⟩ := hfront
  rw [CharArray.str, ← hrest, List.append_assoc,
    List.takeWhile_append_of_pos fun c hc => decide_eq_true (htext c hc)]
  simp

end CharArray

/-! ### The host -/

section

variable {word tail : List UInt8}

/-- **The loop over the host**, behind what was written; by induction on the host. -/
theorem copyHost_word (hword : (0x2F : UInt8) ∉ word) (htail : ∀ c ∈ tail.head?, c = 0x2F) :
    ∀ {front : List UInt8} {host : CharArray 100}, front <+: host.1 →
      (front.length + word.length < 100 →
        ∃ host', copyHost (word ++ tail) front.length host = some host' ∧
          front ++ word ++ [0] <+: host'.1) ∧
      (100 ≤ front.length + word.length →
        copyHost (word ++ tail) front.length host = none) := by
  induction word with
  | nil =>
    intro front host hfront
    have hend : copyHost tail front.length host = host.set front.length 0 := by
      cases tail with
      | nil => rfl
      | cons c tail => rw [copyHost, if_pos (htail c rfl)]
    rw [List.nil_append, List.append_nil, hend]
    constructor
    · intro hlen
      exact CharArray.set_next hfront hlen 0
    · intro hlen
      exact CharArray.set_eq_none hlen 0
  | cons c word ih =>
    intro front host hfront
    rw [List.mem_cons, not_or] at hword
    rw [List.cons_append, copyHost, if_neg (Ne.symm hword.1), List.length_cons]
    by_cases hroom : front.length < 100
    · obtain ⟨host', hset, hfront'⟩ := CharArray.set_next hfront hroom c
      have hrest := ih hword.2 hfront'
      rw [List.length_append, List.length_singleton, List.append_assoc front] at hrest
      rw [hset]
      constructor
      · intro hlen
        exact hrest.1 (by omega)
      · intro hlen
        exact hrest.2 (by omega)
    · rw [CharArray.set_eq_none (by omega)]
      exact ⟨fun hlen => by omega, fun _ => rfl⟩

/-- The string that is cut at its first `:`. -/
theorem cutPort_terminated (hword : ∀ c ∈ word, c ≠ 0) :
    word.takeWhile (· ≠ 0x3A) ++ [0] <+: cutPort (word ++ 0 :: tail) := by
  induction word with
  | nil =>
    rw [List.nil_append, cutPort, if_pos rfl]
    exact ⟨tail, rfl⟩
  | cons c word ih =>
    rw [List.forall_mem_cons] at hword
    rw [List.cons_append, cutPort, if_neg hword.1]
    by_cases hc : c = 0x3A
    · subst hc
      rw [if_pos rfl]
      exact ⟨word ++ 0 :: tail, by simp⟩
    · rw [if_neg hc, List.takeWhile_cons, if_pos (decide_eq_true hc), List.cons_append,
        List.cons_prefix_cons]
      exact ⟨rfl, ih hword.2⟩

end

/-! ### The file name -/

/-- The text without a `/` at its end. -/
def trimSlash (text : List UInt8) : List UInt8 :=
  if text.getLast? = some 0x2F then text.dropLast else text

/-- The segments of the text fit the array: each has 256 characters at most, and the last one
leaves room for a terminator. A segment is a longest piece without `/`; a `/` at the end of the
text ends no segment. -/
structure SegmentsFit (text : List UInt8) : Prop where
  each : ∀ w, w <:+: trimSlash text → (0x2F : UInt8) ∉ w → w.length ≤ 256
  last : ∀ w, w <:+ trimSlash text → (0x2F : UInt8) ∉ w → w.length < 256

section

variable {front text : List UInt8}

theorem trimSlash_append (htext : text ≠ []) :
    trimSlash (front ++ text) = front ++ trimSlash text := by
  rw [trimSlash, trimSlash, List.getLast?_append_of_ne_nil _ htext]
  split_ifs
  · rw [List.dropLast_append_of_ne_nil htext]
  · rfl

/-- A piece without `/` stands on one side of it. -/
theorem infix_slash {w : List UInt8} (h : w <:+: front ++ 0x2F :: text) (hw : (0x2F : UInt8) ∉ w) :
    w <:+: front ∨ w <:+: text := by
  obtain ⟨s, t, heq⟩ := h
  rw [List.append_assoc, List.append_eq_append_iff] at heq
  rcases heq with ⟨front', rfl, hback⟩ | ⟨back, rfl, hback⟩
  · -- it starts in front
    rw [List.append_eq_append_iff] at hback
    rcases hback with ⟨rest, rfl, -⟩ | ⟨rest, rfl, hrest⟩
    · exact Or.inl ⟨s, rest, by rw [List.append_assoc]⟩
    · cases rest with
      | nil =>
        rw [List.append_nil]
        exact Or.inl ⟨s, [], List.append_nil _⟩
      | cons c rest =>
        obtain rfl := (List.cons.inj hrest).1
        exact absurd (List.mem_append_right _ List.mem_cons_self) hw
  · cases back with
    | nil =>
      -- it starts at the slash
      cases w with
      | nil => exact Or.inr List.nil_infix
      | cons c w =>
        obtain rfl := (List.cons.inj hback).1
        exact absurd List.mem_cons_self hw
    | cons c back =>
      have hrest := (List.cons.inj hback).2
      exact Or.inr ⟨back, t, (List.append_assoc back w t).trans hrest.symm⟩

/-- A piece without `/` at the end stands behind it. -/
theorem suffix_slash {w : List UInt8} (h : w <:+ front ++ 0x2F :: text) (hw : (0x2F : UInt8) ∉ w) :
    w <:+ text := by
  have htext : text <:+ front ++ 0x2F :: text :=
    (List.suffix_cons 0x2F text).trans (List.suffix_append front _)
  rcases le_or_gt w.length text.length with hle | hlt
  · exact List.suffix_of_suffix_length_le h htext hle
  · have hslash : 0x2F :: text <:+ w :=
      List.suffix_of_suffix_length_le (List.suffix_append front _) h hlt
    exact absurd (hslash.subset List.mem_cons_self) hw

/-- At the end of the text its last segment is all that is left. -/
theorem segmentsFit_end (hfront : (0x2F : UInt8) ∉ front) (hlen : front.length ≤ 256)
    (htrim : trimSlash text = front) : SegmentsFit text ↔ front.length < 256 := by
  constructor
  · intro h
    exact h.last front (by rw [htrim]) hfront
  · intro h
    constructor
    · intro w hw _
      rw [htrim] at hw
      have := hw.length_le
      omega
    · intro w hw _
      rw [htrim] at hw
      have := hw.length_le
      omega

/-- A `/` in the text ends a segment. -/
theorem segmentsFit_slash (hlen : front.length ≤ 256) (htext : text ≠ []) :
    SegmentsFit (front ++ 0x2F :: text) ↔ SegmentsFit text := by
  have htrim : trimSlash (front ++ 0x2F :: text) = front ++ 0x2F :: trimSlash text := by
    rw [List.append_cons, trimSlash_append htext, ← List.append_cons]
  constructor
  · intro h
    constructor
    · intro w hw hslash
      refine h.each w ?_ hslash
      rw [htrim]
      exact hw.trans ((List.suffix_cons _ _).trans (List.suffix_append front _)).isInfix
    · intro w hw hslash
      refine h.last w ?_ hslash
      rw [htrim]
      exact hw.trans ((List.suffix_cons _ _).trans (List.suffix_append front _))
  · intro h
    constructor
    · intro w hw hslash
      rw [htrim] at hw
      rcases infix_slash hw hslash with hw | hw
      · have := hw.length_le
        omega
      · exact h.each w hw hslash
    · intro w hw hslash
      rw [htrim] at hw
      exact h.last w (suffix_slash hw hslash) hslash

/-- **The loop over the file name**, behind the part of a segment that was written; by induction
on the rest of the text. -/
theorem copyFileName_isSome (text : List UInt8) :
    ∀ (front : List UInt8) {fileName : CharArray 256}, (0x2F : UInt8) ∉ front →
      front.length ≤ 256 → front <+: fileName.1 →
      ((copyFileName text front.length fileName).isSome ↔ SegmentsFit (front ++ text)) := by
  induction text with
  | nil =>
    intro front fileName hslash hlen hfront
    -- the end of the URL: the terminator goes behind the last segment
    have htrim : trimSlash (front ++ []) = front := by
      rw [List.append_nil, trimSlash, if_neg]
      intro hlast
      exact hslash (List.mem_of_getLast? hlast)
    rw [segmentsFit_end hslash hlen htrim, copyFileName]
    constructor
    · intro h
      by_contra hroom
      rw [CharArray.set_eq_none (by omega)] at h
      exact Bool.false_ne_true h
    · intro hroom
      obtain ⟨fileName', hset, -⟩ := CharArray.set_next hfront hroom 0
      rw [hset]
      rfl
  | cons c text ih =>
    intro front fileName hslash hlen hfront
    rw [copyFileName]
    by_cases hc : c = 0x2F
    · subst hc
      rw [if_pos rfl]
      rcases eq_or_ne text [] with rfl | htext
      · -- the last character of the URL: the segment goes on
        have htrim : trimSlash (front ++ [0x2F]) = front := by
          rw [trimSlash, if_pos List.getLast?_concat, List.dropLast_concat]
        have htrim' : trimSlash (front ++ []) = front := by
          rw [List.append_nil, trimSlash, if_neg]
          intro hlast
          exact hslash (List.mem_of_getLast? hlast)
        rw [if_pos rfl, ih front hslash hlen hfront, segmentsFit_end hslash hlen htrim,
          segmentsFit_end hslash hlen htrim']
      · -- a new segment starts behind the slash, at the front of the array
        rw [if_neg htext, segmentsFit_slash hlen htext]
        exact ih [] List.not_mem_nil (Nat.zero_le 256) List.nil_prefix
    · rw [if_neg hc]
      have hslash' : (0x2F : UInt8) ∉ front ++ [c] := by
        rw [List.mem_append, List.mem_singleton, not_or]
        exact ⟨hslash, Ne.symm hc⟩
      have hlength : (front ++ [c]).length = front.length + 1 := by simp
      -- another character of the segment
      by_cases hroom : front.length < 256
      · obtain ⟨fileName', hset, hfront'⟩ := CharArray.set_next hfront hroom c
        have hrest := ih (front ++ [c]) hslash' (by omega) hfront'
        rw [hlength, List.append_assoc] at hrest
        rw [hset]
        exact hrest
      · -- the segment is too long
        rw [CharArray.set_eq_none (by omega)]
        refine iff_of_false Bool.false_ne_true fun h => ?_
        have hpiece : front ++ [c] <:+: trimSlash (front ++ c :: text) := by
          rcases eq_or_ne text [] with rfl | htext
          · rw [trimSlash, List.getLast?_concat, if_neg fun hlast => hc (Option.some.inj hlast)]
          · rw [List.append_cons front c text, trimSlash_append htext]
            exact (List.prefix_append _ _).isInfix
        have := h.each _ hpiece hslash'
        omega

end

/-! ### The request -/

/-- The host with its port: the text in front of the first `/`. -/
def hostPart (text : List UInt8) : List UInt8 := text.takeWhile (· ≠ 0x2F)

/-- The host without its port. -/
def hostName (text : List UInt8) : List UInt8 := (hostPart text).takeWhile (· ≠ 0x3A)

/-- The URL behind `http://` or `https://`. -/
def urlRest (url : List UInt8) : List UInt8 := url.drop (urlStart url)

/-- The URL fits the buffers of the client: `host` takes the host with its port, `file_name` each
segment, and the block of the request the URL and the host beside 243 characters of its own. -/
structure UrlFits (url : List UInt8) : Prop where
  host : (hostPart (urlRest url)).length < 100
  fileName : SegmentsFit (urlRest url)
  request : 243 + url.length + (hostName (urlRest url)).length < 2048

theorem length_requestText (url host : List UInt8) :
    (requestText url host).length = 243 + url.length + host.length := by
  have hempty : (requestText [] []).length = 243 := by decide +kernel
  simp only [requestText, List.length_append, List.length_nil] at hempty ⊢
  omega

section

variable {url : List UInt8} {host : CharArray 100} {fileName : CharArray 256}

/-- The host that is copied, and cut at its port. -/
theorem copyHost_text (text : List UInt8) (host : CharArray 100) :
    ((hostPart text).length < 100 →
      ∃ host', copyHost text 0 host = some host' ∧ hostPart text ++ [0] <+: host'.1) ∧
    (100 ≤ (hostPart text).length → copyHost text 0 host = none) := by
  have hword : (0x2F : UInt8) ∉ hostPart text := by
    intro hmem
    simpa using List.mem_takeWhile_imp hmem
  have htail : ∀ c ∈ (text.dropWhile (· ≠ 0x2F)).head?, c = 0x2F := by
    intro c hc
    simpa using head_dropWhile (· ≠ 0x2F) text c hc
  have hcopy := copyHost_word hword htail (List.nil_prefix (l := host.1))
  rw [hostPart, List.takeWhile_append_dropWhile, List.length_nil, Nat.zero_add,
    List.nil_append] at hcopy
  exact hcopy

theorem copyFileName_text (text : List UInt8) (fileName : CharArray 256) :
    (copyFileName text 0 fileName).isSome ↔ SegmentsFit text :=
  copyFileName_isSome text [] List.not_mem_nil (Nat.zero_le 256) List.nil_prefix

theorem parseUrl_eq (url : List UInt8) (host : CharArray 100) (fileName : CharArray 256) :
    parseUrl url host fileName =
      (copyHost (urlRest url) 0 host).bind fun host =>
        (copyFileName (urlRest url) 0 fileName).map fun fileName =>
          ⟨host.cutPort, (scanPort host.str).getD 80, fileName⟩ := rfl

/-- **`parse_url`** of a URL whose host and file name fit. -/
theorem parseUrl_eq_some (host : CharArray 100) {fileName' : CharArray 256}
    (hurl : ∀ c ∈ url, c ≠ 0) (hhost : (hostPart (urlRest url)).length < 100)
    (hname : copyFileName (urlRest url) 0 fileName = some fileName') :
    ∃ parsed, parseUrl url host fileName = some parsed ∧
      hostName (urlRest url) ++ [0] <+: parsed.host.1 ∧
      parsed.port = (scanPort (hostPart (urlRest url))).getD 80 ∧ parsed.fileName = fileName' := by
  obtain ⟨host', hcopy, hfront⟩ := (copyHost_text (urlRest url) host).1 hhost
  have htext : ∀ c ∈ hostPart (urlRest url), c ≠ 0 := by
    intro c hc
    exact hurl c (List.mem_of_mem_drop ((List.takeWhile_prefix _).subset hc))
  have hstr := CharArray.str_eq htext hfront
  refine ⟨⟨host'.cutPort, (scanPort host'.str).getD 80, fileName'⟩, ?_, ?_, ?_, rfl⟩
  · rw [parseUrl_eq, hcopy, Option.bind_some, hname]
    rfl
  · obtain ⟨rest, hrest⟩ := hfront
    rw [List.append_assoc] at hrest
    show hostName (urlRest url) ++ [0] <+: cutPort host'.1
    rw [← hrest]
    exact cutPort_terminated htext
  · show (scanPort host'.str).getD 80 = _
    rw [hstr]

/-- Otherwise it writes past the end of an array. -/
theorem fits_of_parseUrl {parsed : ParsedUrl} (h : parseUrl url host fileName = some parsed) :
    (hostPart (urlRest url)).length < 100 ∧
      ∃ fileName', copyFileName (urlRest url) 0 fileName = some fileName' := by
  rw [parseUrl_eq, Option.bind_eq_some_iff] at h
  obtain ⟨host', hcopy, hrest⟩ := h
  obtain ⟨fileName', hname, -⟩ := Option.map_eq_some_iff.mp hrest
  constructor
  · by_contra hlong
    rw [(copyHost_text (urlRest url) host).2 (by omega)] at hcopy
    exact Option.some_ne_none host' hcopy.symm
  · exact ⟨fileName', hname⟩

end

/-- **No buffer is overrun** in `esp_http_client_connect` exactly if the URL fits them. -/
theorem connect_bounded_iff {url : List UInt8} (host : CharArray 100) (fileName : CharArray 256)
    (headBuffer : CharArray 2048) (hurl : ∀ c ∈ url, c ≠ 0) :
    (espHttpClientConnect url host fileName headBuffer).isSome ↔ UrlFits url := by
  have hname : ∀ c ∈ hostName (urlRest url), c ≠ 0 := by
    intro c hc
    have hpart : c ∈ hostPart (urlRest url) := (List.takeWhile_prefix _).subset hc
    exact hurl c (List.mem_of_mem_drop ((List.takeWhile_prefix _).subset hpart))
  rw [Option.isSome_iff_exists]
  constructor
  · rintro ⟨result, hresult⟩
    obtain ⟨parsed, hparsed, hstore⟩ := Option.bind_eq_some_iff.mp hresult
    obtain ⟨hhost, fileName', hcopy⟩ := fits_of_parseUrl hparsed
    have hfile : SegmentsFit (urlRest url) := by
      rw [← copyFileName_text (urlRest url) fileName, hcopy]
      rfl
    obtain ⟨parsed', hparsed', hfront, -⟩ := parseUrl_eq_some host hurl hhost hcopy
    obtain rfl : parsed = parsed' := Option.some.inj (hparsed.symm.trans hparsed')
    obtain ⟨head', hhead, -⟩ := Option.map_eq_some_iff.mp hstore
    rw [CharArray.str_eq hname hfront] at hhead
    refine ⟨hhost, hfile, ?_⟩
    by_contra hlong
    rw [CharArray.store, dif_neg (by rw [length_requestText]; exact hlong)] at hhead
    exact Option.some_ne_none head' hhead.symm
  · intro hfits
    have hsome := (copyFileName_text (urlRest url) fileName).mpr hfits.fileName
    obtain ⟨fileName', hcopy⟩ := Option.isSome_iff_exists.mp hsome
    obtain ⟨parsed, hparsed, hfront, -⟩ := parseUrl_eq_some host hurl hfits.host hcopy
    have hstr := CharArray.str_eq hname hfront
    have hroom : (requestText url parsed.host.str).length < 2048 := by
      rw [length_requestText, hstr]
      exact hfits.request
    rw [espHttpClientConnect, hparsed, Option.bind_some, CharArray.store, dif_pos hroom]
    exact ⟨_, rfl⟩

/-- A short URL. -/
theorem connect_bounded_short :
    (∀ c ∈ ascii "http://a/b", c ≠ 0) ∧
      (espHttpClientConnect (ascii "http://a/b") ⟨List.replicate 100 0, List.length_replicate⟩
        ⟨List.replicate 256 0, List.length_replicate⟩
        ⟨List.replicate 2048 0, List.length_replicate⟩).isSome := by
  have hurl : ∀ c ∈ ascii "http://a/b", c ≠ 0 := by decide +kernel
  have htext : (trimSlash (urlRest (ascii "http://a/b"))).length = 3 := by decide
  refine ⟨hurl,
    (connect_bounded_iff _ _ _ hurl).mpr ⟨by decide, ⟨?_, ?_⟩, by decide⟩⟩
  · intro w hw _
    have := hw.length_le
    omega
  · intro w hw _
    have := hw.length_le
    omega

/-- A host of 100 characters: its terminator is written behind the array. -/
theorem connect_not_bounded :
    ¬∀ (url : List UInt8) (host : CharArray 100) (fileName : CharArray 256)
      (headBuffer : CharArray 2048), (∀ c ∈ url, c ≠ 0) →
      (espHttpClientConnect url host fileName headBuffer).isSome := by
  intro h
  have hsome := h (List.replicate 100 0x61) ⟨List.replicate 100 0, List.length_replicate⟩
    ⟨List.replicate 256 0, List.length_replicate⟩ ⟨List.replicate 2048 0, List.length_replicate⟩
    (by simp)
  obtain ⟨result, hresult⟩ := Option.isSome_iff_exists.mp hsome
  obtain ⟨parsed, hparsed, -⟩ := Option.bind_eq_some_iff.mp hresult
  exact absurd (fits_of_parseUrl hparsed).1 (by decide)

/-! ### Building a URL -/

/-- A number in decimal digits. -/
def decimalText (n : ℕ) : List UInt8 :=
  (Nat.digits 10 n).reverse.map fun d => UInt8.ofNat (0x30 + d)

/-- A URL in its parts: a host, perhaps a port, and segments of which the last one is not empty. -/
structure UrlParts where
  host : List UInt8
  port : Option ℕ
  segments : List (List UInt8)
  fileName : List UInt8
  host_ne : host ≠ []
  host_text : ∀ c ∈ host, c ≠ 0x2F ∧ c ≠ 0x3A ∧ c ≠ 0
  host_length : host.length < 90
  port_range : ∀ n ∈ port, 1 ≤ n ∧ n ≤ 65535
  segment_text : ∀ s ∈ segments, ∀ c ∈ s, c ≠ 0x2F ∧ c ≠ 0
  segment_length : ∀ s ∈ segments, s.length < 256
  last : segments.getLast? = some fileName
  last_ne : fileName ≠ []

namespace UrlParts

/-- `:` and the port. -/
def portText (u : UrlParts) : List UInt8 :=
  match u.port with
  | none => []
  | some n => 0x3A :: decimalText n

/-- The URL. -/
def text (u : UrlParts) : List UInt8 :=
  ascii "http://" ++ (u.host ++ u.portText) ++ u.segments.flatMap fun s => 0x2F :: s

end UrlParts

theorem digit_char {d : ℕ} (hd : d < 10) :
    isdigit (UInt8.ofNat (0x30 + d)) = true ∧ (UInt8.ofNat (0x30 + d)).toNat - 0x30 = d := by
  interval_cases d <;> decide

theorem decimalText_digits (n : ℕ) : ∀ c ∈ decimalText n, isdigit c = true := by
  intro c hc
  obtain ⟨d, hd, rfl⟩ := List.mem_map.mp hc
  exact (digit_char (Nat.digits_lt_base (by decide) (List.mem_reverse.mp hd))).1

/-- The digits stand for the number. -/
theorem decimal_decimalText (n : ℕ) : decimal (decimalText n) = n := by
  have hfold : ∀ ds : List ℕ, (∀ d ∈ ds, d < 10) →
      ds.foldr (fun d m => 10 * m + ((UInt8.ofNat (0x30 + d)).toNat - 0x30)) 0 =
        Nat.ofDigits 10 ds := by
    intro ds hds
    induction ds with
    | nil => rfl
    | cons d ds ih =>
      rw [List.forall_mem_cons] at hds
      rw [List.foldr_cons, ih hds.2, (digit_char hds.1).2, Nat.ofDigits_cons, Nat.add_comm]
  rw [decimal, decimalText, List.foldl_map, List.foldl_reverse,
    hfold _ fun d hd => Nat.digits_lt_base (by decide) hd, Nat.ofDigits_digits]

/-! ### The port -/

/-- The first `:` stands behind the host. -/
theorem strstr_colon {word tail : List UInt8} (hword : ∀ c ∈ word, c ≠ 0x3A) :
    strstr (ascii ":") (word ++ 0x3A :: tail) = some (0x3A :: tail) := by
  have hname : ascii ":" = [0x3A] := by decide
  rw [hname]
  induction word with
  | nil =>
    rw [List.nil_append, strstr, if_pos (by simp)]
  | cons c word ih =>
    rw [List.forall_mem_cons] at hword
    rw [List.cons_append, strstr, if_neg (by simpa using hword.1.symm), ih hword.2]

/-- There is no port. -/
theorem strstr_colon_none {word : List UInt8} (hword : ∀ c ∈ word, c ≠ 0x3A) :
    strstr (ascii ":") word = none := by
  have hname : ascii ":" = [0x3A] := by decide
  rw [hname]
  induction word with
  | nil => rfl
  | cons c word ih =>
    rw [List.forall_mem_cons] at hword
    rw [strstr, if_neg (by simpa using hword.1.symm), ih hword.2]

/-- A digit is no `/`, no `:` and no terminator. -/
theorem digit_text (c : UInt8) : isdigit c = true → c ≠ 0x2F ∧ c ≠ 0x3A ∧ c ≠ 0 := by
  refine forall_byte (p := fun c => isdigit c = true → c ≠ 0x2F ∧ c ≠ 0x3A ∧ c ≠ 0) ?_ c
  decide +kernel

namespace UrlParts

variable (u : UrlParts)

theorem length_portText : u.portText.length ≤ 6 := by
  rw [portText]
  cases hport : u.port with
  | none => exact Nat.zero_le 6
  | some n =>
    have hrange := u.port_range n hport
    have hlen : (Nat.digits 10 n).length ≤ 5 :=
      (Nat.digits_length_le_iff (by decide) n).mpr (by omega)
    show (0x3A :: decimalText n).length ≤ 6
    rw [List.length_cons, decimalText, List.length_map, List.length_reverse]
    omega

theorem portText_text : ∀ c ∈ u.portText, c ≠ 0x2F ∧ c ≠ 0 := by
  intro c hc
  rw [portText] at hc
  cases hport : u.port with
  | none =>
    rw [hport] at hc
    exact absurd hc List.not_mem_nil
  | some n =>
    rw [hport] at hc
    rcases List.mem_cons.mp hc with rfl | hc
    · decide
    · have h := digit_text c (decimalText_digits n c hc)
      exact ⟨h.1, h.2.2⟩

/-- **The port** behind the host, or 80. -/
theorem scanPort_portText : (scanPort (u.host ++ u.portText)).getD 80 = (u.port.getD 80 : ℕ) := by
  have hhost : ∀ c ∈ u.host, c ≠ 0x3A := fun c hc => (u.host_text c hc).2.1
  rw [portText, scanPort]
  cases hport : u.port with
  | none =>
    show (((strstr (ascii ":") (u.host ++ [])).map (List.drop 1)).bind scanInt).getD 80 = _
    rw [List.append_nil, strstr_colon_none hhost]
    rfl
  | some n =>
    have hrange := u.port_range n hport
    have hne : decimalText n ≠ [] := by
      intro hnil
      have hzero := decimal_decimalText n
      rw [hnil] at hzero
      have : n = 0 := hzero.symm
      omega
    have hscan : scanInt (decimalText n ++ []) = some (decimal (decimalText n) : ℤ) :=
      scanInt_digits hne (decimalText_digits n) nofun
    rw [List.append_nil, decimal_decimalText] at hscan
    show (((strstr (ascii ":") (u.host ++ 0x3A :: decimalText n)).map (List.drop 1)).bind
      scanInt).getD 80 = _
    rw [strstr_colon hhost]
    show (scanInt (decimalText n)).getD 80 = _
    rw [hscan]
    rfl

/-- The host stops at the port. -/
theorem takeWhile_host : (u.host ++ u.portText).takeWhile (· ≠ 0x3A) = u.host := by
  rw [List.takeWhile_append_of_pos fun c hc => decide_eq_true (u.host_text c hc).2.1, portText]
  cases u.port with
  | none => exact List.append_nil _
  | some n => exact List.append_nil _

end UrlParts

/-! ### The segments -/

/-- A part of a segment is copied. -/
theorem copyFileName_word {word : List UInt8} (tail : List UInt8) (hword : (0x2F : UInt8) ∉ word) :
    ∀ {front : List UInt8} {fileName : CharArray 256}, front <+: fileName.1 →
      front.length + word.length ≤ 256 →
      ∃ fileName', copyFileName (word ++ tail) front.length fileName =
          copyFileName tail (front ++ word).length fileName' ∧ front ++ word <+: fileName'.1 := by
  induction word with
  | nil =>
    intro front fileName hfront _
    refine ⟨fileName, ?_, ?_⟩
    · rw [List.append_nil, List.nil_append]
    · rw [List.append_nil]
      exact hfront
  | cons c word ih =>
    intro front fileName hfront hlen
    rw [List.mem_cons, not_or] at hword
    rw [List.length_cons] at hlen
    obtain ⟨next, hset, hnext⟩ := CharArray.set_next hfront (by omega) c
    have hlen' : (front ++ [c]).length + word.length ≤ 256 := by
      rw [List.length_append, List.length_singleton]
      omega
    obtain ⟨fileName', hcopy, hfront'⟩ := ih hword.2 hnext hlen'
    rw [List.append_assoc] at hcopy hfront'
    refine ⟨fileName', ?_, hfront'⟩
    rw [List.cons_append, copyFileName, if_neg (Ne.symm hword.1), hset]
    rw [List.length_append, List.length_singleton] at hcopy
    exact hcopy

/-- **The loop over the segments**: the last one is left in the array; by induction on the
segments. -/
theorem copyFileName_segments {segments : List (List UInt8)}
    (htext : ∀ s ∈ segments, (0x2F : UInt8) ∉ s) (hlength : ∀ s ∈ segments, s.length < 256)
    (hlast : ∀ s ∈ segments.getLast?, s ≠ []) :
    ∀ {front : List UInt8} {fileName : CharArray 256}, front <+: fileName.1 →
      front.length < 256 →
      ∃ fileName', copyFileName (segments.flatMap fun s => 0x2F :: s) front.length fileName =
          some fileName' ∧ segments.getLast?.getD front ++ [0] <+: fileName'.1 := by
  induction segments with
  | nil =>
    intro front fileName hfront hlen
    exact CharArray.set_next hfront hlen 0
  | cons s segments ih =>
    intro front fileName _ _
    rw [List.forall_mem_cons] at htext hlength
    -- something stands behind the slash
    have hmore : s ++ (segments.flatMap fun s => 0x2F :: s) ≠ [] := by
      cases segments with
      | nil => simpa using hlast s rfl
      | cons t segments => simp
    obtain ⟨next, hcopy, hnext⟩ := copyFileName_word
      (segments.flatMap fun s => 0x2F :: s) htext.1 List.nil_prefix
      (by rw [List.length_nil]; omega)
    rw [List.nil_append, List.length_nil] at hcopy
    rw [List.nil_append] at hnext
    have hlast' : ∀ t ∈ segments.getLast?, t ≠ [] := by
      intro t ht
      refine hlast t ?_
      rw [List.getLast?_cons, Option.mem_def.mp ht]
      rfl
    obtain ⟨fileName', hrest, hfront'⟩ := ih htext.2 hlength.2 hlast' hnext hlength.1
    refine ⟨fileName', ?_, ?_⟩
    · rw [List.flatMap_cons, List.cons_append, copyFileName, if_pos rfl, if_neg hmore, hcopy, hrest]
    · rw [List.getLast?_cons]
      exact hfront'

/-! ### The whole URL -/

/-- The host starts behind `http://`. -/
theorem urlRest_http (rest : List UInt8) : urlRest (ascii "http://" ++ rest) = rest := by
  have hhttp : ascii "http://" = [0x68, 0x74, 0x74, 0x70, 0x3A, 0x2F, 0x2F] := by decide
  have hhttps : ascii "https://" = [0x68, 0x74, 0x74, 0x70, 0x73, 0x3A, 0x2F, 0x2F] := by
    decide
  rw [urlRest, urlStart, patterns, hhttp, hhttps]
  simp

namespace UrlParts

variable (u : UrlParts)

/-- The host with its port, and the segments. -/
def rest : List UInt8 := (u.host ++ u.portText) ++ u.segments.flatMap fun s => 0x2F :: s

theorem hostPart_rest : hostPart u.rest = u.host ++ u.portText := by
  have hword : ∀ c ∈ u.host ++ u.portText, c ≠ 0x2F := by
    intro c hc
    rcases List.mem_append.mp hc with hc | hc
    · exact (u.host_text c hc).1
    · exact (u.portText_text c hc).1
  rw [hostPart, rest, List.takeWhile_append_of_pos fun c hc => decide_eq_true (hword c hc)]
  cases u.segments with
  | nil => exact List.append_nil _
  | cons s segments => exact List.append_nil _

theorem text_ne_zero : ∀ c ∈ u.text, c ≠ 0 := by
  intro c hc
  rw [text, List.mem_append, List.mem_append, List.mem_append] at hc
  rcases hc with (hc | hc | hc) | hc
  · revert hc c
    decide +kernel
  · exact (u.host_text c hc).2.2
  · exact (u.portText_text c hc).2
  · obtain ⟨s, hs, hmem⟩ := List.mem_flatMap.mp hc
    rcases List.mem_cons.mp hmem with rfl | hmem
    · decide
    · exact (u.segment_text s hs c hmem).2

end UrlParts

/-- **Splitting inverts building**: `parse_url` gets the host, the port and the last segment back
from the URL, whatever the arrays held before. -/
theorem parse_url_build (u : UrlParts) (host : CharArray 100) (fileName : CharArray 256) :
    ∃ parsed, parseUrl u.text host fileName = some parsed ∧
      (parsed.host.str = u.host ∧ (0 : UInt8) ∈ parsed.host.1) ∧
      parsed.port = (u.port.getD 80 : ℕ) ∧
      parsed.fileName.str = u.fileName ∧ (0 : UInt8) ∈ parsed.fileName.1 := by
  have hrest : urlRest u.text = u.rest := by
    rw [UrlParts.text, List.append_assoc, urlRest_http]
    rfl
  have hlength := u.length_portText
  have hlength' := u.host_length
  have hword : (0x2F : UInt8) ∉ u.host ++ u.portText := by
    rw [List.mem_append, not_or]
    exact ⟨fun hmem => (u.host_text _ hmem).1 rfl, fun hmem => (u.portText_text _ hmem).1 rfl⟩
  have hlen : (u.host ++ u.portText).length < 100 := by
    rw [List.length_append]
    omega
  -- the host and the port are written to `file_name` first, and the segments over them
  obtain ⟨next, hcopy, hnext⟩ := copyFileName_word
    (u.segments.flatMap fun s => 0x2F :: s) hword List.nil_prefix
    (by rw [List.length_nil]; omega)
  obtain ⟨fileName', hsegments, hfront'⟩ := copyFileName_segments
    (fun s hs hmem => (u.segment_text s hs _ hmem).1 rfl) u.segment_length
    (fun s hs => by
      obtain rfl : u.fileName = s := Option.some.inj (u.last.symm.trans hs)
      exact u.last_ne) hnext (by rw [List.nil_append]; omega)
  rw [u.last] at hfront'
  have hname : copyFileName (urlRest u.text) 0 fileName = some fileName' := by
    rw [hrest, ← hsegments, ← hcopy]
    rfl
  obtain ⟨parsed, hparsed, hfront, hport, rfl⟩ := parseUrl_eq_some host u.text_ne_zero
    (by rw [hrest, u.hostPart_rest]; exact hlen) hname
  rw [hrest, hostName, u.hostPart_rest, u.takeWhile_host] at hfront
  rw [hrest, u.hostPart_rest, u.scanPort_portText] at hport
  have hmem : u.fileName ∈ u.segments := List.mem_of_getLast? u.last
  refine ⟨parsed, hparsed, ⟨?_, hfront.subset (by simp)⟩, hport, ?_, hfront'.subset (by simp)⟩
  · exact CharArray.str_eq (fun c hc => (u.host_text c hc).2.2) hfront
  · exact CharArray.str_eq (fun c hc => (u.segment_text _ hmem c hc).2) hfront'

/-- `http://a.b:80/c/d`. -/
def UrlParts.short : UrlParts where
  host := ascii "a.b"
  port := some 80
  segments := [ascii "c", ascii "d"]
  fileName := ascii "d"
  host_ne := by decide
  host_text := by decide +kernel
  host_length := by decide
  port_range := by simp
  segment_text := by decide +kernel
  segment_length := by decide
  last := rfl
  last_ne := by decide

/-- The parts of a short URL. -/
theorem parse_url_build_short :
    UrlParts.short.text = ascii "http://a.b:80/c/d" ∧
      ∃ parsed, parseUrl UrlParts.short.text ⟨List.replicate 100 1, List.length_replicate⟩
          ⟨List.replicate 256 1, List.length_replicate⟩ = some parsed ∧
        (parsed.host.str = ascii "a.b" ∧ (0 : UInt8) ∈ parsed.host.1) ∧ parsed.port = 80 ∧
        parsed.fileName.str = ascii "d" ∧ (0 : UInt8) ∈ parsed.fileName.1 :=
  ⟨by decide, parse_url_build .short _ _⟩

end AudioPipeline
