import AudioPipeline.Http.Client
import Mathlib.Data.List.TakeWhile
import Mathlib.Tactic.Common

/-!
## The header loop and its buffers

* `header_bounded_iff`: the header loop stays inside its buffers exactly if the header fits
  `head_buffer` behind what stands there at the start, and is read to its end (`HeaderFits`).
* `headerLoop_text`: the loop adds the bytes of the header to what stands in `head_buffer`.
-/

namespace AudioPipeline

/-! ### Strings in a block -/

theorem strlen_terminated {str : List UInt8} (htext : ∀ d ∈ str, d ≠ 0) (rest : List UInt8) :
    strlen (str ++ 0 :: rest) = some str.length := by
  have hmem : (0 : UInt8) ∈ str ++ 0 :: rest := List.mem_append_right _ List.mem_cons_self
  have htake : (str ++ 0 :: rest).takeWhile (· ≠ 0) = str := by
    rw [List.takeWhile_append_of_pos fun d hd => decide_eq_true (htext d hd)]
    simp
  rw [strlen, if_pos hmem, htake]

/-- A block with a terminator is the string in front of it and a rest. -/
theorem eq_terminated {block : List UInt8} (h : (0 : UInt8) ∈ block) :
    ∃ rest, block = block.takeWhile (· ≠ 0) ++ 0 :: rest := by
  induction block with
  | nil => exact absurd h List.not_mem_nil
  | cons c block ih =>
    by_cases hc : c = 0
    · exact ⟨block, by simp [hc]⟩
    · obtain ⟨rest, hrest⟩ := ih ((List.mem_cons.mp h).resolve_left (Ne.symm hc))
      refine ⟨rest, ?_⟩
      rw [List.takeWhile_cons, if_pos (by simpa using hc), List.cons_append, ← hrest]

/-- **`strcat` of one byte** to a string with `rest` behind its terminator. -/
theorem strcat_byte {str : List UInt8} (htext : ∀ d ∈ str, d ≠ 0) (rest : List UInt8) {c : UInt8}
    (hc : c ≠ 0) :
    strcat (str ++ 0 :: rest) [c, 0] =
      if rest ≠ [] then .ok ((str ++ [c]) ++ 0 :: rest.drop 1) else .error .overflow := by
  have hstr : [c, 0].takeWhile (fun d : UInt8 => d ≠ 0) = [c] := by simp [hc]
  have hdrop : (str ++ 0 :: rest).drop (str.length + 1 + 1) = rest.drop 1 :=
    List.drop_length_add_append 2
  have hlen : (str ++ 0 :: rest).length = str.length + (rest.length + 1) := by
    rw [List.length_append, List.length_cons]
  rw [strcat, strlen_terminated htext]
  simp only [hstr, List.length_singleton]
  by_cases hrest : rest = []
  · rw [if_neg (by rw [hlen, hrest, List.length_nil]; omega), if_neg (by simp [hrest])]
  · have hpos : 0 < rest.length := List.length_pos_iff.mpr hrest
    rw [if_pos (by omega), if_pos hrest, List.take_left, hdrop]

/-- The scan passes the front of the buffer if it meets nothing but line ends. -/
theorem lineEnds_eq_none {bytes : List UInt8} :
    lineEnds bytes = none ↔ ∀ d ∈ bytes, d = 0x0A ∨ d = 0x0D := by
  induction bytes with
  | nil => simp [lineEnds]
  | cons c bytes ih =>
    rw [lineEnds, List.forall_mem_cons]
    by_cases hc : c = 0x0A ∨ c = 0x0D
    · rw [if_pos hc, Option.map_eq_none_iff, ih]
      exact ⟨fun h => ⟨hc, h⟩, fun h => h.2⟩
    · rw [if_neg hc]
      exact ⟨fun h => absurd h (Option.some_ne_none 0), fun h => absurd h.1 hc⟩

/-! ### What the loop takes from the socket -/

/-- The bytes that belong to the header, which starts with `str`, and whether its end is among
them: a place with four line ends. -/
def headerPart (str : List UInt8) : List UInt8 → List UInt8 × Bool
  | [] => ([], false)
  | c :: bytes =>
    if lineEnds (str ++ [c]).reverse = some 4 then ([c], true)
    else (c :: (headerPart (str ++ [c]) bytes).1, (headerPart (str ++ [c]) bytes).2)

theorem headerPart_pos (str : List UInt8) (c : UInt8) (bytes : List UInt8) :
    0 < (headerPart str (c :: bytes)).1.length := by
  rw [headerPart]
  split_ifs <;> exact Nat.succ_pos _

/-- The bytes fit a block of 4096 that starts with `str`: there is room for them and a terminator;
the scan over line ends stops at the first one already; and the socket fails at none of them. -/
structure HeaderFits (str : List UInt8) (fin : SocketEnd) (bytes : List UInt8) : Prop where
  room : bytes ≠ [] → str.length + (headerPart str bytes).1.length < 4096
  stops : ∀ c ∈ bytes.head?, ∃ d ∈ str ++ [c], ¬(d = 0x0A ∨ d = 0x0D)
  ends : (headerPart str bytes).2 = true ∨ fin = .closed

/-- The loop ends without an access outside of its buffers. -/
def HeaderEnd.Bounded (r : HeaderEnd) : Prop := ∀ f, r ≠ .fault f

/-! ### One byte -/

section

variable {str : List UInt8} {c : UInt8}

theorem text_append (htext : ∀ d ∈ str, d ≠ 0) (hc : c ≠ 0) : ∀ d ∈ str ++ [c], d ≠ 0 := by
  intro d hd
  rw [List.mem_append, List.mem_singleton] at hd
  rcases hd with hd | rfl
  · exact htext d hd
  · exact hc

/-- A full block: the byte takes the place of the terminator, and the terminator is written past
the end. -/
theorem appendHead_full (htext : ∀ d ∈ str, d ≠ 0) (hc : c ≠ 0) :
    appendHead (str ++ [0]) c = .error .overflow := by
  rw [appendHead, strcat_byte htext [] hc]
  rfl

/-- A block with room: the scan over the line ends is all that can go wrong. -/
theorem appendHead_room (htext : ∀ d ∈ str, d ≠ 0) (hc : c ≠ 0) {rest : List UInt8}
    (hrest : rest ≠ []) :
    appendHead (str ++ 0 :: rest) c =
      match lineEnds (str ++ [c]).reverse with
      | none => .error .front
      | some flag => .ok ((str ++ [c]) ++ 0 :: rest.drop 1, flag) := by
  have hlen := strlen_terminated (text_append htext hc) (rest.drop 1)
  have htake : (str ++ [c] ++ 0 :: rest.drop 1).take (str ++ [c]).length = str ++ [c] :=
    List.take_left
  rw [appendHead, strcat_byte htext rest hc, if_pos hrest]
  dsimp only
  rw [hlen]
  dsimp only
  cases hends : lineEnds (str ++ [c]).reverse with
  | none => simp only [htake, hends]
  | some flag => simp only [htake, hends]

/-- The scan passes the front exactly if nothing stops it. -/
theorem front_iff :
    lineEnds (str ++ [c]).reverse = none ↔ ¬∃ d ∈ str ++ [c], ¬(d = 0x0A ∨ d = 0x0D) := by
  rw [lineEnds_eq_none]
  simp only [List.mem_reverse, not_exists, not_and, not_not]

end

namespace HeaderLoop

/-- The string `str` stands in the block of 4096 bytes, and `length` counts no more than its
bytes. -/
structure Holds (st : HeaderLoop) (str : List UInt8) : Prop where
  size : st.memSize = 4096
  block : st.head.length = 4096
  length : st.length ≤ str.length
  text : ∀ d ∈ str, d ≠ 0
  head : ∃ rest, st.head = str ++ 0 :: rest

variable {st : HeaderLoop} {str : List UInt8}

/-- The terminator takes one byte of the block, so that the loop never comes to `realloc`. -/
theorem Holds.growHead (h : st.Holds str) (mem : HeadHeap) : growHead mem 1 st = some st := by
  obtain ⟨rest, hhead⟩ := h.head
  have hblock := h.block
  have hlength := h.length
  have hsize := h.size
  rw [hhead, List.length_append, List.length_cons] at hblock
  rw [AudioPipeline.growHead, if_neg (by omega)]

/-- One byte more in the block. -/
theorem Holds.next {rest : List UInt8} {c : UInt8} (h : st.Holds str)
    (hhead : st.head = str ++ 0 :: rest) (hrest : rest ≠ []) (hc : c ≠ 0) :
    Holds { st with head := (str ++ [c]) ++ 0 :: rest.drop 1, length := st.length + 1 }
      (str ++ [c]) where
  size := h.size
  block := by
    have hblock := h.block
    have hpos : 0 < rest.length := List.length_pos_iff.mpr hrest
    rw [hhead, List.length_append, List.length_cons] at hblock
    simp only [List.length_append, List.length_cons, List.length_nil, List.length_drop]
    omega
  length := by
    have hlength := h.length
    simp only [List.length_append, List.length_cons, List.length_nil]
    omega
  text := text_append h.text hc
  head := ⟨rest.drop 1, rfl⟩

end HeaderLoop

/-! ### The loop -/

section

variable {mem : HeadHeap} {fin : SocketEnd} {str : List UInt8} {c : UInt8} {bytes : List UInt8}

/-- No byte is left: only the end of the socket matters. -/
theorem headerFits_nil : HeaderFits str fin [] ↔ fin = .closed := by
  constructor
  · intro h
    exact h.ends.resolve_left Bool.false_ne_true
  · intro h
    exact ⟨fun hne => absurd rfl hne, fun c hc => absurd hc (by simp), Or.inr h⟩

/-- The header ends with this byte. -/
theorem headerFits_last (hflag : lineEnds (str ++ [c]).reverse = some 4)
    (hroom : str.length + 1 < 4096) (hstop : ∃ d ∈ str ++ [c], ¬(d = 0x0A ∨ d = 0x0D)) :
    HeaderFits str fin (c :: bytes) := by
  have hpart : headerPart str (c :: bytes) = ([c], true) := by rw [headerPart, if_pos hflag]
  constructor
  · intro _
    rw [hpart]
    exact hroom
  · intro d hd
    obtain rfl : c = d := Option.some.inj hd
    exact hstop
  · rw [hpart]
    exact Or.inl rfl

/-- The header goes on after this byte. -/
theorem headerFits_cons (hflag : lineEnds (str ++ [c]).reverse ≠ some 4)
    (hroom : str.length + 1 < 4096) (hstop : ∃ d ∈ str ++ [c], ¬(d = 0x0A ∨ d = 0x0D)) :
    HeaderFits (str ++ [c]) fin bytes ↔ HeaderFits str fin (c :: bytes) := by
  have hpart : headerPart str (c :: bytes) =
      (c :: (headerPart (str ++ [c]) bytes).1, (headerPart (str ++ [c]) bytes).2) := by
    rw [headerPart, if_neg hflag]
  have hlen : (str ++ [c]).length = str.length + 1 := by simp
  constructor
  · intro h
    refine ⟨fun _ => ?_, fun d hd => ?_, by rw [hpart]; exact h.ends⟩
    · rw [hpart, List.length_cons]
      rcases eq_or_ne bytes [] with rfl | hne
      · show str.length + (0 + 1) < 4096
        omega
      · have := h.room hne
        omega
    · obtain rfl : c = d := Option.some.inj hd
      exact hstop
  · intro h
    have hroom' := h.room (List.cons_ne_nil c bytes)
    have hends := h.ends
    rw [hpart] at hroom' hends
    rw [List.length_cons] at hroom'
    refine ⟨fun _ => by omega, fun d _ => ?_, hends⟩
    obtain ⟨e, he, hne⟩ := hstop
    exact ⟨e, List.mem_append_left [d] he, hne⟩

/-- **The loop** from a block that holds `str`, by induction on the bytes to come. -/
theorem headerLoop_bounded (hbytes : ∀ d ∈ bytes, d ≠ 0) {st : HeaderLoop} (h : st.Holds str) :
    (headerLoop mem fin bytes st).Bounded ↔ HeaderFits str fin bytes := by
  induction bytes generalizing str st with
  | nil =>
    rw [headerFits_nil]
    cases fin with
    | closed => exact iff_of_true (fun f hf => HeaderEnd.noConfusion hf) rfl
    | error => exact iff_of_false (fun hb => hb .negative rfl) (by decide)
  | cons c bytes ih =>
    rw [List.forall_mem_cons] at hbytes
    obtain ⟨rest, hhead⟩ := h.head
    have hblock : str.length + (rest.length + 1) = 4096 := by
      rw [← List.length_cons, ← List.length_append, ← hhead]
      exact h.block
    rw [headerLoop, h.growHead mem]
    dsimp only
    rw [hhead]
    by_cases hrest : rest = []
    · -- no room for a terminator behind this byte
      subst hrest
      rw [appendHead_full h.text hbytes.1]
      refine iff_of_false (fun hb => hb .overflow rfl) fun hfits => ?_
      have hroom := hfits.room (List.cons_ne_nil c bytes)
      have hpos := headerPart_pos str c bytes
      rw [List.length_nil] at hblock
      omega
    · have hpos : 0 < rest.length := List.length_pos_iff.mpr hrest
      have hroom : str.length + 1 < 4096 := by omega
      rw [appendHead_room h.text hbytes.1 hrest]
      cases hflag : lineEnds (str ++ [c]).reverse with
      | none =>
        -- nothing but line ends up to here
        refine iff_of_false (fun hb => hb .front rfl) fun hfits => ?_
        exact front_iff.mp hflag (hfits.stops c rfl)
      | some flag =>
        have hstop : ∃ d ∈ str ++ [c], ¬(d = 0x0A ∨ d = 0x0D) := by
          by_contra hnone
          rw [front_iff.mpr hnone] at hflag
          exact Option.some_ne_none flag hflag.symm
        dsimp only
        by_cases hfour : flag = 4
        · rw [if_pos hfour]
          rw [hfour] at hflag
          exact iff_of_true (fun f hf => HeaderEnd.noConfusion hf)
            (headerFits_last hflag hroom hstop)
        · rw [if_neg hfour, ih hbytes.2 (h.next hhead hrest hbytes.1)]
          refine headerFits_cons (fun hfour' => hfour ?_) hroom hstop
          rw [hflag] at hfour'
          exact Option.some.inj hfour'

/-- **What is read** stands behind `str` in the block. -/
theorem headerLoop_text (hbytes : ∀ d ∈ bytes, d ≠ 0) {st st' : HeaderLoop} (h : st.Holds str)
    {socket : List UInt8} (hread : headerLoop mem fin bytes st = .read st' socket) :
    ∃ rest, st'.head = (str ++ (headerPart str bytes).1) ++ 0 :: rest := by
  induction bytes generalizing str st with
  | nil =>
    cases fin with
    | closed =>
      obtain ⟨rfl, -⟩ := HeaderEnd.read.inj hread
      rw [headerPart, List.append_nil]
      exact h.head
    | error => exact HeaderEnd.noConfusion hread
  | cons c bytes ih =>
    rw [List.forall_mem_cons] at hbytes
    obtain ⟨rest, hhead⟩ := h.head
    rw [headerLoop, h.growHead mem] at hread
    dsimp only at hread
    rw [hhead] at hread
    by_cases hrest : rest = []
    · rw [hrest, appendHead_full h.text hbytes.1] at hread
      exact HeaderEnd.noConfusion hread
    · rw [appendHead_room h.text hbytes.1 hrest] at hread
      cases hflag : lineEnds (str ++ [c]).reverse with
      | none =>
        rw [hflag] at hread
        exact HeaderEnd.noConfusion hread
      | some flag =>
        rw [hflag] at hread
        dsimp only at hread
        by_cases hfour : flag = 4
        · rw [if_pos hfour] at hread
          obtain ⟨rfl, -⟩ := HeaderEnd.read.inj hread
          rw [hfour] at hflag
          rw [headerPart, if_pos hflag]
          exact ⟨rest.drop 1, rfl⟩
        · rw [if_neg hfour] at hread
          have hpart : ¬lineEnds (str ++ [c]).reverse = some 4 := by
            rw [hflag]
            exact fun hsome => hfour (Option.some.inj hsome)
          obtain ⟨rest', hrest'⟩ := ih hbytes.2 (h.next hhead hrest hbytes.1) hread
          refine ⟨rest', ?_⟩
          rw [hrest', headerPart, if_neg hpart, List.append_assoc str [c]]
          rfl

end

/-! ### The block at the start -/

/-- The state before the first byte: the string in the block is what the fresh memory starts
with. -/
theorem holds_start {block : List UInt8} (hlen : block.length = 4096) (h : (0 : UInt8) ∈ block) :
    HeaderLoop.Holds ⟨4096, 0, block⟩ (block.takeWhile (· ≠ 0)) where
  size := rfl
  block := hlen
  length := Nat.zero_le _
  text := fun d hd => by simpa using List.mem_takeWhile_imp hd
  head := eq_terminated h

/-- Without a terminator in the block there is no room for a byte. -/
theorem takeWhile_unterminated {block : List UInt8} (h : (0 : UInt8) ∉ block) :
    block.takeWhile (· ≠ 0) = block := by
  refine List.takeWhile_eq_self_iff.mpr fun d hd => decide_eq_true ?_
  rintro rfl
  exact h hd

namespace HeadHeap

/-- What stands in `head_buffer` before the first byte: fresh memory up to a terminator. -/
def stale (mem : HeadHeap) : List UInt8 := (mem.malloc 4096).takeWhile (· ≠ 0)

theorem length_malloc (mem : HeadHeap) (size : ℕ) : (mem.malloc size).length = size := by
  rw [malloc, List.length_map, List.length_range]

end HeadHeap

/-- Memory that is filled with zeros. -/
def HeadHeap.clean : HeadHeap := ⟨fun _ => 0, fun _ => true⟩

theorem stale_clean : HeadHeap.clean.stale = [] := by
  have hfront : HeadHeap.clean.malloc 4096 =
      0 :: ((List.range 4095).map (· + 1)).map fun _ => 0 := by
    rw [HeadHeap.malloc, List.range_succ_eq_map]
    rfl
  rw [HeadHeap.stale, hfront]
  rfl

/-- **The header loop** of `esp_http_client_open` stays inside its buffers exactly if the header
fits behind what stands in fresh memory. -/
theorem header_bounded_iff (mem : HeadHeap) (fin : SocketEnd) {bytes : List UInt8}
    (hbytes : ∀ c ∈ bytes, c ≠ 0) :
    (readHeader mem fin bytes).Bounded ↔ HeaderFits mem.stale fin bytes := by
  by_cases hfresh : (0 : UInt8) ∈ mem.malloc 4096
  · exact headerLoop_bounded hbytes (holds_start (mem.length_malloc 4096) hfresh)
  · have hstale : mem.stale.length = 4096 := by
      rw [HeadHeap.stale, takeWhile_unterminated hfresh, mem.length_malloc]
    have hstrlen : strlen (mem.malloc 4096) = none := if_neg hfresh
    cases bytes with
    | nil =>
      rw [headerFits_nil]
      cases fin with
      | closed => exact iff_of_true (fun f hf => HeaderEnd.noConfusion hf) rfl
      | error => exact iff_of_false (fun hb => hb .negative rfl) (by decide)
    | cons c bytes =>
      refine iff_of_false (fun hb => ?_) fun hfits => ?_
      · -- `strcat` looks for a terminator that is not there
        refine hb .unterminated ?_
        rw [readHeader, headerLoop, growHead, if_neg (show ¬0 + 1 > 4096 by decide)]
        dsimp only
        rw [appendHead, strcat, hstrlen]
      · have hroom := hfits.room (List.cons_ne_nil c bytes)
        omega

/-- A header of one letter and a blank line, in clean memory; the socket fails behind it. -/
theorem header_bounded_short :
    (readHeader .clean .error [0x48, 0x0D, 0x0A, 0x0D, 0x0A]).Bounded := by
  refine (header_bounded_iff .clean .error (by simp)).mpr ?_
  rw [stale_clean]
  exact ⟨by decide, by simp, by decide⟩

/-- The peer resets the connection before the first byte: `read` returns -1. -/
theorem header_not_bounded :
    ¬∀ (mem : HeadHeap) (fin : SocketEnd) (bytes : List UInt8), (∀ c ∈ bytes, c ≠ 0) →
      (readHeader mem fin bytes).Bounded :=
  fun h => h .clean .error [] nofun .negative rfl

end AudioPipeline
