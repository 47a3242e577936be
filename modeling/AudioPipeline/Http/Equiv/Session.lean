import AudioPipeline.Http.Equiv.Fields
import AudioPipeline.Http.Equiv.HeaderLoop
import AudioPipeline.Http.Session

/-!
## Where the header loop stops

The loop counts the line ends behind what it has read.  In a header block they come in pairs, and
only at its end two pairs follow each other (`HeaderBlock.lineEnds_front`,
`HeaderBlock.lineEnds_all`).

* `stops_at_body_iff`: the loop stops at the body with the header in `head_buffer` exactly if fresh
  memory starts with a terminator and the header has fewer than 4096 bytes.
-/

namespace AudioPipeline

/-- A line end. -/
def crlf : List UInt8 := [0x0D, 0x0A]

/-- A header: its first line is not empty, it has no terminator, CR and LF stand in it only side by
side, and it ends with its first blank line. -/
structure HeaderBlock (header : List UInt8) : Prop where
  first : ∀ c ∈ header.head?, ¬(c = 0x0A ∨ c = 0x0D)
  text : ∀ c ∈ header, c ≠ 0
  cr : ∀ front back, header = front ++ 0x0D :: back → ∃ back', back = 0x0A :: back'
  lf : ∀ front back, header = front ++ 0x0A :: back → ∃ front', front = front' ++ [0x0D]
  ends : crlf ++ crlf <:+ header
  once : ¬crlf ++ crlf <:+: header.dropLast

/-! ### Counting line ends -/

theorem lineEnds_eq_some {bytes : List UInt8} {n : ℕ} :
    lineEnds bytes = some n ↔ ∃ ends c rest, bytes = ends ++ c :: rest ∧ ends.length = n ∧
      (∀ d ∈ ends, d = 0x0A ∨ d = 0x0D) ∧ ¬(c = 0x0A ∨ c = 0x0D) := by
  induction bytes generalizing n with
  | nil =>
    refine iff_of_false (by simp [lineEnds]) ?_
    rintro ⟨ends, c, rest, heq, -⟩
    exact absurd heq.symm (by simp)
  | cons b bytes ih =>
    rw [lineEnds]
    by_cases hb : b = 0x0A ∨ b = 0x0D
    · rw [if_pos hb, Option.map_eq_some_iff]
      constructor
      · rintro ⟨k, hk, rfl⟩
        obtain ⟨ends, c, rest, rfl, hlen, hends, hc⟩ := ih.mp hk
        refine ⟨b :: ends, c, rest, rfl, by rw [List.length_cons, hlen], ?_, hc⟩
        rw [List.forall_mem_cons]
        exact ⟨hb, hends⟩
      · rintro ⟨ends, c, rest, heq, hlen, hends, hc⟩
        cases ends with
        | nil =>
          obtain rfl : b = c := (List.cons.inj heq).1
          exact absurd hb hc
        | cons d ends =>
          obtain ⟨rfl, heq'⟩ := List.cons.inj heq
          rw [List.forall_mem_cons] at hends
          exact ⟨ends.length, ih.mpr ⟨ends, c, rest, heq', rfl, hends.2, hc⟩, hlen⟩
    · rw [if_neg hb]
      constructor
      · intro h
        obtain rfl := Option.some.inj h
        exact ⟨[], b, bytes, rfl, rfl, by simp, hb⟩
      · rintro ⟨ends, c, rest, heq, rfl, hends, hc⟩
        cases ends with
        | nil => rfl
        | cons d ends =>
          obtain ⟨rfl, -⟩ := List.cons.inj heq
          exact absurd (hends b List.mem_cons_self) hb

/-- What stands in front of the last character that is no line end does not matter. -/
theorem lineEnds_behind {bytes : List UInt8} {n : ℕ} (front : List UInt8)
    (h : lineEnds bytes.reverse = some n) : lineEnds (front ++ bytes).reverse = some n := by
  rw [lineEnds_eq_some] at h ⊢
  obtain ⟨ends, c, rest, heq, hends⟩ := h
  refine ⟨ends, c, rest ++ front.reverse, ?_, hends⟩
  rw [List.reverse_append, heq, List.append_assoc]
  rfl

namespace HeaderBlock

variable {header front back : List UInt8}

/-- A LF has its CR in front of it. -/
theorem lf_pair (h : HeaderBlock header) {c : UInt8} (heq : header = front ++ c :: 0x0A :: back) :
    c = 0x0D := by
  have hsplit : header = (front ++ [c]) ++ 0x0A :: back := by
    rw [heq, List.append_assoc]
    rfl
  obtain ⟨front', hcr⟩ := h.lf _ _ hsplit
  exact (List.cons.inj (List.append_inj' hcr rfl).2).1

/-- A CR has its LF behind it. -/
theorem cr_pair (h : HeaderBlock header) {d : UInt8} (heq : header = front ++ 0x0D :: d :: back) :
    d = 0x0A := by
  obtain ⟨back', hlf⟩ := h.cr _ _ heq
  exact (List.cons.inj hlf).1

/-- **Four line ends** behind a part of the header: it ends with a blank line. -/
theorem ends_of_four (h : HeaderBlock header) (heq : header = front ++ back)
    (hfour : lineEnds front.reverse = some 4) : crlf ++ crlf <:+ front := by
  obtain ⟨ends, c, rest, hrev, hlen, hends, hc⟩ := lineEnds_eq_some.mp hfour
  obtain ⟨d₄, d₃, d₂, d₁, rfl⟩ : ∃ d₄ d₃ d₂ d₁, ends = [d₄, d₃, d₂, d₁] := by
    match ends, hlen with
    | [d₄, d₃, d₂, d₁], _ => exact ⟨d₄, d₃, d₂, d₁, rfl⟩
  have hfront : front = rest.reverse ++ [c, d₁, d₂, d₃, d₄] := by
    rw [← List.reverse_reverse front, hrev]
    simp
  rw [hfront] at heq
  simp only [List.append_assoc, List.cons_append, List.nil_append] at heq
  simp only [List.forall_mem_cons] at hends
  obtain ⟨h₄, h₃, h₂, h₁, -⟩ := hends
  have hd₁ : d₁ = 0x0D := by
    refine h₁.resolve_left ?_
    rintro rfl
    exact hc (Or.inr (h.lf_pair heq))
  subst hd₁
  have heq₁ : header = (rest.reverse ++ [c]) ++ 0x0D :: d₂ :: (d₃ :: d₄ :: back) := by
    rw [heq, List.append_assoc]
    rfl
  obtain rfl := h.cr_pair heq₁
  have hd₃ : d₃ = 0x0D := by
    refine h₃.resolve_left ?_
    rintro rfl
    have heq₂ : header = (rest.reverse ++ [c, 0x0D]) ++ 0x0A :: 0x0A :: (d₄ :: back) := by
      rw [heq, List.append_assoc]
      rfl
    exact absurd (h.lf_pair heq₂) (by decide)
  subst hd₃
  have heq₃ : header = (rest.reverse ++ [c, 0x0D, 0x0A]) ++ 0x0D :: d₄ :: back := by
    rw [heq, List.append_assoc]
    rfl
  obtain rfl := h.cr_pair heq₃
  refine ⟨rest.reverse ++ [c], ?_⟩
  rw [hfront, List.append_assoc]
  rfl

/-- **In the header** the loop goes on. -/
theorem lineEnds_front (h : HeaderBlock header) (heq : header = front ++ back) (hback : back ≠ []) :
    lineEnds front.reverse ≠ some 4 := by
  intro hfour
  refine h.once ?_
  rw [heq, List.dropLast_append_of_ne_nil hback]
  exact (h.ends_of_four heq hfour).isInfix.trans (List.prefix_append front _).isInfix

/-- **At the end of the header** it stops. -/
theorem lineEnds_all (h : HeaderBlock header) : lineEnds header.reverse = some 4 := by
  obtain ⟨body, hbody⟩ := h.ends
  rw [lineEnds_eq_some]
  -- what stands in front of the blank line
  rcases List.eq_nil_or_concat body with rfl | ⟨lines, c, rfl⟩
  · rw [← hbody] at h
    exact absurd (Or.inr rfl) (h.first 0x0D rfl)
  · have heq : header = lines ++ c :: 0x0D :: 0x0A :: [0x0D, 0x0A] := by
      rw [← hbody]
      simp [crlf]
    refine ⟨[0x0A, 0x0D, 0x0A, 0x0D], c, lines.reverse, ?_, rfl, by simp, ?_⟩
    · rw [heq]
      simp
    · rintro (rfl | rfl)
      · -- the blank line would come one line end earlier
        rcases List.eq_nil_or_concat lines with rfl | ⟨lines', d, rfl⟩
        · rw [heq] at h
          exact absurd (Or.inl rfl) (h.first 0x0A rfl)
        · have heq' : header = lines' ++ d :: 0x0A :: [0x0D, 0x0A, 0x0D, 0x0A] := by
            rw [heq]
            simp
          obtain rfl := h.lf_pair heq'
          refine h.once ⟨lines', [0x0D], ?_⟩
          rw [heq', List.dropLast_append_of_ne_nil (List.cons_ne_nil _ _)]
          simp [crlf]
      · exact absurd (h.cr_pair heq) (by decide)

end HeaderBlock

/-! ### The loop -/

section

variable {mem : HeadHeap} {fin : SocketEnd} {header body stale : List UInt8}

/-- **The loop over a header**, from a block in which `stale` stands in front of the part that was
read; by induction on the rest of the header. -/
theorem headerLoop_header (h : HeaderBlock header) (rest : List UInt8) :
    ∀ (front : List UInt8) (st : HeaderLoop), header = front ++ rest → rest ≠ [] →
      st.Holds (stale ++ front) →
      (stale.length + header.length < 4096 →
        ∃ st', headerLoop mem fin (rest ++ body) st = .read st' body ∧
          st'.Holds (stale ++ header)) ∧
      (4096 ≤ stale.length + header.length →
        headerLoop mem fin (rest ++ body) st = .fault .overflow) := by
  induction rest with
  | nil => exact fun _ _ _ hne => absurd rfl hne
  | cons c rest ih =>
    intro front st heq _ hst
    have hc : c ≠ 0 := by
      refine h.text c ?_
      rw [heq]
      simp
    obtain ⟨block, hhead⟩ := hst.head
    have hblock := hst.block
    have hlength : header.length = front.length + (rest.length + 1) := by
      rw [heq, List.length_append, List.length_cons]
    rw [hhead, List.length_append, List.length_append, List.length_cons] at hblock
    rw [List.cons_append, headerLoop, hst.growHead mem]
    dsimp only
    rw [hhead]
    by_cases hroom : block = []
    · -- no room for a terminator behind this byte
      subst hroom
      rw [appendHead_full hst.text hc]
      rw [List.length_nil] at hblock
      exact ⟨fun hlt => by omega, fun _ => rfl⟩
    · have hpos : 0 < block.length := List.length_pos_iff.mpr hroom
      -- the first byte of the header is no line end
      obtain ⟨flag, hflag⟩ : ∃ flag, lineEnds (front ++ [c]).reverse = some flag := by
        cases hends : lineEnds (front ++ [c]).reverse with
        | some flag => exact ⟨flag, rfl⟩
        | none =>
          rw [lineEnds_eq_none] at hends
          obtain ⟨d, ds, hds⟩ : ∃ d ds, front ++ [c] = d :: ds :=
            List.exists_cons_of_ne_nil (by simp)
          have hfirst : d ∈ header.head? := by
            have hcons : header = d :: (ds ++ rest) := by
              rw [heq, List.append_cons, hds]
              rfl
            rw [hcons]
            rfl
          refine absurd (hends d ?_) (h.first d hfirst)
          rw [hds]
          simp
      have hwhole := lineEnds_behind stale hflag
      rw [← List.append_assoc] at hwhole
      rw [appendHead_room hst.text hc hroom, hwhole]
      dsimp only
      have hnext := hst.next hhead hroom hc
      rw [List.append_assoc stale] at hnext
      have heq' : header = (front ++ [c]) ++ rest := by
        rw [heq, List.append_cons]
      rcases eq_or_ne rest [] with rfl | hrest
      · -- the last byte of the header
        rw [List.append_nil] at heq'
        have hfour := h.lineEnds_all
        rw [heq', hflag] at hfour
        obtain rfl := Option.some.inj hfour
        rw [if_pos rfl]
        refine ⟨fun _ => ⟨_, rfl, ?_⟩, fun hlt => ?_⟩
        · have hlen := hst.length
          rw [heq', List.append_assoc stale]
          exact
            { size := hnext.size
              block := hnext.block
              length := by
                rw [List.length_append] at hlen ⊢
                simp only [List.length_append]
                omega
              text := hnext.text
              head := hnext.head }
        · rw [List.length_nil] at hlength
          omega
      · have hgoes := h.lineEnds_front heq' hrest
        rw [hflag] at hgoes
        have hne : flag ≠ 4 := fun hfour => hgoes (congrArg some hfour)
        rw [if_neg hne]
        rw [← List.append_assoc] at hnext
        exact ih (front ++ [c]) _ heq' hrest (by rw [← List.append_assoc]; exact hnext)

end

/-! ### The block at the start -/

/-- Fresh memory starts with an empty string if its first byte is a terminator. -/
theorem HeadHeap.stale_eq_nil_iff (mem : HeadHeap) : mem.stale = [] ↔ mem.fresh 0 = 0 := by
  have hfront : mem.malloc 4096 = mem.fresh 0 :: ((List.range 4095).map (· + 1)).map mem.fresh := by
    rw [malloc, List.range_succ_eq_map]
    rfl
  rw [stale, hfront, List.takeWhile_cons]
  by_cases hzero : mem.fresh 0 = 0
  · simp [hzero]
  · rw [if_pos (decide_eq_true hzero)]
    exact iff_of_false (List.cons_ne_nil _ _) hzero

/-- Memory without a terminator: the first `strcat` leaves the block. -/
theorem readHeader_unterminated {mem : HeadHeap} (fin : SocketEnd)
    (hfresh : (0 : UInt8) ∉ mem.malloc 4096) (c : UInt8) (bytes : List UInt8) :
    readHeader mem fin (c :: bytes) = .fault .unterminated := by
  have hstrlen : strlen (mem.malloc 4096) = none := if_neg hfresh
  rw [readHeader, headerLoop, growHead, if_neg (show ¬0 + 1 > 4096 by decide)]
  dsimp only
  rw [appendHead, strcat, hstrlen]

/-- **The loop stops at the body**: it has read the header and no byte more, the header is the
string in `head_buffer`, and what is read from the open client is a first part of the body. -/
def StopsAtBody (mem : HeadHeap) (fin : SocketEnd) (resp : HttpResHeader)
    (header body : List UInt8) : Prop :=
  ∃ st, readHeader mem fin (header ++ body) = .read st body ∧ (0 : UInt8) ∈ st.head ∧
    st.head.takeWhile (· ≠ 0) = header ∧
    ∀ ret client n, espHttpClientOpen mem fin resp (header ++ body) = .returned ret client →
      (espHttpClientRead client n).1 <+: body

/-- What is read from the open client comes from what the loop has left in the socket. -/
theorem espHttpClientRead_prefix {mem : HeadHeap} {fin : SocketEnd} {resp : HttpResHeader}
    {socket rest : List UInt8} {st : HeaderLoop} {ret : ℤ} {client : HttpClient}
    (hread : readHeader mem fin socket = .read st rest)
    (h : espHttpClientOpen mem fin resp socket = .returned ret client) (n : ℕ) :
    (espHttpClientRead client n).1 <+: rest := by
  have hsocket : client.socket = rest := by
    rw [espHttpClientOpen, hread] at h
    dsimp only at h
    split at h
    · exact OpenResult.noConfusion h
    · split_ifs at h <;> obtain ⟨-, rfl⟩ := OpenResult.returned.inj h <;> rfl
  rw [espHttpClientRead, ← hsocket]
  split_ifs
  · exact List.nil_prefix
  · exact List.take_prefix n client.socket

/-- A header has a first byte. -/
theorem HeaderBlock.ne_nil {header : List UInt8} (h : HeaderBlock header) : header ≠ [] := by
  rintro rfl
  exact absurd (List.suffix_nil.mp h.ends) (by decide)

section

variable {mem : HeadHeap} {fin : SocketEnd} {resp : HttpResHeader} {header body : List UInt8}

/-- The block had a terminator before the first byte. -/
theorem StopsAtBody.terminated (h : HeaderBlock header)
    (hstop : StopsAtBody mem fin resp header body) : (0 : UInt8) ∈ mem.malloc 4096 := by
  by_contra hfresh
  obtain ⟨st, hread, -⟩ := hstop
  obtain ⟨c, bytes, rfl⟩ := List.exists_cons_of_ne_nil h.ne_nil
  rw [List.cons_append, readHeader_unterminated fin hfresh] at hread
  exact HeaderEnd.noConfusion hread

/-- The run lemma from the block at the start. -/
theorem readHeader_header (fin : SocketEnd) (body : List UInt8) (h : HeaderBlock header)
    (hfresh : (0 : UInt8) ∈ mem.malloc 4096) :
    (mem.stale.length + header.length < 4096 →
      ∃ st, readHeader mem fin (header ++ body) = .read st body ∧
        st.Holds (mem.stale ++ header)) ∧
      (4096 ≤ mem.stale.length + header.length →
        readHeader mem fin (header ++ body) = .fault .overflow) := by
  have hstart := holds_start (mem.length_malloc 4096) hfresh
  rw [← List.append_nil (List.takeWhile _ _)] at hstart
  exact headerLoop_header h header [] ⟨4096, 0, mem.malloc 4096⟩ rfl h.ne_nil hstart

/-- **If the loop stops at the body**, nothing stood in front of the header. -/
theorem StopsAtBody.room (h : HeaderBlock header)
    (hstop : StopsAtBody mem fin resp header body) :
    mem.stale = [] ∧ header.length < 4096 := by
  have hloop := readHeader_header fin body h (hstop.terminated h)
  obtain ⟨st, hread, -, htext, -⟩ := hstop
  by_cases hroom : mem.stale.length + header.length < 4096
  · obtain ⟨st', hread', hst'⟩ := hloop.1 hroom
    obtain ⟨rfl, -⟩ := HeaderEnd.read.inj (hread.symm.trans hread')
    obtain ⟨rest, hhead⟩ := hst'.head
    rw [hhead, List.takeWhile_append_of_pos fun d hd => decide_eq_true (hst'.text d hd)] at htext
    rw [List.takeWhile_cons, if_neg (by simp), List.append_nil] at htext
    exact ⟨List.append_left_eq_self.mp htext, by omega⟩
  · rw [hloop.2 (by omega)] at hread
    exact HeaderEnd.noConfusion hread

/-- **From an empty string** the loop stops at the body. -/
theorem stopsAtBody_of_room (h : HeaderBlock header) (hstale : mem.stale = [])
    (hroom : header.length < 4096) : StopsAtBody mem fin resp header body := by
  have hfresh : (0 : UInt8) ∈ mem.malloc 4096 := by
    by_contra hfresh
    have hlen := congrArg List.length hstale
    rw [HeadHeap.stale, takeWhile_unterminated hfresh, mem.length_malloc] at hlen
    exact absurd hlen (by decide)
  have hloop := readHeader_header fin body h hfresh
  rw [hstale, List.nil_append, List.length_nil, Nat.zero_add] at hloop
  obtain ⟨st, hread, hst⟩ := hloop.1 hroom
  obtain ⟨rest, hhead⟩ := hst.head
  refine ⟨st, hread, ?_, ?_, ?_⟩
  · rw [hhead]
    simp
  · rw [hhead, List.takeWhile_append_of_pos fun d hd => decide_eq_true (hst.text d hd)]
    simp
  · intro ret client n hopen
    exact espHttpClientRead_prefix hread hopen n

end

/-- **The header loop stops exactly at the body** of the response if and only if fresh memory
starts with a terminator and the header leaves room for its own. -/
theorem stops_at_body_iff (mem : HeadHeap) (fin : SocketEnd) (resp : HttpResHeader)
    {header : List UInt8} (body : List UInt8) (h : HeaderBlock header) :
    StopsAtBody mem fin resp header body ↔ mem.fresh 0 = 0 ∧ header.length < 4096 := by
  rw [← mem.stale_eq_nil_iff]
  constructor
  · intro hstop
    exact hstop.room h
  · intro hroom
    exact stopsAtBody_of_room h hroom.1 hroom.2

/-- The shortest header: one letter and a blank line. -/
theorem HeaderBlock.short : HeaderBlock [0x48, 0x0D, 0x0A, 0x0D, 0x0A] where
  first := by simp
  text := by simp
  cr := by
    intro front back heq
    simp [List.cons_eq_append_iff] at heq
    obtain ⟨front', -, ⟨-, rfl⟩ | ⟨-, rfl⟩⟩ := heq
    · exact ⟨_, rfl⟩
    · exact ⟨_, rfl⟩
  lf := by
    intro front back heq
    simp [List.cons_eq_append_iff] at heq
    obtain ⟨front', rfl, ⟨rfl, -⟩ | ⟨rfl, -⟩⟩ := heq
    · exact ⟨[0x48], rfl⟩
    · exact ⟨[0x48, 0x0D, 0x0A], rfl⟩
  ends := ⟨[0x48], rfl⟩
  once := by decide

/-- A short answer, in clean memory. -/
theorem stops_at_body_short :
    HeaderBlock [0x48, 0x0D, 0x0A, 0x0D, 0x0A] ∧
      StopsAtBody .clean .closed .clean [0x48, 0x0D, 0x0A, 0x0D, 0x0A] [0x0A, 0x00] :=
  ⟨.short, (stops_at_body_iff .clean .closed .clean [0x0A, 0x00] .short).mpr ⟨rfl, by decide⟩⟩

/-- Fresh memory that starts with a letter: the header stands behind it in `head_buffer`. -/
theorem not_stops_at_body :
    ¬∀ (mem : HeadHeap) (fin : SocketEnd) (resp : HttpResHeader) (header body : List UInt8),
      HeaderBlock header → StopsAtBody mem fin resp header body := by
  intro h
  have hroom := (h ⟨fun i => if i = 0 then 0x58 else 0, fun _ => true⟩ .closed .clean _ []
    .short).room .short
  rw [HeadHeap.stale_eq_nil_iff] at hroom
  exact absurd hroom.1 (by decide)

end AudioPipeline
