import AudioPipeline.Sal.Equiv.Url

/-!
# Decoding any string

The decoder looks two bytes ahead of a `%` and goes on behind them, so that it passes the terminator
if this is one of them.

* `url_decode_safe_iff`: it stays inside the string exactly if every `%` that it comes to has two
  characters behind it.
-/

namespace AudioPipeline

/-- The string consists of escapes, which are a `%` with two characters, and of other characters. -/
inductive Escaped : List UInt8 → Prop
  | nil : Escaped []
  | char {c : UInt8} {s : List UInt8} (hc : c ≠ 0x25) (hs : Escaped s) : Escaped (c :: s)
  | escape (a b : UInt8) {s : List UInt8} (hs : Escaped s) : Escaped (0x25 :: a :: b :: s)

/-- `audio_url_decode` reads nothing behind the terminator of `s`, where its block of memory ends,
and writes at most `strlen(s) + 1` bytes. -/
def DecodesSafely (s : List UInt8) : Prop :=
  ∀ allocated, match audioUrlDecode allocated (s ++ [0]) with
    | .null => True
    | .fault => False
    | .block b => b.bytes.length ≤ s.length + 1

section

variable {s : List UInt8} {final : OutBlock}

/-- A character that is copied. -/
theorem urlDecodeLoop_char {c : UInt8} (hzero : c ≠ 0) (hpercent : c ≠ 0x25) (str : List UInt8)
    (final : OutBlock) :
    urlDecodeLoop (c :: str) final = (final.put c).bind (urlDecodeLoop str) := by
  rw [urlDecodeLoop]
  · exact hzero
  · exact fun _ _ _ h _ => hpercent h
  · exact hpercent

theorem OutBlock.put_room {b : OutBlock} (c : UInt8) (h : b.bytes.length < b.size) :
    ∃ b', b.put c = some b' ∧ b'.size = b.size ∧ b'.bytes.length = b.bytes.length + 1 := by
  refine ⟨_, dif_pos h, rfl, ?_⟩
  rw [List.length_append, List.length_singleton]

/-- **The loop stays inside**, by induction on the escapes and the characters. -/
theorem urlDecodeLoop_escaped (h : Escaped s) (hs : ∀ c ∈ s, c ≠ 0) :
    ∀ final : OutBlock, final.bytes.length + s.length < final.size →
      ∃ b, urlDecodeLoop (s ++ [0]) final = some b ∧ b.size = final.size ∧
        b.bytes.length ≤ final.bytes.length + s.length := by
  induction h with
  | nil => exact fun final _ => ⟨final, rfl, rfl, le_rfl⟩
  | @char c s hc _ ih =>
    intro final hroom
    rw [List.forall_mem_cons] at hs
    rw [List.length_cons] at hroom ⊢
    obtain ⟨b, hput, hsize, hlen⟩ := OutBlock.put_room (b := final) c (by omega)
    obtain ⟨b', hloop, hsize', hlen'⟩ := ih hs.2 b (by omega)
    refine ⟨b', ?_, hsize'.trans hsize, by omega⟩
    rw [List.cons_append, urlDecodeLoop_char hs.1 hc, hput]
    exact hloop
  | @escape a b s _ ih =>
    intro final hroom
    simp only [List.forall_mem_cons] at hs
    simp only [List.length_cons] at hroom ⊢
    obtain ⟨b₁, hput, hsize, hlen⟩ :=
      OutBlock.put_room (b := final) (longToChar (strtol16 [a, b, 0])) (by omega)
    obtain ⟨b', hloop, hsize', hlen'⟩ := ih hs.2.2.2 b₁ (by omega)
    refine ⟨b', ?_, hsize'.trans hsize, by omega⟩
    rw [List.cons_append, List.cons_append, List.cons_append, urlDecodeLoop, hput]
    exact hloop

/-- **The loop leaves the string** at a `%` without two characters behind it; by induction on the
length, as an escape takes three characters at once. -/
theorem escaped_of_urlDecodeLoop (n : ℕ) : ∀ s : List UInt8, s.length ≤ n →
    (∀ c ∈ s, c ≠ 0) → ∀ final : OutBlock, urlDecodeLoop (s ++ [0]) final ≠ none → Escaped s := by
  have hstep : ∀ {o : Option OutBlock} {f : OutBlock → Option OutBlock}, o.bind f ≠ none →
      ∃ b, f b ≠ none := by
    intro o f hne
    cases o with
    | none => exact absurd rfl hne
    | some b => exact ⟨b, hne⟩
  induction n with
  | zero =>
    intro s hlen _ _ _
    rw [List.eq_nil_of_length_eq_zero (Nat.le_zero.mp hlen)]
    exact .nil
  | succ n ih =>
    intro s hlen hs final h
    cases s with
    | nil => exact .nil
    | cons c s =>
      rw [List.length_cons] at hlen
      rw [List.forall_mem_cons] at hs
      by_cases hc : c = 0x25
      · subst hc
        match s with
        | [] => exact absurd rfl h
        | [a] =>
          -- the terminator is taken for a digit, and passed
          rw [List.cons_append, List.singleton_append, urlDecodeLoop] at h
          obtain ⟨b, hb⟩ := hstep h
          exact absurd rfl hb
        | a :: b :: s =>
          rw [List.cons_append, List.cons_append, List.cons_append, urlDecodeLoop] at h
          obtain ⟨b₁, hb₁⟩ := hstep h
          simp only [List.forall_mem_cons, List.length_cons] at hs hlen
          exact .escape a b (ih s (by omega) hs.2.2.2 b₁ hb₁)
      · rw [List.cons_append, urlDecodeLoop_char hs.1 hc] at h
        obtain ⟨b, hb⟩ := hstep h
        exact .char hc (ih s (by omega) hs.2 b hb)

end

/-- **Decoding is safe** exactly for the strings of escapes and other characters. -/
theorem url_decode_safe_iff {s : List UInt8} (hs : ∀ c ∈ s, c ≠ 0) :
    DecodesSafely s ↔ Escaped s := by
  have hmem : (0 : UInt8) ∈ s ++ [0] := List.mem_append_right _ (List.mem_singleton_self 0)
  have htake : (s ++ [0]).takeWhile (· ≠ 0) = s := by
    rw [List.takeWhile_append_of_pos fun c hc => decide_eq_true (hs c hc)]
    simp
  have hlen : strlen (s ++ [0]) = some s.length := by
    rw [strlen, if_pos hmem, htake]
  unfold DecodesSafely audioUrlDecode
  rw [hlen]
  constructor
  · intro h
    have htrue := h true
    dsimp only at htrue
    rw [if_pos rfl] at htrue
    refine escaped_of_urlDecodeLoop _ s le_rfl hs (.new (s.length + 1)) fun hnone => ?_
    rw [hnone] at htrue
    exact htrue
  · rintro h (_ | _)
    · trivial
    · obtain ⟨b, hloop, hsize, hbytes⟩ :=
        urlDecodeLoop_escaped h hs (.new (s.length + 1)) (by simp [OutBlock.new])
      have hbytes' : b.bytes.length ≤ s.length := by simpa [OutBlock.new] using hbytes
      have hsize' : b.size = s.length + 1 := hsize
      obtain ⟨b', hput, -, hlen'⟩ := OutBlock.put_room (b := b) 0 (by omega)
      dsimp only
      rw [if_pos rfl, hloop, Option.bind_some, hput]
      show b'.bytes.length ≤ s.length + 1
      omega

/-- An escape, and a `%` behind an escape that decodes to one. -/
theorem url_decode_safe_escape : DecodesSafely [0x25, 0x32, 0x35, 0x41] :=
  (url_decode_safe_iff (by simp)).mpr (.escape _ _ (.char (by decide) .nil))

/-- A `%` at the end. -/
theorem url_decode_unsafe : ¬∀ s : List UInt8, (∀ c ∈ s, c ≠ 0) → DecodesSafely s :=
  fun h => h [0x25] (by simp) true

end AudioPipeline
