import AudioPipeline.Codec.Huffman
import AudioPipeline.Lib.Bits
import Mathlib.Data.List.GetD

/-!
# The cache of the Huffman decoder

`HuffCache.Holds` says that the cache has the next bits of a list, and `plainQuads` decodes the list
without a cache.

* `HuffCache.start_spec`, `HuffCache.Ready.ensure`: the cache is filled as the codes need it;
* `quads_plain`: `DecodeHuffmanQuads` decodes what is decoded bit by bit.
-/

namespace AudioPipeline

open Bits

/-! ### The cache -/

namespace HuffCache

/-- The cache has the next bits of `bits`, of which `used` have been used; behind them come those of
the buffer. -/
structure Cached (bits : List Bool) (used : ℕ) (c : HuffCache) : Prop where
  cache : ∃ cached : List Bool, (cached.length : ℤ) = c.cachedBits ∧ cached.length ≤ 32 ∧
    c.cache = field cached 32 ∧ bits.drop used =
      (cached ++ ofBytes (c.buf.drop c.ptr)).take (c.cachedBits + c.bitsLeft).toNat
  total : c.cachedBits + c.bitsLeft = bits.length - used
  le : used ≤ bits.length
  fits : 8 * (c.ptr : ℤ) + c.bitsLeft ≤ 8 * c.buf.length
  ptr : c.ptr ≤ c.buf.length
  pad : c.padBits = 0

/-- The cache has all bits that are left, and `pad` zeros. -/
structure Padded (pad : ℤ) (bits : List Bool) (used : ℕ) (c : HuffCache) : Prop where
  cache : c.cache = field (bits.drop used) 32
  cached : c.cachedBits = bits.length - used + pad
  left : c.bitsLeft = 0
  length : (bits.drop used).length ≤ 32
  pad : c.padBits = pad

/-- One of both, with at least `m` bits that are not behind the end of the buffer. -/
def Holds (pad m : ℤ) (bits : List Bool) (used : ℕ) (c : HuffCache) : Prop :=
  c.Cached bits used ∧ 0 ≤ c.bitsLeft ∧ m ≤ c.cachedBits ∨ c.Padded pad bits used

/-- The cache with one more byte. -/
def next (c : HuffCache) : HuffCache :=
  { c with
    ptr := c.ptr + 1
    cache := c.cache ||| (c.buf.getD c.ptr 0).toNat <<< (24 - c.cachedBits).toNat % 2 ^ 32
    cachedBits := c.cachedBits + 8
    bitsLeft := c.bitsLeft - 8 }

section

variable {c : HuffCache} {bits : List Bool} {used n : ℕ} {pad m : ℤ}

theorem Cached.lt (h : c.Cached bits used) (hleft : 0 < c.bitsLeft) : c.ptr < c.buf.length := by
  have := h.fits
  omega

theorem Cached.next (h : c.Cached bits used) (hleft : 0 < c.bitsLeft) (hbits : c.cachedBits ≤ 24) :
    c.next.Cached bits used := by
  have hlt := h.lt hleft
  obtain ⟨cached, hlen, hlen', hcache, hrest⟩ := h.cache
  -- the byte goes behind the bits that are cached
  have hbyte : c.buf.drop c.ptr = c.buf[c.ptr] :: c.buf.drop (c.ptr + 1) :=
    List.drop_eq_getElem_cons hlt
  refine ⟨⟨cached ++ ofByte c.buf[c.ptr], ?_, ?_, ?_, ?_⟩, ?_, h.le, ?_, hlt, h.pad⟩
  · rw [List.length_append, length_ofByte]
    show ((cached.length + 8 : ℕ) : ℤ) = c.cachedBits + 8
    omega
  · rw [List.length_append, length_ofByte]
    omega
  · show c.cache ||| (c.buf.getD c.ptr 0).toNat <<< (24 - c.cachedBits).toNat % 2 ^ 32 = _
    have hshift : (24 - c.cachedBits).toNat = 24 - cached.length := by omega
    have hb := (c.buf[c.ptr]).toNat_lt
    have hpow : 2 ^ 8 * 2 ^ (24 - cached.length) = 2 ^ (32 - cached.length) := by
      rw [← Nat.pow_add]
      congr 1
      omega
    have hlow : c.buf[c.ptr].toNat * 2 ^ (24 - cached.length) < 2 ^ (32 - cached.length) := by
      rw [← hpow]
      exact Nat.mul_lt_mul_of_pos_right hb (Nat.two_pow_pos _)
    have hword : 2 ^ (32 - cached.length) ≤ 2 ^ 32 := Nat.pow_le_pow_right (by decide) (by omega)
    rw [hshift, List.getD_eq_getElem _ _ hlt, hcache, field_of_ge hlen', Nat.shiftLeft_eq,
      Nat.mod_eq_of_lt (hlow.trans_le hword), ← Nat.shiftLeft_eq (value cached), lor_shiftLeft hlow,
      field_append hlen', field_of_ge (by rw [length_ofByte]; omega), value_ofByte, length_ofByte]
    congr 3
    omega
  · show bits.drop used = ((cached ++ ofByte c.buf[c.ptr]) ++
      ofBytes (c.buf.drop (c.ptr + 1))).take (c.cachedBits + 8 + (c.bitsLeft - 8)).toNat
    rw [hrest, hbyte, ofBytes_cons, List.append_assoc,
      show c.cachedBits + 8 + (c.bitsLeft - 8) = c.cachedBits + c.bitsLeft by ring]
  · have := h.total
    show c.cachedBits + 8 + (c.bitsLeft - 8) = _
    omega
  · have := h.fits
    show 8 * ((c.ptr + 1 : ℕ) : ℤ) + (c.bitsLeft - 8) ≤ 8 * c.buf.length
    omega

/-- What is cached and not behind the end. -/
theorem Cached.rest_of_nonpos (h : c.Cached bits used) (hleft : c.bitsLeft ≤ 0) :
    ∃ cached : List Bool, (cached.length : ℤ) = c.cachedBits ∧ cached.length ≤ 32 ∧
      c.cache = field cached 32 ∧
        bits.drop used = cached.take (c.cachedBits + c.bitsLeft).toNat := by
  obtain ⟨cached, hlen, hlen', hcache, hrest⟩ := h.cache
  refine ⟨cached, hlen, hlen', hcache, ?_⟩
  rw [hrest, List.take_append_of_le_length (by omega)]

theorem Cached.drain (h : c.Cached bits used) (hleft : c.bitsLeft ≤ 0)
    (hpos : 0 < c.cachedBits + c.bitsLeft) : c.drain.Cached bits used := by
  obtain ⟨cached, hlen, hlen', hcache, hrest⟩ := h.rest_of_nonpos hleft
  have htotal := h.total
  have hdrop : (bits.drop used).length = (c.cachedBits + c.bitsLeft).toNat := by
    rw [List.length_drop]
    omega
  refine ⟨⟨bits.drop used, ?_, ?_, ?_, ?_⟩, ?_, h.le, ?_, h.ptr, h.pad⟩
  · show _ = c.cachedBits + c.bitsLeft
    omega
  · omega
  · show c.cache &&& topMask (c.cachedBits + c.bitsLeft) = _
    have hmask : (32 - (c.cachedBits + c.bitsLeft)).toNat =
        32 - (c.cachedBits + c.bitsLeft).toNat := by omega
    rw [topMask, hmask, hcache, and_mask (field_lt _ _) (Nat.sub_le _ _), field_take (by omega),
      hrest]
  · show bits.drop used = (bits.drop used ++ _).take (c.cachedBits + c.bitsLeft + 0).toNat
    rw [Int.add_zero, ← hdrop, List.take_left]
  · show c.cachedBits + c.bitsLeft + 0 = _
    omega
  · have := h.ptr
    show 8 * (c.ptr : ℤ) + 0 ≤ 8 * c.buf.length
    omega

theorem Cached.padWith (h : c.Cached bits used) (hleft : c.bitsLeft = 0) :
    (c.padWith pad).Padded pad bits used := by
  obtain ⟨cached, hlen, hlen', hcache, hrest⟩ := h.rest_of_nonpos hleft.le
  have hall : bits.drop used = cached := by
    rw [hrest, List.take_of_length_le (by omega)]
  have htotal := h.total
  refine ⟨hall ▸ hcache, ?_, hleft, hall ▸ hlen', rfl⟩
  show c.cachedBits + pad = _
  omega

/-! ### Refilling -/

theorem load_of_lt (h : c.ptr < c.buf.length) (shift : ℤ) :
    c.load shift = .ok
      { c with
        ptr := c.ptr + 1
        cache := c.cache ||| (c.buf.getD c.ptr 0).toNat <<< shift.toNat % 2 ^ 32 } :=
  if_pos h

/-- The last bits, whether they are in no byte, in one or in two. -/
theorem refill_last (h : c.ptr + (if 0 < c.bitsLeft then 1 else 0) +
      (if 8 < c.bitsLeft then 1 else 0) ≤ c.buf.length) (hleft : c.bitsLeft < 16)
    (hpos : 0 < c.cachedBits + c.bitsLeft) :
    c.refill pad = .ok ((if 8 < c.bitsLeft then c.next.next else
      if 0 < c.bitsLeft then c.next else c).drain.padWith pad) := by
  have hsum : c.cachedBits + 8 + (c.bitsLeft - 8) = c.cachedBits + c.bitsLeft := by ring
  have hsum' : c.cachedBits + 8 + 8 + (c.bitsLeft - 8 - 8) = c.cachedBits + c.bitsLeft := by ring
  have hshift : 24 - (c.cachedBits + 8) = 16 - c.cachedBits := by ring
  unfold refill loadIf
  rw [if_neg (by omega), if_neg (by omega)]
  by_cases h8 : 8 < c.bitsLeft
  · have h0 : 0 < c.bitsLeft := by omega
    rw [if_pos h0, if_pos h8] at h
    rw [if_pos h0, if_pos h8, load_of_lt (by omega), Except.bind, if_pos h8,
      load_of_lt (show c.ptr + 1 < c.buf.length by omega), Except.map]
    unfold drain next
    simp only [hsum', hshift]
  · by_cases h0 : 0 < c.bitsLeft
    · rw [if_pos h0, if_neg h8] at h
      rw [if_pos h0, if_neg h8, if_pos h0, load_of_lt (by omega), Except.bind, if_neg h8,
        Except.map]
      unfold drain next
      simp only [hsum]
    · rw [if_neg h0, if_neg h8, if_neg h0, Except.bind, if_neg h8, Except.map]

theorem refill_more (h : c.ptr + 2 ≤ c.buf.length) (hleft : 16 ≤ c.bitsLeft) :
    c.refill pad = .ok c.next.next := by
  have hshift : 24 - (c.cachedBits + 8) = 16 - c.cachedBits := by ring
  unfold refill
  rw [if_pos hleft, load_of_lt (by omega), Except.bind,
    load_of_lt (show c.ptr + 1 < c.buf.length by omega), Except.map]
  unfold next
  simp only [hshift]
  congr 2
  · ring
  · ring

/-- **A refill**, where there are bits left. -/
theorem Cached.refill (h : c.Cached bits used) (hbits : c.cachedBits ≤ 10)
    (hlt : used < bits.length)
    (hpad : pad ≤ 16) :
    ∃ d, c.refill pad = .ok d ∧ d.Holds pad pad bits used := by
  have htotal := h.total
  have hfits := h.fits
  have hptr := h.ptr
  have hcached : 0 ≤ c.cachedBits := by
    obtain ⟨cached, hlen, -⟩ := h.cache
    omega
  rcases Int.lt_or_le c.bitsLeft 16 with hleft | hleft
  · -- the last bytes: what is behind the last bit is drained, and the padding follows
    refine ⟨_, refill_last ?_ hleft (by omega), Or.inr ?_⟩
    · split_ifs <;> omega
    · split_ifs with h8 h0
      · have h₁ := h.next (by omega) (by omega)
        have h₂ := h₁.next (show 0 < c.bitsLeft - 8 by omega) (show c.cachedBits + 8 ≤ 24 by omega)
        have h₃ := h₂.drain (show c.bitsLeft - 8 - 8 ≤ 0 by omega)
          (show 0 < c.cachedBits + 8 + 8 + (c.bitsLeft - 8 - 8) by omega)
        exact h₃.padWith rfl
      · have h₁ := h.next h0 (by omega)
        have h₂ := h₁.drain (show c.bitsLeft - 8 ≤ 0 by omega)
          (show 0 < c.cachedBits + 8 + (c.bitsLeft - 8) by omega)
        exact h₂.padWith rfl
      · exact (h.drain (by omega) (by omega)).padWith rfl
  · refine ⟨_, refill_more (by omega) hleft, Or.inl ⟨?_, ?_, ?_⟩⟩
    · exact (h.next (by omega) (by omega)).next (show 0 < c.bitsLeft - 8 by omega)
        (show c.cachedBits + 8 ≤ 24 by omega)
    · show 0 ≤ c.bitsLeft - 8 - 8
      omega
    · show pad ≤ c.cachedBits + 8 + 8
      omega

/-! ### Using bits -/

theorem Holds.mono {m' : ℤ} (h : c.Holds pad m bits used) (hm : m' ≤ m) :
    c.Holds pad m' bits used :=
  h.imp (fun ⟨hc, hleft, hle⟩ => ⟨hc, hleft, hm.trans hle⟩) id

theorem Holds.peek (h : c.Holds pad n bits used) (hn : n ≤ 32) :
    c.peek n = field (bits.drop used) n := by
  rw [HuffCache.peek, Nat.shiftRight_eq_div_pow]
  rcases h with ⟨hc, hleft, hm⟩ | hp
  · obtain ⟨cached, hlen, hlen', hcache, hrest⟩ := hc.cache
    have hsplit : bits.drop used = cached ++
        (ofBytes (c.buf.drop c.ptr)).take c.bitsLeft.toNat := by
      rw [hrest, Int.toNat_add (by omega) hleft, ← hlen, Int.toNat_natCast,
        List.take_length_add_append]
    rw [hcache, field_div hn, hsplit, field_append_left (by omega)]
  · rw [hp.cache, field_div hn]

theorem Holds.skip (h : c.Holds pad (m + n) bits used) (hm : 0 ≤ m) :
    (c.skip n).Holds pad m bits (used + n) := by
  -- before the padding the bits are in the cache, and behind it the count says how many are left
  rcases h with ⟨hc, hleft, hle⟩ | hp
  · obtain ⟨cached, hlen, hlen', hcache, hrest⟩ := hc.cache
    have htotal := hc.total
    have hused := hc.le
    refine Or.inl ⟨⟨⟨cached.drop n, ?_, ?_, ?_, ?_⟩, ?_, ?_, hc.fits, hc.ptr, hc.pad⟩, hleft, ?_⟩
    · rw [List.length_drop]
      show _ = c.cachedBits - n
      omega
    · rw [List.length_drop]
      omega
    · show c.cache <<< n % 2 ^ 32 = _
      rw [hcache, Nat.shiftLeft_eq, field_shl hlen']
    · rw [← List.drop_drop, hrest]
      show _ = (cached.drop n ++ ofBytes (c.buf.drop c.ptr)).take
        (c.cachedBits - n + c.bitsLeft).toNat
      rw [List.drop_take, List.drop_append_of_le_length (by omega)]
      congr 1
      omega
    · show c.cachedBits - n + c.bitsLeft = _
      push_cast
      omega
    · omega
    · show m ≤ c.cachedBits - n
      omega
  · refine Or.inr ⟨?_, ?_, hp.left, ?_, hp.pad⟩
    · show c.cache <<< n % 2 ^ 32 = _
      rw [hp.cache, Nat.shiftLeft_eq, field_shl hp.length, List.drop_drop]
    · show c.cachedBits - n = _
      rw [hp.cached]
      push_cast
      ring
    · rw [← List.drop_drop, List.length_drop]
      exact (Nat.sub_le _ _).trans hp.length

/-- What has been used is behind the end exactly if zeros of the padding have been. -/
theorem Holds.over_iff (h : c.Holds pad 0 bits used) :
    c.cachedBits < c.padBits ↔ bits.length < used := by
  rcases h with ⟨hc, -, hle⟩ | hp
  · have := hc.le
    rw [hc.pad]
    omega
  · rw [hp.cached, hp.pad]
    omega

/-- The bits that are left. -/
theorem Holds.left (h : c.Holds pad m bits used) :
    c.bitsLeft + (c.cachedBits - c.padBits) = bits.length - used := by
  rcases h with ⟨hc, -, -⟩ | hp
  · have := hc.total
    rw [hc.pad]
    omega
  · rw [hp.cached, hp.pad, hp.left]
    ring

/-! ### Code words -/

/-- The cache in front of a code word: also as it is at the start. -/
def Ready (pad : ℤ) (bits : List Bool) (used : ℕ) (c : HuffCache) : Prop :=
  c.Holds pad 0 bits used ∨ c.Cached bits used ∧ 0 ≤ c.cachedBits ∧ c.cachedBits < 8

theorem Ready.ensure (h : c.Ready pad bits used) (hlt : used < bits.length) (hpad : 8 ≤ pad)
    (hpad' : pad ≤ 11) : ∃ d, c.ensure pad = .ok d ∧ d.Holds pad pad bits used := by
  unfold HuffCache.ensure
  rcases h with (⟨hc, hleft, -⟩ | hp) | ⟨hc, -, h8⟩
  · by_cases hfew : c.cachedBits < pad
    · rw [if_pos hfew]
      exact hc.refill (by omega) hlt (by omega)
    · rw [if_neg hfew]
      exact ⟨c, rfl, Or.inl ⟨hc, hleft, not_lt.mp hfew⟩⟩
  · have hcached := hp.cached
    rw [if_neg (by omega)]
    exact ⟨c, rfl, Or.inr hp⟩
  · rw [if_pos (by omega)]
    exact hc.refill (by omega) hlt (by omega)

/-- Behind the last bit. -/
theorem Ready.at_end (h : c.Ready pad bits bits.length) (hpad : 8 ≤ pad) :
    (c.cachedBits < pad ∧ c.bitsLeft < 16 ∧ c.cachedBits + c.bitsLeft ≤ 0) ∨
      c.Padded pad bits bits.length ∧ pad ≤ c.cachedBits := by
  rcases h with (⟨hc, hleft, -⟩ | hp) | ⟨hc, h0, h8⟩
  · have htotal := hc.total
    obtain ⟨cached, hlen, -⟩ := hc.cache
    exact Or.inl ⟨by omega, by omega, by omega⟩
  · have hcached := hp.cached
    exact Or.inr ⟨hp, by omega⟩
  · have htotal := hc.total
    exact Or.inl ⟨by omega, by omega, by omega⟩

theorem Ready.not_at_end (h : c.Ready pad bits used) (hlt : used < bits.length) :
    ¬(c.cachedBits < pad ∧ c.bitsLeft < 16 ∧ c.cachedBits + c.bitsLeft ≤ 0) := by
  rcases h with (⟨hc, -, -⟩ | hp) | ⟨hc, -, -⟩
  · have htotal := hc.total
    omega
  · have hcached := hp.cached
    omega
  · have htotal := hc.total
    omega

/-- The bits of the byte that the codes start in. -/
theorem startBits : ∀ bitOffset < 8, bitOffset = 0 ∧ (8 - bitOffset) &&& 0x07 = 0 ∨
    0 < bitOffset ∧ (8 - bitOffset) &&& 0x07 = 8 - bitOffset := by
  decide

/-- **The codes start** in the middle of a byte. -/
theorem start_spec {buf : List UInt8} {bitOffset : ℕ} {bitsLeft : ℤ} (pad : ℤ)
    (hoff : bitOffset < 8) (hleft : 0 ≤ bitsLeft) (hlen : bitOffset + bitsLeft ≤ 8 * buf.length) :
    ∃ c, start buf bitOffset bitsLeft = .ok c ∧
      c.Ready pad (((ofBytes buf).drop bitOffset).take bitsLeft.toNat) 0 := by
  obtain ⟨bits, hbits⟩ : ∃ bits, ((ofBytes buf).drop bitOffset).take bitsLeft.toNat = bits :=
    ⟨_, rfl⟩
  have hcount : (bits.length : ℤ) = bitsLeft := by
    rw [← hbits, List.length_take, List.length_drop, length_ofBytes]
    omega
  obtain ⟨n, hn, hn7⟩ : ∃ n, (8 - bitOffset) &&& 0x07 = n ∧ (bitOffset = 0 ∧ n = 0 ∨
      0 < bitOffset ∧ n = 8 - bitOffset) := ⟨_, rfl, startBits bitOffset hoff⟩
  unfold start
  dsimp only
  rw [hn, hbits]
  rcases hn7 with ⟨h0, rfl⟩ | ⟨hpos, hn8⟩
  · -- at the start of a byte the cache is empty
    refine ⟨_, if_neg (by simp), Or.inr ⟨⟨⟨[], rfl, by simp, rfl, ?_⟩, ?_, Nat.zero_le _, ?_,
      Nat.zero_le _, rfl⟩, le_refl (0 : ℤ), show (0 : ℤ) < 8 by decide⟩⟩
    · show bits.drop 0 = (ofBytes (buf.drop 0)).take (0 + (bitsLeft - 0)).toNat
      rw [List.drop_zero, List.drop_zero, ← hbits, h0, List.drop_zero, Int.sub_zero, Int.zero_add]
    · show (0 : ℤ) + (bitsLeft - 0) = bits.length - 0
      omega
    · show 8 * (0 : ℤ) + (bitsLeft - 0) ≤ 8 * buf.length
      omega
  · -- otherwise it has what is left of the byte
    obtain ⟨b, rest, rfl⟩ : ∃ b rest, buf = b :: rest := by
      cases buf with
      | nil => exact absurd hlen (by simp; omega)
      | cons b rest => exact ⟨b, rest, rfl⟩
    refine ⟨_, (if_pos (by omega)).trans (load_of_lt (by simp) _),
      Or.inr ⟨⟨⟨(ofByte b).drop bitOffset, ?_, ?_, ?_, ?_⟩, ?_, Nat.zero_le _, ?_, ?_, rfl⟩, ?_, ?_⟩⟩
    · rw [List.length_drop, length_ofByte]
      show _ = (n : ℤ)
      omega
    · rw [List.length_drop, length_ofByte]
      omega
    · show 0 ||| b.toNat <<< ((32 : ℤ) - n).toNat % 2 ^ 32 = _
      have hbyte : (ofByte b).length ≤ 32 := by
        rw [length_ofByte]
        decide
      -- the shift that aligns the rest of the byte drops the bits in front of it
      have hreg := field_shl (m := bitOffset) hbyte
      have hpow : 2 ^ (32 - 8) * 2 ^ bitOffset = 2 ^ (32 - n) := by
        rw [← Nat.pow_add]
        congr 1
        omega
      rw [field_of_ge (by rw [length_ofByte]; omega), value_ofByte, length_ofByte, Nat.mul_assoc,
        hpow] at hreg
      rw [Nat.zero_or, show ((32 : ℤ) - n).toNat = 32 - n by omega, Nat.shiftLeft_eq, hreg]
    · show bits.drop 0 =
        ((ofByte b).drop bitOffset ++ ofBytes rest).take ((n : ℤ) + (bitsLeft - n)).toNat
      rw [List.drop_zero, ← hbits, ofBytes_cons,
        List.drop_append_of_le_length (by rw [length_ofByte]; omega),
        show (n : ℤ) + (bitsLeft - n) = bitsLeft by ring]
    · show (n : ℤ) + (bitsLeft - n) = bits.length - 0
      omega
    · rw [List.length_cons] at hlen ⊢
      push_cast at hlen ⊢
      show 8 * (1 : ℤ) + (bitsLeft - n) ≤ 8 * (rest.length + 1)
      omega
    · show 1 ≤ (b :: rest).length
      simp
    · show (0 : ℤ) ≤ n
      omega
    · show (n : ℤ) < 8
      omega

end

end HuffCache

/-! ### Decoding bit by bit -/

/-- The sign of a value that is not zero is the next bit. -/
def plainSign (bits : List Bool) (x used : ℕ) : ℕ × ℕ :=
  if x ≠ 0 then (x ||| field (bits.drop used) 1 * 2 ^ 31, used + 1) else (x, used)

/-- One quad, and the number of bits that have been used then. -/
def plainQuad (tabIdx : ℕ) (bits : List Bool) (used : ℕ) : List ℕ × ℕ :=
  let cw := quadEntry tabIdx (field (bits.drop used) (quadTabMaxBits.getD tabIdx 0))
  let v := plainSign bits (getCWVQ cw) (used + getHLenQ cw)
  let w := plainSign bits (getCWWQ cw) v.2
  let x := plainSign bits (getCWXQ cw) w.2
  let y := plainSign bits (getCWYQ cw) x.2
  ([v.1, w.1, x.1, y.1], y.2)

/-- At most `n` quads, as far as there are bits for them. -/
def plainQuads (tabIdx : ℕ) (bits : List Bool) : ℕ → ℕ → List ℕ
  | 0, _ => []
  | n + 1, used =>
    let q := plainQuad tabIdx bits used
    if q.2 ≤ bits.length then q.1 ++ plainQuads tabIdx bits n q.2 else []

theorem le_plainSign (bits : List Bool) (x used : ℕ) : used ≤ (plainSign bits x used).2 := by
  unfold plainSign
  split_ifs
  · exact Nat.le_succ used
  · exact le_rfl

section

variable {c : HuffCache} {bits : List Bool} {used : ℕ} {pad m : ℤ}

theorem HuffCache.Holds.sign (h : c.Holds pad (m + 1) bits used) (hm : 0 ≤ m) (x : ℕ) :
    (c.sign x).1 = (plainSign bits x used).1 ∧
      (c.sign x).2.Holds pad m bits (plainSign bits x used).2 := by
  unfold HuffCache.sign plainSign
  split_ifs
  · refine ⟨?_, Holds.skip (n := 1) h hm⟩
    have hpeek := Holds.peek (n := 1) (h.mono (by push_cast; omega)) (by decide)
    rw [HuffCache.peek, Nat.shiftRight_eq_div_pow] at hpeek
    have hlt : c.cache < 2 ^ 32 := by
      rcases h with ⟨hc, -, -⟩ | hp
      · obtain ⟨cached, -, -, hcache, -⟩ := hc.cache
        exact hcache ▸ field_lt _ _
      · exact hp.cache ▸ field_lt _ _
    have hmask := and_mask (k := 31) hlt (by decide)
    rw [← hpeek]
    exact congrArg (x ||| ·) hmask
  · exact ⟨rfl, h.mono (by omega)⟩

/-! ### Quads -/

theorem quadEntry_len : ∀ tabIdx < 2, ∀ i < 2 ^ quadTabMaxBits.getD tabIdx 0,
    0 < getHLenQ (quadEntry tabIdx i) ∧ getHLenQ (quadEntry tabIdx i) ≤ 6 := by
  decide

theorem quadTabMaxBits_le : ∀ tabIdx < 2, quadTabMaxBits.getD tabIdx 0 ≤ 6 := by
  decide

theorem lt_plainQuad {tabIdx : ℕ} (htab : tabIdx < 2) (bits : List Bool) (used : ℕ) :
    used < (plainQuad tabIdx bits used).2 := by
  have hlen := (quadEntry_len tabIdx htab _ (field_lt (bits.drop used) _)).1
  exact (Nat.lt_add_of_pos_right hlen).trans_le ((le_plainSign _ _ _).trans
    ((le_plainSign _ _ _).trans ((le_plainSign _ _ _).trans (le_plainSign _ _ _))))

theorem decodeQuad_spec {tabIdx : ℕ} (htab : tabIdx < 2) (h : c.Holds 10 10 bits used) :
    (decodeQuad tabIdx c).1 = (plainQuad tabIdx bits used).1 ∧
      (decodeQuad tabIdx c).2.Holds 10 0 bits (plainQuad tabIdx bits used).2 := by
  obtain ⟨maxBits, hmax⟩ : ∃ maxBits, quadTabMaxBits.getD tabIdx 0 = maxBits := ⟨_, rfl⟩
  have hmax6 : maxBits ≤ 6 := hmax ▸ quadTabMaxBits_le tabIdx htab
  have hpeek := HuffCache.Holds.peek (n := maxBits) (h.mono (by omega)) (by omega)
  unfold decodeQuad plainQuad
  dsimp only
  rw [hmax, hpeek]
  obtain ⟨cw, hcw⟩ : ∃ cw, quadEntry tabIdx (field (bits.drop used) maxBits) = cw := ⟨_, rfl⟩
  have hlen : getHLenQ cw ≤ 6 := by
    rw [← hcw, ← hmax]
    exact (quadEntry_len tabIdx htab _ (field_lt _ _)).2
  rw [hcw]
  have h₀ := HuffCache.Holds.skip (n := getHLenQ cw) (m := 4) (h.mono (by omega)) (by decide)
  obtain ⟨hv, h₁⟩ := HuffCache.Holds.sign (m := 3) h₀ (by decide) (getCWVQ cw)
  obtain ⟨hw, h₂⟩ := HuffCache.Holds.sign (m := 2) h₁ (by decide) (getCWWQ cw)
  obtain ⟨hx, h₃⟩ := HuffCache.Holds.sign (m := 1) h₂ (by decide) (getCWXQ cw)
  obtain ⟨hy, h₄⟩ := HuffCache.Holds.sign (m := 0) h₃ (by decide) (getCWYQ cw)
  rw [hv, hw, hx, hy]
  exact ⟨rfl, h₄⟩

theorem quadsLoop_spec {tabIdx : ℕ} (htab : tabIdx < 2) (n : ℕ) (h : c.Ready 10 bits used)
    (hle : used ≤ bits.length) :
    quadsLoop tabIdx n c = .ok (plainQuads tabIdx bits n used) := by
  induction n generalizing c used with
  | zero => rfl
  | succ n ih =>
    have hlt := lt_plainQuad htab bits used
    unfold quadsLoop plainQuads
    dsimp only
    rcases Nat.lt_or_eq_of_le hle with hused | rfl
    · obtain ⟨d, hd, hholds⟩ := h.ensure hused (by decide) (by decide)
      obtain ⟨hval, hholds'⟩ := decodeQuad_spec htab hholds
      rw [if_neg (h.not_at_end hused), hd, Except.bind]
      by_cases hover : bits.length < (plainQuad tabIdx bits used).2
      · rw [if_pos (hholds'.over_iff.mpr hover), if_neg (by omega)]
      · rw [if_neg (mt hholds'.over_iff.mp hover), if_pos (not_lt.mp hover),
          ih (Or.inl hholds') (not_lt.mp hover), hval, Except.map]
    · -- there is no bit left: zeros of the padding would be used
      rw [if_neg (show ¬(plainQuad tabIdx bits bits.length).2 ≤ bits.length by omega)]
      rcases h.at_end (by decide) with hend | ⟨hp, hcached⟩
      · rw [if_pos hend]
      · obtain ⟨-, hholds'⟩ := decodeQuad_spec (c := c) htab (Or.inr hp)
        rw [if_neg (by omega), HuffCache.ensure, if_neg (by omega), Except.bind,
          if_pos (hholds'.over_iff.mpr hlt)]

end

/-- **Quads**: the cache with its padding decodes what is decoded bit by bit, and no byte behind the
last one is read. -/
theorem quads_plain (nVals tabIdx : ℕ) (bitsLeft : ℤ) (buf : List UInt8) (bitOffset : ℕ)
    (htab : tabIdx < 2) (hoff : bitOffset < 8) (hlen : bitOffset + bitsLeft ≤ 8 * buf.length) :
    decodeHuffmanQuads nVals tabIdx bitsLeft buf bitOffset =
      .ok (plainQuads tabIdx (((ofBytes buf).drop bitOffset).take bitsLeft.toNat) (nVals / 4) 0) := by
  unfold decodeHuffmanQuads
  by_cases hleft : bitsLeft ≤ 0
  · rw [if_pos hleft, Int.toNat_of_nonpos hleft, List.take_zero]
    cases nVals / 4 with
    | zero => rfl
    | succ n =>
      have hlt := lt_plainQuad htab [] 0
      rw [plainQuads, if_neg (by rw [List.length_nil]; omega)]
  · obtain ⟨c, hc, hready⟩ := HuffCache.start_spec 10 hoff (by omega) hlen
    rw [if_neg hleft, hc, Except.bind]
    exact quadsLoop_spec htab _ hready (Nat.zero_le _)

end AudioPipeline
