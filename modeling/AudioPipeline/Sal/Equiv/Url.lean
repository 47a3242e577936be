import AudioPipeline.Sal.Url
import Mathlib.Data.Fintype.Basic
import Mathlib.Tactic.Common

/-!
# Decoding undoes encoding

`encodeByte` is what `audio_url_encode` writes for one byte.  Everything that has to be known of it
is a fact about the 256 bytes (`encodeByte_spec`); the two loops are then followed by induction on
the string, with `OutBlock.write` for what they write.
-/

namespace AudioPipeline

namespace OutBlock

/-- The bytes are written one after the other. -/
def write (b : OutBlock) : List UInt8 → Option OutBlock
  | [] => some b
  | c :: cs => (b.put c).bind (write · cs)

theorem write_singleton (b : OutBlock) (c : UInt8) : b.write [c] = b.put c :=
  Option.bind_fun_some _

theorem write_append (b : OutBlock) (cs ds : List UInt8) :
    b.write (cs ++ ds) = (b.write cs).bind (·.write ds) := by
  induction cs generalizing b with
  | nil => rfl
  | cons c cs ih =>
    rw [List.cons_append, write, write, Option.bind_assoc]
    exact congrArg _ (funext fun b => ih b)

/-- **What fits is written.** -/
theorem write_fits (b : OutBlock) {cs : List UInt8} (h : b.bytes.length + cs.length ≤ b.size) :
    ∃ b', b.write cs = some b' ∧ b'.size = b.size ∧ b'.bytes = b.bytes ++ cs := by
  induction cs generalizing b with
  | nil => exact ⟨b, rfl, rfl, (List.append_nil _).symm⟩
  | cons c cs ih =>
    rw [List.length_cons] at h
    have hput : b.bytes.length < b.size := by omega
    have hfits : (b.bytes ++ [c]).length + cs.length ≤ b.size := by
      rw [List.length_append, List.length_singleton]
      omega
    obtain ⟨b', hb', hsize, hbytes⟩ := ih ⟨b.size, b.bytes ++ [c], by omega⟩ hfits
    refine ⟨b', ?_, hsize, ?_⟩
    · rw [write, put, dif_pos hput]
      exact hb'
    · rw [hbytes, List.append_assoc]
      rfl

end OutBlock

/-- The characters that the header calls reserved: letters, digits and these. -/
def IsReserved (c : UInt8) : Prop :=
  0x41 ≤ c ∧ c ≤ 0x5A ∨ 0x61 ≤ c ∧ c ≤ 0x7A ∨ 0x30 ≤ c ∧ c ≤ 0x39 ∨
    Char.ofNat c.toNat ∈ "~!@#$&*()=:/,;?+'-_.".toList

/-- The digits of `char_to_hex`. -/
def IsUpperHex (c : UInt8) : Prop := 0x30 ≤ c ∧ c ≤ 0x39 ∨ 0x41 ≤ c ∧ c ≤ 0x46

instance : DecidablePred IsReserved := fun _ => inferInstanceAs (Decidable (_ ∨ _))
instance : DecidablePred IsUpperHex := fun _ => inferInstanceAs (Decidable (_ ∨ _))

/-- What `audio_url_encode` writes for one byte. -/
def encodeByte (c : UInt8) : List UInt8 :=
  if passesThrough c then [c] else [0x25, charToHex (c >>> 4), charToHex (c % 16)]

/-- **One byte**: what is copied is reserved, and `%` is not copied; two digits lead back to the
byte they were written for. -/
structure EncodesByte (c : UInt8) : Prop where
  copied : passesThrough c = true → IsReserved c ∧ c ≠ 0x25
  digits : IsUpperHex (charToHex (c >>> 4)) ∧ IsUpperHex (charToHex (c % 16))
  decoded : longToChar (strtol16 [charToHex (c >>> 4), charToHex (c % 16), 0]) = c

theorem encodesByte (c : UInt8) : EncodesByte c := by
  have hall : ∀ n : Fin 256, (passesThrough (UInt8.ofNat n) = true →
        IsReserved (UInt8.ofNat n) ∧ UInt8.ofNat n ≠ 0x25) ∧
      (IsUpperHex (charToHex (UInt8.ofNat n >>> 4)) ∧
        IsUpperHex (charToHex (UInt8.ofNat n % 16))) ∧
      longToChar (strtol16 [charToHex (UInt8.ofNat n >>> 4), charToHex (UInt8.ofNat n % 16), 0]) =
        UInt8.ofNat n := by
    decide +kernel
  have hc : UInt8.ofNat (⟨c.toNat, c.toNat_lt⟩ : Fin 256) = c := UInt8.ofNat_toNat
  have ⟨hcopied, hdigits, hdecoded⟩ := hall ⟨c.toNat, c.toNat_lt⟩
  rw [hc] at hcopied hdigits hdecoded
  exact ⟨hcopied, hdigits, hdecoded⟩

/-- What the encoder may write: `%`, an uppercase digit or a reserved character; it never writes a
terminator. -/
theorem mem_encodeByte {c d : UInt8} (hd : d ∈ encodeByte c) :
    d = 0x25 ∨ IsUpperHex d ∨ IsReserved d := by
  have hspec := encodesByte c
  unfold encodeByte at hd
  split_ifs at hd with hpass
  · rw [List.mem_singleton] at hd
    rw [hd]
    exact Or.inr (Or.inr (hspec.copied hpass).1)
  · simp only [List.mem_cons, List.not_mem_nil, or_false] at hd
    rcases hd with rfl | rfl | rfl
    · exact Or.inl rfl
    · exact Or.inr (Or.inl hspec.digits.1)
    · exact Or.inr (Or.inl hspec.digits.2)

/-- None of these is the terminator. -/
theorem encoded_ne_zero {d : UInt8} (hd : d = 0x25 ∨ IsUpperHex d ∨ IsReserved d) : d ≠ 0 := by
  rintro rfl
  revert hd
  decide

theorem length_encodeByte (c : UInt8) :
    1 ≤ (encodeByte c).length ∧ (encodeByte c).length ≤ 3 := by
  unfold encodeByte
  split_ifs <;> simp

/-! ### The two loops -/

theorem urlEncodeLoop_eq (s : List UInt8) (final : OutBlock) :
    urlEncodeLoop s final = final.write (s.flatMap encodeByte) := by
  induction s generalizing final with
  | nil => rfl
  | cons c s ih =>
    have hloop : urlEncodeLoop s = (·.write (s.flatMap encodeByte)) := funext ih
    rw [List.flatMap_cons, OutBlock.write_append, urlEncodeLoop, hloop, encodeByte]
    split_ifs with hpass
    · rw [OutBlock.write_singleton]
    · simp only [OutBlock.write, Option.bind_assoc, Option.bind_some]

/-- **The decoder takes one byte** off what the encoder wrote for it, and cannot take an escape for
anything else. -/
theorem urlDecodeLoop_encodeByte {c : UInt8} (hc : c ≠ 0) (rest : List UInt8) (final : OutBlock) :
    urlDecodeLoop (encodeByte c ++ rest) final = (final.put c).bind (urlDecodeLoop rest) := by
  have hspec := encodesByte c
  unfold encodeByte
  split_ifs with hpass
  · have hpercent := (hspec.copied hpass).2
    rw [List.singleton_append, urlDecodeLoop]
    · exact hc
    · exact fun _ _ _ h _ => hpercent h
    · exact hpercent
  · simp only [List.cons_append, List.nil_append]
    rw [urlDecodeLoop, hspec.decoded]

theorem urlDecodeLoop_flatMap {s : List UInt8} (hs : 0 ∉ s) (rest : List UInt8) (final : OutBlock) :
    urlDecodeLoop (s.flatMap encodeByte ++ 0 :: rest) final = final.write s := by
  induction s generalizing final with
  | nil => rfl
  | cons c s ih =>
    rw [List.mem_cons, not_or] at hs
    have htail : urlDecodeLoop (s.flatMap encodeByte ++ 0 :: rest) = (·.write s) :=
      funext (ih hs.2)
    rw [List.flatMap_cons, List.append_assoc, urlDecodeLoop_encodeByte (Ne.symm hs.1), htail]
    rfl

/-! ### The functions -/

theorem strlen_eq {s : List UInt8} (hs : 0 ∉ s) (rest : List UInt8) :
    strlen (s ++ 0 :: rest) = some s.length := by
  have hmem : (0 : UInt8) ∈ s ++ 0 :: rest := by
    simp
  rw [strlen, if_pos hmem, List.takeWhile_append_of_pos]
  · simp
  · intro c hc
    have hne : c ≠ 0 := fun h => hs (h ▸ hc)
    simpa using hne

theorem length_flatMap (s : List UInt8) : s.length ≤ (s.flatMap encodeByte).length ∧
    (s.flatMap encodeByte).length ≤ 3 * s.length := by
  induction s with
  | nil => exact ⟨Nat.zero_le _, Nat.zero_le _⟩
  | cons c s ih =>
    have hc := length_encodeByte c
    rw [List.flatMap_cons, List.length_append, List.length_cons]
    omega

/-- The size of the block survives the detour over `int`. -/
theorem intToSize_sizeToInt {n : ℕ} (h : n < 2 ^ 31) : intToSize (sizeToInt (n % 2 ^ 64)) = n := by
  have hmod : n % 2 ^ 64 = n := Nat.mod_eq_of_lt (by omega)
  have hint : sizeToInt n = n := by
    refine Int.bmod_eq_of_le_mul_two ?_ ?_ <;> omega
  have hsize : intToSize n = n := by
    unfold intToSize
    omega
  rw [hmod, hint, hsize]

/-- **Encoding** fills the block it allocates with what it writes for the bytes, and a
terminator. -/
theorem audioUrlEncode_eq {s : List UInt8} (hs : 0 ∉ s) (hint : 3 * (s.length + 1) < 2 ^ 31)
    (rest : List UInt8) :
    ∃ enc, audioUrlEncode true (s ++ 0 :: rest) = .block enc ∧ enc.size = 3 * (s.length + 1) ∧
      enc.bytes = s.flatMap encodeByte ++ [0] := by
  have hlen := length_flatMap s
  have hsize : intToSize (sizeToInt ((s.length + 1) * 3 % 2 ^ 64)) = 3 * (s.length + 1) := by
    rw [Nat.mul_comm]
    exact intToSize_sizeToInt hint
  have hfits : (OutBlock.new (3 * (s.length + 1))).bytes.length +
      (s.flatMap encodeByte ++ [0]).length ≤ 3 * (s.length + 1) := by
    rw [List.length_append, List.length_singleton]
    show 0 + _ ≤ _
    omega
  obtain ⟨enc, hwrite, hsz, hbytes⟩ := OutBlock.write_fits _ hfits
  refine ⟨enc, ?_, hsz, hbytes⟩
  have hloop : (urlEncodeLoop s (.new (3 * (s.length + 1)))).bind (·.put 0) = some enc := by
    rw [urlEncodeLoop_eq, ← hwrite, OutBlock.write_append]
    simp only [OutBlock.write_singleton]
  simp only [audioUrlEncode, strlen_eq hs rest, hsize, List.take_left, if_true, hloop]

/-- **Decoding** what was encoded. -/
theorem audioUrlDecode_eq {s : List UInt8} (hs : 0 ∉ s) (rest : List UInt8) :
    ∃ dec, audioUrlDecode true (s.flatMap encodeByte ++ 0 :: rest) = .block dec ∧
      dec.size = (s.flatMap encodeByte).length + 1 ∧ dec.bytes = s ++ [0] := by
  have hzero : 0 ∉ s.flatMap encodeByte := by
    intro hmem
    obtain ⟨c, _, hc⟩ := List.mem_flatMap.mp hmem
    exact encoded_ne_zero (mem_encodeByte hc) rfl
  have hlen := length_flatMap s
  have hfits : (OutBlock.new ((s.flatMap encodeByte).length + 1)).bytes.length +
      (s ++ [0]).length ≤ (s.flatMap encodeByte).length + 1 := by
    rw [List.length_append, List.length_singleton]
    show 0 + _ ≤ _
    omega
  obtain ⟨dec, hwrite, hsize, hbytes⟩ := OutBlock.write_fits _ hfits
  refine ⟨dec, ?_, hsize, hbytes⟩
  have hloop : (urlDecodeLoop (s.flatMap encodeByte ++ 0 :: rest)
      (.new ((s.flatMap encodeByte).length + 1))).bind (·.put 0) = some dec := by
    rw [urlDecodeLoop_flatMap hs, ← hwrite, OutBlock.write_append]
    simp only [OutBlock.write_singleton]
  simp only [audioUrlDecode, strlen_eq hzero rest, if_true, hloop]

/-- **Decoding undoes encoding**, whatever lies in memory behind the terminators. -/
theorem url_decode_encode (s pad : List UInt8) (hs : 0 ∉ s) (hint : 3 * (s.length + 1) < 2 ^ 31) :
    ∃ enc t, audioUrlEncode true (s ++ 0 :: pad) = .block enc ∧ enc.size = 3 * (s.length + 1) ∧
      enc.bytes = t ++ [0] ∧ (∀ d ∈ t, d = 0x25 ∨ IsUpperHex d ∨ IsReserved d) ∧
      ∀ pad', ∃ dec, audioUrlDecode true (enc.bytes ++ pad') = .block dec ∧
        dec.size = t.length + 1 ∧ dec.bytes = s ++ [0] := by
  obtain ⟨enc, henc, hsize, hbytes⟩ := audioUrlEncode_eq hs hint pad
  refine ⟨enc, s.flatMap encodeByte, henc, hsize, hbytes, ?_, fun pad' => ?_⟩
  · intro d hd
    obtain ⟨c, _, hdc⟩ := List.mem_flatMap.mp hd
    exact mem_encodeByte hdc
  · rw [hbytes, List.append_assoc]
    exact audioUrlDecode_eq hs pad'

/-- `0xFF % a`, with nothing behind its terminator. -/
theorem url_decode_encode_mixed :
    (0 : UInt8) ∉ [0xFF, 0x25, 0x61] ∧ 3 * ([0xFF, 0x25, 0x61] : List UInt8).length + 3 < 2 ^ 31 ∧
      ∃ enc dec, audioUrlEncode true [0xFF, 0x25, 0x61, 0] = .block enc ∧
        audioUrlDecode true enc.bytes = .block dec ∧ dec.bytes = [0xFF, 0x25, 0x61, 0] := by
  refine ⟨by decide, by decide, ?_⟩
  obtain ⟨enc, t, henc, -, -, -, hdec⟩ :=
    url_decode_encode [0xFF, 0x25, 0x61] [] (by decide) (by decide)
  obtain ⟨dec, hblock, -, hbytes⟩ := hdec []
  rw [List.append_nil] at hblock
  exact ⟨enc, dec, henc, hblock, hbytes⟩

end AudioPipeline
