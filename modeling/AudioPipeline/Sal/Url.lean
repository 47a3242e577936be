import Mathlib.Algebra.Order.Ring.Int

/-!
# URL encoding (`audio_url.c`)

A string is the block of memory that its pointer leads to; reading past the end of the block is a
fault, and so is writing past the end of an allocated one.
-/

namespace AudioPipeline

/-- A block from `audio_malloc`, written from the front. -/
structure OutBlock where
  size : ℕ
  bytes : List UInt8
  fits : bytes.length ≤ size

namespace OutBlock

/-- `audio_malloc(size)`. -/
def new (size : ℕ) : OutBlock := ⟨size, [], Nat.zero_le size⟩

/-- `*final++ = c`; `none` past the end of the block. -/
def put (b : OutBlock) (c : UInt8) : Option OutBlock :=
  if h : b.bytes.length < b.size then
    some ⟨b.size, b.bytes ++ [c], by rw [List.length_append, List.length_singleton]; exact h⟩
  else none

end OutBlock

/-- How a call ends. -/
inductive UrlResult
  /-- `NULL` -/
  | null
  /-- an access outside of a block -/
  | fault
  | block (b : OutBlock)

/-- `strlen`; `none` if the block has no terminator. -/
def strlen (str : List UInt8) : Option ℕ :=
  if 0 ∈ str then some (str.takeWhile (· ≠ 0)).length else none

/-- A `size_t` as an `int`. -/
def sizeToInt (n : ℕ) : ℤ := (n : ℤ).bmod (2 ^ 32)

/-- An `int` as a `size_t`. -/
def intToSize (n : ℤ) : ℕ := (n % 2 ^ 64).toNat

/-- `isalnum`, in the C locale. -/
def isalnum (c : UInt8) : Bool :=
  (0x30 ≤ c && c ≤ 0x39) || (0x41 ≤ c && c ≤ 0x5A) || (0x61 ≤ c && c ≤ 0x7A)

/-- `char_to_hex`. -/
def charToHex (x : UInt8) : UInt8 := if x > 9 then x + 0x37 else x + 0x30

/-- The characters that `audio_url_encode` copies: letters and digits, and `-_.!@#$&*()=:/,;?+`,
the apostrophe and `~`. -/
def passesThrough (c : UInt8) : Bool :=
  isalnum c || c == 0x2D || c == 0x5F || c == 0x2E || c == 0x21 || c == 0x40 || c == 0x23 ||
    c == 0x24 || c == 0x26 || c == 0x2A || c == 0x28 || c == 0x29 || c == 0x3D || c == 0x3A ||
    c == 0x2F || c == 0x2C || c == 0x3B || c == 0x3F || c == 0x2B || c == 0x27 || c == 0x7E

/-- The loop of `audio_url_encode`. -/
def urlEncodeLoop : List UInt8 → OutBlock → Option OutBlock
  | [], final => some final
  | c :: str, final =>
    if passesThrough c then (final.put c).bind (urlEncodeLoop str)
    else
      (((final.put 0x25).bind (·.put (charToHex (c >>> 4)))).bind
        (·.put (charToHex (c % 16)))).bind (urlEncodeLoop str)

/-- `audio_url_encode`; `allocated` is the outcome of `audio_malloc`. -/
def audioUrlEncode (allocated : Bool) (str : List UInt8) : UrlResult :=
  match strlen str with
  | none => .fault
  | some len =>
    let outLen := sizeToInt ((len + 1) * 3 % 2 ^ 64)
    if allocated then
      match (urlEncodeLoop (str.take len) (.new (intToSize outLen))).bind (·.put 0) with
      | none => .fault
      | some final => .block final
    else .null

/-- The value of a hexadecimal digit. -/
def hexDigit (c : UInt8) : Option ℕ :=
  if 0x30 ≤ c ∧ c ≤ 0x39 then some (c.toNat - 0x30)
  else if 0x41 ≤ c ∧ c ≤ 0x46 then some (c.toNat - 0x37)
  else if 0x61 ≤ c ∧ c ≤ 0x66 then some (c.toNat - 0x57)
  else none

/-- The digits at the front, after those that make `n`. -/
def hexNumber (n : ℕ) : List UInt8 → ℕ
  | [] => n
  | c :: str =>
    match hexDigit c with
    | some d => hexNumber (16 * n + d) str
    | none => n

/-- The number after an optional `0x`. -/
def hexPrefixed : List UInt8 → ℕ
  | 0x30 :: x :: c :: str =>
    if (x = 0x78 ∨ x = 0x58) ∧ (hexDigit c).isSome then hexNumber 0 (c :: str)
    else hexNumber 0 (0x30 :: x :: c :: str)
  | str => hexNumber 0 str

/-- `isspace`, in the C locale. -/
def isspace (c : UInt8) : Bool := c == 0x20 || (0x09 ≤ c && c ≤ 0x0D)

/-- `strtol(str, NULL, 16)`, for numbers that do not overflow. -/
def strtol16 (str : List UInt8) : ℤ :=
  match str.dropWhile isspace with
  | 0x2D :: str => -(hexPrefixed str : ℤ)
  | 0x2B :: str => hexPrefixed str
  | str => hexPrefixed str

/-- A `long` as a `char`. -/
def longToChar (n : ℤ) : UInt8 := UInt8.ofNat (n % 256).toNat

/-- The loop of `audio_url_decode`. -/
def urlDecodeLoop : List UInt8 → OutBlock → Option OutBlock
  | [], _ => none
  | 0 :: _, final => some final
  | 0x25 :: a :: b :: str, final =>
    (final.put (longToChar (strtol16 [a, b, 0]))).bind (urlDecodeLoop str)
  | 0x25 :: _, _ => none
  | c :: str, final => (final.put c).bind (urlDecodeLoop str)

/-- `audio_url_decode`; `allocated` is the outcome of `audio_malloc`. -/
def audioUrlDecode (allocated : Bool) (str : List UInt8) : UrlResult :=
  match strlen str with
  | none => .fault
  | some len =>
    if allocated then
      match (urlDecodeLoop str (.new (len + 1))).bind (·.put 0) with
      | none => .fault
      | some final => .block final
    else .null

end AudioPipeline
