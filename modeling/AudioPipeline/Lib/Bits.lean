import Mathlib.Algebra.Order.Group.Nat
import Mathlib.Data.List.Basic
import Mathlib.Data.List.TakeDrop
import Mathlib.Tactic.Ring

/-!
# Strings of bits, the most significant one first

`value bs` is the number that `bs` spells, and `ofNat n v` spells `v` with `n` bits.
`field bs n` reads `n` bits at the front of `bs`, behind whose end there are zeros.  A register of
`w` bits that holds `field bs w` is read with `field_div` and shifted with `field_shl`, and a field
that goes on behind it is put together with `field_append`.
-/

namespace Bits

/-! ### Values -/

def value (bs : List Bool) : ℕ := bs.foldl (fun v b => 2 * v + b.toNat) 0

theorem foldl_value (bs : List Bool) (v : ℕ) :
    bs.foldl (fun v b => 2 * v + b.toNat) v = v * 2 ^ bs.length + value bs := by
  induction bs generalizing v with
  | nil => simp [value]
  | cons b bs ih =>
    rw [value, List.foldl_cons, List.foldl_cons, ih, ih (2 * 0 + b.toNat), List.length_cons,
      Nat.pow_succ]
    ring

@[simp] theorem value_nil : value [] = 0 := rfl

theorem value_append (bs cs : List Bool) :
    value (bs ++ cs) = value bs * 2 ^ cs.length + value cs := by
  rw [value, List.foldl_append, foldl_value]
  rfl

theorem value_cons (b : Bool) (bs : List Bool) :
    value (b :: bs) = b.toNat * 2 ^ bs.length + value bs := by
  rw [← List.singleton_append, value_append]
  simp [value]

theorem value_lt (bs : List Bool) : value bs < 2 ^ bs.length := by
  induction bs with
  | nil => decide
  | cons b bs ih =>
    have hb : b.toNat ≤ 1 := by cases b <;> decide
    have := Nat.mul_le_mul_right (2 ^ bs.length) hb
    rw [value_cons, List.length_cons, Nat.pow_succ]
    omega

@[simp] theorem value_replicate (n : ℕ) : value (List.replicate n false) = 0 := by
  induction n with
  | zero => rfl
  | succ n ih => rw [List.replicate_succ, value_cons, ih, Bool.toNat_false, Nat.zero_mul]

/-! ### Spelling a number -/

/-- The `n` low bits of `v`. -/
def ofNat : ℕ → ℕ → List Bool
  | 0, _ => []
  | n + 1, v => decide (v / 2 ^ n % 2 = 1) :: ofNat n v

@[simp] theorem length_ofNat (n v : ℕ) : (ofNat n v).length = n := by
  induction n with
  | zero => rfl
  | succ n ih => rw [ofNat, List.length_cons, ih]

theorem value_ofNat (n v : ℕ) : value (ofNat n v) = v % 2 ^ n := by
  induction n with
  | zero => simp [ofNat, Nat.mod_one]
  | succ n ih =>
    have hbit : (decide (v / 2 ^ n % 2 = 1)).toNat = v / 2 ^ n % 2 := by
      rcases Nat.mod_two_eq_zero_or_one (v / 2 ^ n) with h | h <;> rw [h] <;> rfl
    rw [ofNat, value_cons, ih, length_ofNat, hbit, Nat.pow_succ, Nat.mod_mul]
    ring

theorem value_ofNat_of_lt {n v : ℕ} (h : v < 2 ^ n) : value (ofNat n v) = v := by
  rw [value_ofNat, Nat.mod_eq_of_lt h]

/-- Bits are told by their value. -/
theorem value_inj {bs cs : List Bool} (hlen : bs.length = cs.length) (h : value bs = value cs) :
    bs = cs := by
  induction bs generalizing cs with
  | nil => exact (List.eq_nil_of_length_eq_zero hlen.symm).symm
  | cons b bs ih =>
    cases cs with
    | nil => exact absurd hlen (by simp)
    | cons c cs =>
      rw [List.length_cons, List.length_cons, Nat.succ_inj] at hlen
      have hb := value_lt bs
      have hc := value_lt cs
      rw [value_cons, value_cons, hlen] at h
      rw [hlen] at hb
      cases b <;> cases c <;> simp only [Bool.toNat_false, Bool.toNat_true] at h
      · rw [ih hlen (by omega)]
      · omega
      · omega
      · rw [ih hlen (by omega)]

theorem ofNat_value (bs : List Bool) : ofNat bs.length (value bs) = bs :=
  value_inj (length_ofNat _ _) (value_ofNat_of_lt (value_lt bs))

/-! ### Fields -/

/-- The number that the first `n` bits spell. -/
def field (bs : List Bool) (n : ℕ) : ℕ := value ((bs ++ List.replicate n false).take n)

theorem length_field_bits (bs : List Bool) (n : ℕ) :
    ((bs ++ List.replicate n false).take n).length = n := by
  rw [List.length_take, List.length_append, List.length_replicate]
  omega

theorem field_lt (bs : List Bool) (n : ℕ) : field bs n < 2 ^ n := by
  have := value_lt ((bs ++ List.replicate n false).take n)
  rwa [length_field_bits] at this

theorem field_of_le {bs : List Bool} {n : ℕ} (h : n ≤ bs.length) :
    field bs n = value (bs.take n) := by
  rw [field, List.take_append_of_le_length h]

theorem field_of_ge {bs : List Bool} {n : ℕ} (h : bs.length ≤ n) :
    field bs n = value bs * 2 ^ (n - bs.length) := by
  rw [field, List.take_append, List.take_of_length_le h, List.take_replicate, value_append,
    value_replicate, List.length_replicate, Nat.add_zero, Nat.min_eq_left (Nat.sub_le _ _)]

@[simp] theorem field_nil (n : ℕ) : field [] n = 0 := by
  rw [field_of_ge (Nat.zero_le n), value_nil, Nat.zero_mul]

@[simp] theorem field_zero (bs : List Bool) : field bs 0 = 0 := by
  rw [field_of_le (Nat.zero_le _), List.take_zero, value_nil]

theorem field_append {bs cs : List Bool} {n : ℕ} (h : bs.length ≤ n) :
    field (bs ++ cs) n = value bs * 2 ^ (n - bs.length) + field cs (n - bs.length) := by
  rw [field, List.append_assoc, List.take_append, List.take_of_length_le h, value_append,
    List.length_take, List.length_append, List.length_replicate, field]
  congr 2
  · congr 1
    omega
  · rw [List.take_append, List.take_append, List.take_replicate, List.take_replicate]
    congr 2
    omega

theorem field_cons (b : Bool) (bs : List Bool) (n : ℕ) :
    field (b :: bs) (n + 1) = b.toNat * 2 ^ n + field bs n := by
  rw [← List.singleton_append, field_append (Nat.le_add_left 1 n), List.length_singleton,
    Nat.add_sub_cancel, value_cons, List.length_nil, Nat.pow_zero, Nat.mul_one, value_nil,
    Nat.add_zero]

theorem field_append_left {bs : List Bool} {n : ℕ} (h : n ≤ bs.length) (cs : List Bool) :
    field (bs ++ cs) n = field bs n := by
  rw [field_of_le h, field_of_le (by rw [List.length_append]; omega),
    List.take_append_of_le_length h]

theorem field_ofNat_append {n v : ℕ} (h : v < 2 ^ n) (bs : List Bool) :
    field (ofNat n v ++ bs) n = v := by
  rw [field_append_left (length_ofNat n v).ge, field_of_le (length_ofNat n v).ge,
    List.take_of_length_le (length_ofNat n v).le, value_ofNat_of_lt h]

/-- A register of `n` bits, shifted to the right. -/
theorem field_div {bs : List Bool} {m n : ℕ} (h : m ≤ n) :
    field bs n / 2 ^ (n - m) = field bs m := by
  rcases Nat.le_total bs.length m with hm | hm
  · rw [field_of_ge (hm.trans h), field_of_ge hm,
      show n - bs.length = (m - bs.length) + (n - m) by omega, Nat.pow_add, ← Nat.mul_assoc,
      Nat.mul_div_cancel _ (Nat.two_pow_pos _)]
  · have hsplit : bs = bs.take m ++ bs.drop m := (List.take_append_drop m bs).symm
    have hlen : (bs.take m).length = m := by rw [List.length_take]; omega
    rw [field_of_le hm]
    conv_lhs => rw [hsplit]
    rw [field_append (by omega), hlen, Nat.mul_comm, Nat.mul_add_div (Nat.two_pow_pos _),
      Nat.div_eq_of_lt (field_lt _ _), Nat.add_zero]

/-- A register of `n` bits, shifted to the left. -/
theorem field_shl {bs : List Bool} {m n : ℕ} (hlen : bs.length ≤ n) :
    field bs n * 2 ^ m % 2 ^ n = field (bs.drop m) n := by
  rw [field_of_ge hlen]
  rcases Nat.le_total bs.length m with hm | hm
  · rw [List.drop_of_length_le hm, field_nil, Nat.mul_assoc, ← Nat.pow_add]
    refine Nat.mod_eq_zero_of_dvd (Nat.dvd_mul_left_of_dvd ?_ _)
    exact Nat.pow_dvd_pow 2 (by omega)
  · have hsplit : value bs = value (bs.take m) * 2 ^ (bs.length - m) + value (bs.drop m) := by
      conv_lhs => rw [← List.take_append_drop m bs]
      rw [value_append, List.length_drop]
    have hdrop : (bs.drop m).length = bs.length - m := List.length_drop
    have hlt := field_lt (bs.drop m) n
    have hpow : 2 ^ (n - bs.length) * 2 ^ m = 2 ^ (n - (bs.length - m)) := by
      rw [← Nat.pow_add]
      congr 1
      omega
    have hn : 2 ^ (bs.length - m) * 2 ^ (n - (bs.length - m)) = 2 ^ n := by
      rw [← Nat.pow_add]
      congr 1
      omega
    rw [field_of_ge (by omega), hdrop] at hlt ⊢
    rw [Nat.mul_assoc, hpow, hsplit, Nat.add_mul, Nat.mul_assoc, hn, Nat.mul_add_mod',
      Nat.mod_eq_of_lt hlt]

theorem lor_shiftLeft {a b i : ℕ} (h : b < 2 ^ i) : a <<< i ||| b = a * 2 ^ i + b := by
  rw [← Nat.shiftLeft_add_eq_or_of_lt h, Nat.shiftLeft_eq]

/-- The high bits of a register. -/
theorem and_mask {x k w : ℕ} (hx : x < 2 ^ w) (hk : k ≤ w) :
    x &&& (2 ^ w - 2 ^ k) = x / 2 ^ k * 2 ^ k := by
  have hmask : 2 ^ w - 2 ^ k = (2 ^ (w - k) - 1) <<< k := by
    rw [Nat.shiftLeft_eq, Nat.sub_mul, ← Nat.pow_add, Nat.sub_add_cancel hk, Nat.one_mul]
  rw [hmask, ← Nat.shiftRight_eq_div_pow, ← Nat.shiftLeft_eq]
  refine Nat.eq_of_testBit_eq fun i => ?_
  rw [Nat.testBit_and, Nat.testBit_shiftLeft, Nat.testBit_shiftLeft, Nat.testBit_shiftRight,
    Nat.testBit_two_pow_sub_one]
  rcases Nat.lt_or_ge i k with hik | hik
  · simp [Nat.not_le.mpr hik]
  · rw [Nat.add_sub_cancel' hik]
    rcases Nat.lt_or_ge i w with hiw | hiw
    · simp [hik, show i - k < w - k by omega]
    · rw [Nat.testBit_lt_two_pow (hx.trans_le (Nat.pow_le_pow_right (by decide) hiw))]
      simp

/-- A register of which only the first `m` bits are kept. -/
theorem field_take {bs : List Bool} {m n : ℕ} (hm : m ≤ n) :
    field bs n / 2 ^ (n - m) * 2 ^ (n - m) = field (bs.take m) n := by
  rw [field_div hm]
  have hlen : (bs.take m).length ≤ m := by rw [List.length_take]; omega
  rw [field_of_ge (hlen.trans hm), ← Nat.sub_add_sub_cancel hm hlen, Nat.add_comm, Nat.pow_add,
    ← Nat.mul_assoc, ← field_of_ge hlen]
  congr 1
  rcases Nat.le_total bs.length m with h | h
  · rw [List.take_of_length_le h]
  · rw [field_of_le h, field_of_ge hlen, List.length_take, Nat.min_eq_left h, Nat.sub_self,
      Nat.pow_zero, Nat.mul_one]

/-- The fields of the widths `ns`, one behind the other. -/
def fields : List Bool → List ℕ → List ℕ
  | _, [] => []
  | bs, n :: ns => field bs n :: fields (bs.drop n) ns

/-! ### Bytes -/

/-- The bits of a byte. -/
def ofByte (b : UInt8) : List Bool := ofNat 8 b.toNat

def ofBytes (bs : List UInt8) : List Bool := bs.flatMap ofByte

@[simp] theorem length_ofByte (b : UInt8) : (ofByte b).length = 8 := length_ofNat _ _

theorem value_ofByte (b : UInt8) : value (ofByte b) = b.toNat := value_ofNat_of_lt b.toNat_lt

@[simp] theorem ofBytes_nil : ofBytes [] = [] := rfl

@[simp] theorem ofBytes_cons (b : UInt8) (bs : List UInt8) :
    ofBytes (b :: bs) = ofByte b ++ ofBytes bs := rfl

@[simp] theorem ofBytes_append (bs cs : List UInt8) :
    ofBytes (bs ++ cs) = ofBytes bs ++ ofBytes cs := List.flatMap_append

@[simp] theorem length_ofBytes (bs : List UInt8) : (ofBytes bs).length = 8 * bs.length := by
  induction bs with
  | nil => rfl
  | cons b bs ih => rw [ofBytes_cons, List.length_append, length_ofByte, ih, List.length_cons]; ring

theorem ofBytes_drop (bs : List UInt8) (n : ℕ) :
    ofBytes (bs.drop n) = (ofBytes bs).drop (8 * n) := by
  induction n generalizing bs with
  | zero => rfl
  | succ n ih =>
    cases bs with
    | nil => rw [List.drop_nil, ofBytes_nil, List.drop_nil]
    | cons b bs =>
      rw [List.drop_succ_cons, ih, ofBytes_cons, Nat.mul_succ, Nat.add_comm, ← List.drop_drop,
        List.drop_left' (length_ofByte b)]

theorem ofBytes_take (bs : List UInt8) (n : ℕ) :
    ofBytes (bs.take n) = (ofBytes bs).take (8 * n) := by
  rcases Nat.lt_or_ge bs.length n with h | h
  · rw [List.take_of_length_le h.le, List.take_of_length_le (by rw [length_ofBytes]; omega)]
  · have hsplit := ofBytes_append (bs.take n) (bs.drop n)
    rw [List.take_append_drop] at hsplit
    rw [hsplit, List.take_left']
    rw [length_ofBytes, List.length_take, Nat.min_eq_left h]

/-- The bytes that bits spell, eight at a time. -/
def toBytes : List Bool → List UInt8
  | b₇ :: b₆ :: b₅ :: b₄ :: b₃ :: b₂ :: b₁ :: b₀ :: bs =>
    (value [b₇, b₆, b₅, b₄, b₃, b₂, b₁, b₀]).toUInt8 :: toBytes bs
  | _ => []

theorem ofBytes_toBytes : ∀ {bs : List Bool}, 8 ∣ bs.length → ofBytes (toBytes bs) = bs
  | [], _ => rfl
  | b₇ :: b₆ :: b₅ :: b₄ :: b₃ :: b₂ :: b₁ :: b₀ :: bs, h => by
    have hrest : 8 ∣ bs.length := by
      simp only [List.length_cons] at h
      omega
    have hlt : value [b₇, b₆, b₅, b₄, b₃, b₂, b₁, b₀] < 2 ^ 8 := value_lt _
    have hbyte : ofByte (value [b₇, b₆, b₅, b₄, b₃, b₂, b₁, b₀]).toUInt8 =
        [b₇, b₆, b₅, b₄, b₃, b₂, b₁, b₀] := by
      rw [ofByte, Nat.toUInt8, UInt8.toNat_ofNat', Nat.mod_eq_of_lt hlt]
      exact ofNat_value [b₇, b₆, b₅, b₄, b₃, b₂, b₁, b₀]
    rw [toBytes, ofBytes_cons, ofBytes_toBytes hrest, hbyte]
    rfl
  | [_], h | [_, _], h | [_, _, _], h | [_, _, _, _], h | [_, _, _, _, _], h
  | [_, _, _, _, _, _], h | [_, _, _, _, _, _, _], h => absurd h (by simp)

/-- Zeros up to the end of the last byte. -/
def pad (bs : List Bool) : List Bool := bs ++ List.replicate ((8 - bs.length % 8) % 8) false

theorem dvd_length_pad (bs : List Bool) : 8 ∣ (pad bs).length := by
  rw [pad, List.length_append, List.length_replicate]
  omega

theorem length_toBytes {bs : List Bool} (h : 8 ∣ bs.length) :
    (toBytes bs).length = bs.length / 8 := by
  have := congrArg List.length (ofBytes_toBytes h)
  rw [length_ofBytes] at this
  omega

end Bits
