import Mathlib.Data.List.Rotate

/-!
# Circular storage over a list

`mem` is a block of fixed length used round and round.  `window mem p n` is the `n` entries met
from position `p` on, going back to the front after the last one; `blit mem off src` is the block
after `src` has been copied to position `off`.

`p` ranges over `0 ≤ p ≤ mem.length`: the end of the block is a legal resting place and stands for
its front.  The three facts a queue in such a block needs are `window_split` (taking from the
front of the window), `window_eq_of_le` / `window_eq_of_lt` (reading it with one or two copies) and
`window_blit` / `window_blit_wrap` (appending at its end with one or two copies).
-/

namespace Circular

variable {α : Type*}

/-- The block `mem` after `src` has been copied to position `off`. -/
def blit (mem : List α) (off : ℕ) (src : List α) : List α :=
  mem.take off ++ src ++ mem.drop (off + src.length)

/-- The `n` entries met from position `p` on, going round. -/
def window (mem : List α) (p n : ℕ) : List α :=
  (mem.rotate p).take n

theorem length_blit {mem src : List α} {off : ℕ} (h : off + src.length ≤ mem.length) :
    (blit mem off src).length = mem.length := by
  simp only [blit, List.length_append, List.length_take, List.length_drop]
  omega

@[simp] theorem blit_nil (mem : List α) (off : ℕ) : blit mem off [] = mem := by
  simp [blit]

/-- Entry `i` of the block after the copy. -/
theorem getElem?_blit {mem src : List α} {off : ℕ} (h : off + src.length ≤ mem.length) (i : ℕ) :
    (blit mem off src)[i]? =
      if off ≤ i ∧ i < off + src.length then src[i - off]? else mem[i]? := by
  have hlen : (mem.take off).length = off := by rw [List.length_take]; omega
  unfold blit
  rw [List.append_assoc, List.getElem?_append, hlen]
  by_cases h1 : i < off
  · rw [if_pos h1, if_neg (by omega), List.getElem?_take_of_lt h1]
  · rw [if_neg h1, List.getElem?_append]
    by_cases h2 : i < off + src.length
    · rw [if_pos (by omega), if_pos (by omega)]
    · rw [if_neg (by omega), if_neg (by omega), List.getElem?_drop]
      congr 1
      omega

theorem length_window {mem : List α} {p n : ℕ} (hn : n ≤ mem.length) :
    (window mem p n).length = n := by
  rw [window, List.length_take, List.length_rotate]
  omega

/-- Entry `k` of the window sits `k` places after `p`, one turn less when that is past the end. -/
theorem getElem?_window {mem : List α} {p n k : ℕ} (hp : p ≤ mem.length) (hn : n ≤ mem.length)
    (hk : k < n) :
    (window mem p n)[k]? = mem[if p + k < mem.length then p + k else p + k - mem.length]? := by
  have hmod : (k + p) % mem.length
      = if p + k < mem.length then p + k else p + k - mem.length := by
    split_ifs with h
    · rw [Nat.mod_eq_of_lt (by omega), Nat.add_comm]
    · rw [Nat.mod_eq_sub_mod (by omega), Nat.mod_eq_of_lt (by omega), Nat.add_comm]
  rw [window, List.getElem?_take_of_lt hk, List.getElem?_rotate (by omega), hmod]

theorem getElem?_window_of_le {mem : List α} {p n k : ℕ} (hk : n ≤ k) :
    (window mem p n)[k]? = none := by
  rw [List.getElem?_eq_none_iff, window, List.length_take]
  omega

@[simp] theorem window_zero (mem : List α) (p : ℕ) : window mem p 0 = [] := by
  simp [window]

/-- The window from the end of the block is the window from its front. -/
theorem window_length_left (mem : List α) (n : ℕ) : window mem mem.length n = window mem 0 n := by
  rw [window, window, List.rotate_length, List.rotate_zero]

/-- **Taking from the front**: the first `k` of `n` entries and the `n - k` from `q` on, where `q`
is `p + k`, one turn less when that is past the end. -/
theorem window_split {mem : List α} {p q n k : ℕ} (hp : p ≤ mem.length) (hn : n ≤ mem.length)
    (hk : k ≤ n) (hq : q ≤ mem.length) (hpq : p + k = q ∨ p + k = q + mem.length) :
    window mem p n = window mem p k ++ window mem q (n - k) := by
  apply List.ext_getElem?
  intro i
  rw [List.getElem?_append, length_window (by omega)]
  by_cases hi : i < n
  · rw [getElem?_window hp hn hi]
    by_cases hik : i < k
    · rw [if_pos hik, getElem?_window hp (by omega) hik]
    · rw [if_neg hik, getElem?_window hq (by omega) (by omega)]
      congr 1
      split_ifs <;> omega
  · rw [getElem?_window_of_le (by omega), if_neg (by omega), getElem?_window_of_le (by omega)]

/-- A window that does not pass the end is one copy. -/
theorem window_eq_of_le {mem : List α} {p k : ℕ} (h : p + k ≤ mem.length) :
    window mem p k = (mem.drop p).take k := by
  apply List.ext_getElem?
  intro i
  by_cases hi : i < k
  · rw [getElem?_window (by omega) (by omega) hi, if_pos (by omega),
      List.getElem?_take_of_lt hi, List.getElem?_drop]
  · rw [getElem?_window_of_le (by omega), List.getElem?_take_eq_none (by omega)]

/-- A window that passes the end is two copies. -/
theorem window_eq_of_lt {mem : List α} {p k : ℕ} (hp : p ≤ mem.length) (hk : k ≤ mem.length)
    (h : mem.length < p + k) :
    window mem p k
      = (mem.drop p).take (mem.length - p) ++ mem.take (k - (mem.length - p)) := by
  rw [window_split (q := mem.length) (k := mem.length - p) hp hk (by omega) le_rfl (by omega),
    window_eq_of_le (by omega), window_length_left, window_eq_of_le (by omega), List.drop_zero]

/-- **Appending with one copy**: `src` copied where the window ends extends it by `src`. -/
theorem window_blit {mem src : List α} {p n w : ℕ} (hp : p ≤ mem.length)
    (hn : n + src.length ≤ mem.length) (hw : w + src.length ≤ mem.length)
    (hpw : p + n = w ∨ p + n = w + mem.length ∨ p + n = w + 2 * mem.length) :
    window (blit mem w src) p (n + src.length) = window mem p n ++ src := by
  have hlen := length_blit hw
  apply List.ext_getElem?
  intro k
  rw [List.getElem?_append, length_window (by omega)]
  by_cases hk : k < n + src.length
  · rw [getElem?_window (by omega) (by omega) hk, hlen, getElem?_blit hw]
    by_cases hkn : k < n
    · rw [if_pos hkn, getElem?_window hp (by omega) hkn]
      split_ifs <;> first | omega | rfl
    · rw [if_neg hkn]
      split_ifs <;> first | omega | (congr 1; omega)
  · rw [getElem?_window_of_le (by omega), if_neg (by omega),
      List.getElem?_eq_none (by omega)]

/-- **Appending with two copies**: the part of `src` that fits before the end, then the rest at
the front. -/
theorem window_blit_wrap {mem src : List α} {p n w : ℕ} (hp : p ≤ mem.length)
    (hn : n + src.length ≤ mem.length) (hw : w ≤ mem.length) (hlt : mem.length < w + src.length)
    (hpw : p + n = w ∨ p + n = w + mem.length ∨ p + n = w + 2 * mem.length) :
    window (blit (blit mem w (src.take (mem.length - w))) 0 (src.drop (mem.length - w))) p
        (n + src.length)
      = window mem p n ++ src := by
  set r := mem.length - w with hr
  have hl1 : (src.take r).length = r := by rw [List.length_take]; omega
  have hl2 : (src.drop r).length = src.length - r := List.length_drop
  have hb1 : w + (src.take r).length ≤ mem.length := by omega
  have hm1 := length_blit hb1
  have h1 := window_blit hp (by omega) hb1 hpw
  have h2 : window (blit (blit mem w (src.take r)) 0 (src.drop r)) p (n + r + (src.drop r).length)
      = window (blit mem w (src.take r)) p (n + r) ++ src.drop r :=
    window_blit (by omega) (by omega) (by omega) (by omega)
  rw [hl1] at h1
  rw [hl2] at h2
  rw [show n + src.length = n + r + (src.length - r) by omega, h2, h1, List.append_assoc,
    List.take_append_drop]

end Circular
