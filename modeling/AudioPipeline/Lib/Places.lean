import Mathlib.Data.List.Infix
import Mathlib.Tactic.Common

/-!
# Places of a word in a text

`FirstAt name text pos`: the word `name` stands at the start of the suffix `pos` of `text`, and
nowhere before.  `Behind name text tail`: `tail` is what stands behind that first place.

Where a letter that the word does not have stands in the text, no place of the word goes over it
(`infix_sep`); where the last letter of the word stands, which it does not have a second time, a
place may end there (`infix_stop`).  With these a text is searched piece by piece.
-/

namespace Places

variable {α : Type*} {name text pos a b : List α} {s : α}

/-- `pos` starts at the first place of `text` where `name` stands. -/
structure FirstAt (name text pos : List α) : Prop where
  suffix : pos <:+ text
  starts : name <+: pos
  first : ∀ t, t <:+ text → name <+: t → t <:+ pos

theorem FirstAt.unique {pos' : List α} (h : FirstAt name text pos) (h' : FirstAt name text pos') :
    pos = pos' :=
  List.IsSuffix.eq_of_length_le (h'.first pos h.suffix h.starts)
    (h.first pos' h'.suffix h'.starts).length_le

/-- The first place is at the start of the text. -/
theorem firstAt_start (h : name <+: text) : FirstAt name text pos ↔ pos = text := by
  constructor
  · intro hpos
    have hle := hpos.first text List.suffix_rfl h
    exact List.IsSuffix.eq_of_length_le hpos.suffix hle.length_le
  · rintro rfl
    exact ⟨List.suffix_rfl, h, fun t ht _ => ht⟩

/-- The first place is behind the first letter. -/
theorem firstAt_cons (h : ¬name <+: s :: text) :
    FirstAt name (s :: text) pos ↔ FirstAt name text pos := by
  constructor
  · intro hpos
    refine ⟨?_, hpos.starts, fun t ht => hpos.first t (ht.trans (List.suffix_cons s text))⟩
    rcases List.suffix_cons_iff.mp hpos.suffix with rfl | hsuffix
    · exact absurd hpos.starts h
    · exact hsuffix
  · intro hpos
    refine ⟨hpos.suffix.trans (List.suffix_cons s text), hpos.starts, fun t ht hstarts => ?_⟩
    rcases List.suffix_cons_iff.mp ht with rfl | ht
    · exact absurd hstarts h
    · exact hpos.first t ht hstarts

/-- The word stands in the text exactly if there is a first place of it. -/
theorem exists_firstAt (hname : name ≠ []) : (∃ pos, FirstAt name text pos) ↔ name <:+: text := by
  constructor
  · rintro ⟨pos, h⟩
    exact h.starts.isInfix.trans h.suffix.isInfix
  · intro h
    induction text with
    | nil => exact absurd (List.infix_nil.mp h) hname
    | cons s text ih =>
      by_cases hstart : name <+: s :: text
      · exact ⟨_, (firstAt_start hstart).mpr rfl⟩
      · obtain ⟨pos, hpos⟩ := ih ((List.infix_cons_iff.mp h).resolve_left hstart)
        exact ⟨pos, (firstAt_cons hstart).mpr hpos⟩

/-- `tail` stands behind the first place of `name`. -/
def Behind (name text tail : List α) : Prop := FirstAt name text (name ++ tail)

theorem Behind.unique {tail tail' : List α} (h : Behind name text tail)
    (h' : Behind name text tail') : tail = tail' :=
  List.append_cancel_left (FirstAt.unique h h')

theorem exists_behind (hname : name ≠ []) : (∃ tail, Behind name text tail) ↔ name <:+: text := by
  rw [← exists_firstAt hname]
  constructor
  · rintro ⟨tail, h⟩
    exact ⟨_, h⟩
  · rintro ⟨pos, h⟩
    obtain ⟨tail, rfl⟩ := h.starts
    exact ⟨tail, h⟩

/-- **A word is found where it stands if nothing in front of it makes it up earlier.** -/
theorem behind_iff (hname : name ≠ []) {tail : List α} : Behind name text tail ↔
    ∃ before, text = before ++ (name ++ tail) ∧ ¬name <:+: before ++ name.dropLast := by
  have hpos : 0 < name.length := List.length_pos_iff.mpr hname
  constructor
  · intro h
    obtain ⟨before, rfl⟩ := h.suffix
    refine ⟨before, rfl, fun ⟨x, y, hfound⟩ => ?_⟩
    -- the place at `x` would be an earlier one
    have hsuffix : name ++ y ++ name.getLast hname :: tail <:+ before ++ (name ++ tail) :=
      ⟨x, calc
        x ++ (name ++ y ++ name.getLast hname :: tail) =
            x ++ name ++ y ++ name.getLast hname :: tail := by simp only [List.append_assoc]
        _ = before ++ (name.dropLast ++ [name.getLast hname] ++ tail) := by
            rw [hfound, List.append_assoc, List.append_assoc, List.singleton_append]
        _ = before ++ (name ++ tail) := by rw [List.dropLast_append_getLast hname]⟩
    have hle := (h.first _ hsuffix (by simp)).length_le
    have hlen := congrArg List.length hfound
    simp only [List.length_append, List.length_cons, List.length_dropLast] at hle hlen
    omega
  · rintro ⟨before, rfl, h⟩
    refine ⟨List.suffix_append _ _, List.prefix_append _ _, ?_⟩
    induction before with
    | nil => exact fun t ht _ => ht
    | cons c before ih =>
      intro t ht hstarts
      rcases List.suffix_cons_iff.mp ht with rfl | ht
      · -- the name at `c` would end before the last byte of the name behind `before`
        refine absurd (List.IsPrefix.isInfix ?_) h
        refine List.prefix_of_prefix_length_le hstarts ((List.prefix_append_right_inj _).mpr ?_) ?_
        · exact (List.dropLast_prefix name).trans (List.prefix_append name tail)
        · rw [List.length_append, List.length_cons, List.length_dropLast]
          omega
      · exact ih (fun hfound => h (hfound.trans (List.suffix_cons c _).isInfix)) t ht hstarts

/-! ### A letter that the word does not have -/

theorem prefix_sep (hs : s ∉ name) : name <+: a ++ s :: b ↔ name <+: a := by
  induction name generalizing a with
  | nil => simp
  | cons c name ih =>
    rw [List.mem_cons, not_or] at hs
    cases a with
    | nil => simp [Ne.symm hs.1]
    | cons d a => rw [List.cons_append, List.cons_prefix_cons, List.cons_prefix_cons, ih hs.2]

/-- A place is in front of the letter or behind it. -/
theorem infix_sep (hname : name ≠ []) (hs : s ∉ name) :
    name <:+: a ++ s :: b ↔ name <:+: a ∨ name <:+: b := by
  induction a with
  | nil =>
    have hstart : ¬name <+: s :: b := fun h => hname (List.prefix_nil.mp
      ((prefix_sep (a := []) hs).mp h))
    rw [List.nil_append, List.infix_cons_iff, List.infix_nil]
    tauto
  | cons d a ih =>
    rw [List.cons_append, List.infix_cons_iff, List.infix_cons_iff, ih, ← List.cons_append,
      prefix_sep hs, or_assoc]

/-! ### The last letter of the word -/

theorem prefix_stop (hs : s ∉ name) :
    name ++ [s] <+: a ++ s :: b ↔ name ++ [s] <+: a ∨ name = a := by
  induction name generalizing a with
  | nil => cases a <;> simp [List.cons_prefix_cons]
  | cons c name ih =>
    rw [List.mem_cons, not_or] at hs
    cases a with
    | nil => simp [Ne.symm hs.1]
    | cons d a =>
      rw [List.cons_append, List.cons_append, List.cons_prefix_cons, List.cons_prefix_cons, ih hs.2,
        List.cons.injEq]
      tauto

/-- A place is in front of the letter, ends with it, or is behind it. -/
theorem infix_stop (hs : s ∉ name) :
    name ++ [s] <:+: a ++ s :: b ↔ name ++ [s] <:+: a ∨ name <:+ a ∨ name ++ [s] <:+: b := by
  induction a with
  | nil =>
    have hstart := prefix_stop (a := []) (b := b) hs
    rw [List.nil_append] at hstart
    rw [List.nil_append, List.infix_cons_iff, hstart, List.infix_nil, List.suffix_nil,
      List.prefix_nil, or_assoc]
  | cons d a ih =>
    have hstart := prefix_stop (a := d :: a) (b := b) hs
    rw [List.cons_append] at hstart
    rw [List.cons_append, List.infix_cons_iff, hstart, ih, List.infix_cons_iff (a := d),
      List.suffix_cons_iff]
    tauto

/-- A word with a last letter does not stand where there is none. -/
theorem not_infix_of_not_mem (h : s ∉ a) : ¬name ++ [s] <:+: a :=
  fun hfound => h (hfound.subset (List.mem_append_right name List.mem_cons_self))

end Places
