import AudioPipeline.Codec.Equiv.HuffCache
import Mathlib.Tactic.IntervalCases

/-!
# Pairs of Huffman codes

`nodeOk` checks a table, and `plainPairs` decodes a list of bits with it, without a cache.

* `pairs_plain`: what is decoded bit by bit is decoded by `DecodeHuffmanPairs`;
* `pairs_safe`: whatever the bits are, it reads no byte and no entry that is not there.
-/

namespace AudioPipeline

open Bits

/-! ### The tables of pairs -/

/-- From the index `i` on there is a table whose entries lead to tables that are at most `depth`
deep, or to code words of at most 9 bits. -/
def nodeOk (tab : List ℕ) : ℕ → ℕ → Bool
  | 0, _ => false
  | depth + 1, i =>
    let maxBits := getMaxbits ((tab.drop i).headD 0)
    let entries := (tab.drop i).tail.take (2 ^ maxBits)
    decide (1 ≤ maxBits ∧ maxBits ≤ 9 ∧ entries.length = 2 ^ maxBits) &&
      entries.all fun cw =>
        if getHLen cw = 0 then nodeOk tab depth (i + cw) else decide (getHLen cw ≤ maxBits)

theorem nodeOk_spec {tab : List ℕ} {depth i : ℕ} (h : nodeOk tab (depth + 1) i = true) :
    ∃ head, tab[i]? = some head ∧ 1 ≤ getMaxbits head ∧ getMaxbits head ≤ 9 ∧
      ∀ k < 2 ^ getMaxbits head, ∃ cw, tab[i + k + 1]? = some cw ∧
        (getHLen cw = 0 → nodeOk tab depth (i + cw) = true) ∧ getHLen cw ≤ 9 := by
  obtain ⟨node, hnode⟩ : ∃ node, tab.drop i = node := ⟨_, rfl⟩
  rw [nodeOk, hnode, Bool.and_eq_true, decide_eq_true_iff, List.all_eq_true] at h
  obtain ⟨⟨hpos, hle, hlen⟩, hall⟩ := h
  cases node with
  | nil => exact absurd hpos (by decide)
  | cons head rest =>
    rw [List.headD_cons, List.tail_cons] at *
    have hat : ∀ k, tab[i + k]? = (head :: rest)[k]? := fun k => by
      rw [← hnode, List.getElem?_drop]
    refine ⟨head, by simpa using hat 0, hpos, hle, fun k hk => ?_⟩
    rw [← hlen] at hk
    have hmem := List.getElem_mem hk
    have hentry := hall _ hmem
    refine ⟨(rest.take (2 ^ getMaxbits head))[k], ?_, fun h0 => ?_, ?_⟩
    · rw [Nat.add_assoc, hat, List.getElem?_cons_succ, List.getElem_take,
        List.getElem?_eq_getElem]
    · rwa [if_pos h0] at hentry
    · by_cases h0 : getHLen (rest.take (2 ^ getMaxbits head))[k] = 0
      · omega
      · rw [if_neg h0, decide_eq_true_iff] at hentry
        omega

theorem nodeOk_one_shot : ∀ tab ∈ [huffTable01, huffTable02, huffTable03, huffTable05, huffTable06],
    nodeOk tab 1 0 = true := by
  decide +kernel

theorem nodeOk_loop : ∀ tab ∈ [huffTable07, huffTable08, huffTable09, huffTable10, huffTable11,
    huffTable12, huffTable13, huffTable15, huffTable16, huffTable24], nodeOk tab 5 0 = true := by
  decide +kernel

theorem five_le_length : ∀ tab ∈ [huffTable07, huffTable08, huffTable09, huffTable10, huffTable11,
    huffTable12, huffTable13, huffTable15, huffTable16, huffTable24], 5 ≤ tab.length := by
  decide +kernel

/-! ### Pairs, bit by bit -/

/-- A code word, looked up from the index `tCurr` on, and the number of bits that have been used. -/
def plainWord (tab : List ℕ) (bits : List Bool) : ℕ → ℕ → ℕ → ℕ × ℕ
  | 0, _, used => (0, used)
  | fuel + 1, tCurr, used =>
    let maxBits := getMaxbits (tab.getD tCurr 0)
    let cw := tab.getD (tCurr + field (bits.drop used) maxBits + 1) 0
    if getHLen cw = 0 then plainWord tab bits fuel (tCurr + cw) (used + maxBits)
    else (cw, used + getHLen cw)

/-- `linBits` more bits of a value that is 15. -/
def plainLinbits (linBits : ℕ) (bits : List Bool) (x used : ℕ) : ℕ × ℕ :=
  if x = 15 ∧ linBits ≠ 0 then (x + field (bits.drop used) linBits, used + linBits) else (x, used)

/-- Both values of a code word. -/
def plainValues (linBits : ℕ) (bits : List Bool) (cw used : ℕ) : List ℕ × ℕ :=
  let x := plainLinbits linBits bits (getCWX cw) used
  let sx := plainSign bits x.1 x.2
  let y := plainLinbits linBits bits (getCWY cw) sx.2
  let sy := plainSign bits y.1 y.2
  ([sx.1, sy.1], sy.2)

/-- `n` pairs, if there are bits for them. -/
def plainPairs (tab : List ℕ) (linBits : ℕ) (bits : List Bool) : ℕ → ℕ → Option (List ℕ × ℕ)
  | 0, used => some ([], used)
  | n + 1, used =>
    let w := plainWord tab bits tab.length 0 used
    let xy := plainValues linBits bits w.1 w.2
    if xy.2 ≤ bits.length then
      (plainPairs tab linBits bits n xy.2).map fun r => (xy.1 ++ r.1, r.2)
    else none

theorem le_plainWord (tab : List ℕ) (bits : List Bool) (fuel tCurr used : ℕ) :
    used ≤ (plainWord tab bits fuel tCurr used).2 := by
  induction fuel generalizing tCurr used with
  | zero => exact le_rfl
  | succ fuel ih =>
    unfold plainWord
    dsimp only
    split_ifs
    · exact (Nat.le_add_right _ _).trans (ih _ _)
    · exact Nat.le_add_right _ _

theorem le_plainLinbits (linBits : ℕ) (bits : List Bool) (x used : ℕ) :
    used ≤ (plainLinbits linBits bits x used).2 := by
  unfold plainLinbits
  split_ifs
  · exact Nat.le_add_right _ _
  · exact le_rfl

theorem le_plainValues (linBits : ℕ) (bits : List Bool) (cw used : ℕ) :
    used ≤ (plainValues linBits bits cw used).2 :=
  (le_plainLinbits _ _ _ _).trans ((le_plainSign _ _ _).trans
    ((le_plainLinbits _ _ _ _).trans (le_plainSign _ _ _)))

/-- A code word has at least one bit. -/
theorem lt_plainWord {tab : List ℕ} {depth i : ℕ} (h : nodeOk tab depth i = true)
    (bits : List Bool) {fuel : ℕ} (hfuel : 0 < fuel) (used : ℕ) :
    used < (plainWord tab bits fuel i used).2 := by
  cases depth with
  | zero => exact (Bool.false_ne_true h).elim
  | succ depth =>
    obtain ⟨fuel, rfl⟩ := Nat.exists_eq_succ_of_ne_zero hfuel.ne'
    obtain ⟨head, hhead, hpos, -, -⟩ := nodeOk_spec h
    have hget : tab.getD i 0 = head := by rw [List.getD_eq_getElem?_getD, hhead, Option.getD_some]
    unfold plainWord
    dsimp only
    rw [hget]
    split_ifs with h0
    · exact (Nat.lt_add_of_pos_right hpos).trans_le (le_plainWord _ _ _ _ _)
    · exact Nat.lt_add_of_pos_right (Nat.pos_of_ne_zero h0)

section

variable {c : HuffCache} {bits : List Bool} {used : ℕ} {tab : List ℕ}

theorem tabEntry_of_some {i cw : ℕ} (h : tab[i]? = some cw) : tabEntry tab i = .ok cw := by
  rw [tabEntry, h, Option.elim_some]

theorem getD_of_some {i cw : ℕ} (h : tab[i]? = some cw) : tab.getD i 0 = cw := by
  rw [List.getD_eq_getElem?_getD, h, Option.getD_some]

/-- **A code word.**  The induction is on the depth of the table: a distance is followed by a
refill, if there are too few bits. -/
theorem decodeLoopTab_spec {depth : ℕ} {i fuel : ℕ} (hok : nodeOk tab depth i = true)
    (hfuel : depth ≤ fuel) (h : c.Ready 11 bits used)
    (hle : (plainWord tab bits fuel i used).2 ≤ bits.length) :
    ∃ d, decodeLoopTab tab fuel i c = .ok ((plainWord tab bits fuel i used).1, d) ∧
      d.Holds 11 2 bits (plainWord tab bits fuel i used).2 := by
  induction depth generalizing fuel c i used with
  | zero => exact (Bool.false_ne_true hok).elim
  | succ depth ih =>
    have hpos := lt_plainWord hok bits (by omega : 0 < fuel) used
    obtain ⟨fuel, rfl⟩ := Nat.exists_eq_succ_of_ne_zero (by omega : fuel ≠ 0)
    obtain ⟨head, hhead, -, hmax, hentries⟩ := nodeOk_spec hok
    obtain ⟨d, hd, hholds⟩ := h.ensure (by omega) (by decide) (by decide)
    have hpeek := HuffCache.Holds.peek (n := getMaxbits head) (hholds.mono (by omega)) (by omega)
    obtain ⟨cw, hcw, hdeep, hlen⟩ := hentries _ (field_lt (bits.drop used) (getMaxbits head))
    unfold decodeLoopTab
    unfold plainWord at hle ⊢
    dsimp only at hle ⊢
    rw [getD_of_some hhead, getD_of_some hcw] at hle ⊢
    rw [hd, Except.bind, tabEntry_of_some hhead, Except.bind, hpeek, tabEntry_of_some hcw,
      Except.bind]
    by_cases h0 : getHLen cw = 0
    · -- the next table, with the bits of this one skipped
      rw [if_pos h0] at hle ⊢
      rw [if_pos h0]
      exact ih (hdeep h0) (by omega) (Or.inl (HuffCache.Holds.skip (n := getMaxbits head) (m := 0)
        (hholds.mono (by omega)) le_rfl)) hle
    · rw [if_neg h0] at hle ⊢
      rw [if_neg h0]
      exact ⟨_, rfl, HuffCache.Holds.skip (n := getHLen cw) (m := 2) (hholds.mono (by omega))
        (by decide)⟩

theorem decodeOneShot_spec (hok : nodeOk tab 1 0 = true) (h : c.Ready 11 bits used)
    (hle : (plainWord tab bits tab.length 0 used).2 ≤ bits.length) :
    ∃ d, decodeOneShot tab c = .ok ((plainWord tab bits tab.length 0 used).1, d) ∧
      d.Holds 11 2 bits (plainWord tab bits tab.length 0 used).2 := by
  obtain ⟨head, hhead, -, hmax, hentries⟩ := nodeOk_spec hok
  have hlength : 0 < tab.length := (List.getElem?_eq_some_iff.mp hhead).1
  have hpos := lt_plainWord hok bits hlength used
  obtain ⟨fuel, hfuel⟩ := Nat.exists_eq_succ_of_ne_zero hlength.ne'
  obtain ⟨d, hd, hholds⟩ := h.ensure (by omega) (by decide) (by decide)
  have hpeek := HuffCache.Holds.peek (n := getMaxbits head) (hholds.mono (by omega)) (by omega)
  obtain ⟨cw, hcw, hdeep, hlen⟩ := hentries _ (field_lt (bits.drop used) (getMaxbits head))
  have h0 : getHLen cw ≠ 0 := fun h0 => Bool.false_ne_true (hdeep h0)
  unfold decodeOneShot
  rw [hfuel] at hle ⊢
  unfold plainWord at hle ⊢
  dsimp only at hle ⊢
  rw [getD_of_some hhead, getD_of_some hcw, if_neg h0] at hle ⊢
  rw [Nat.zero_add] at hcw
  rw [hd, Except.bind, tabEntry_of_some hhead, Except.bind, hpeek, tabEntry_of_some hcw, Except.map]
  exact ⟨_, rfl,
    HuffCache.Holds.skip (n := getHLen cw) (m := 2) (hholds.mono (by omega)) (by decide)⟩

/-! ### Values -/

theorem fillLoop_spec (minBits : ℤ) (fuel : ℕ) (h : c.Cached bits used)
    (htotal : minBits ≤ c.cachedBits + c.bitsLeft) (hmin : minBits ≤ 16)
    (hfuel : minBits - c.cachedBits ≤ fuel) :
    ∃ d, fillLoop minBits fuel c = .ok d ∧ d.Cached bits used ∧ minBits ≤ d.cachedBits := by
  induction fuel generalizing c with
  | zero => exact ⟨c, rfl, h, by omega⟩
  | succ fuel ih =>
    unfold fillLoop
    by_cases hfew : c.cachedBits < minBits
    · have hleft : 0 < c.bitsLeft := by omega
      rw [if_pos hfew, HuffCache.load_of_lt (h.lt hleft), Except.bind]
      exact ih (h.next hleft (by omega))
        (show minBits ≤ c.cachedBits + 8 + (c.bitsLeft - 8) by omega)
        (show minBits - (c.cachedBits + 8) ≤ fuel by omega)
    · rw [if_neg hfew]
      exact ⟨c, rfl, h, not_lt.mp hfew⟩

/-- **The bits of a large value**, for which, and for the `e` signs behind them, the cache is
filled. -/
theorem decodeLinbits_spec {linBits e : ℕ} (x : ℕ) (h : c.Holds 11 0 bits used)
    (hlin : linBits ≤ 13) (he : e ≤ 2) (he' : 0 < e) (hle : used + linBits + e ≤ bits.length) :
    ∃ d, decodeLinbits linBits (linBits + e) x c =
        .ok (x + field (bits.drop used) linBits, d) ∧ d.Holds 11 e bits (used + linBits) := by
  have hready : ∀ d : HuffCache, d.Holds 11 (e + linBits : ℤ) bits used →
      d.peek linBits = field (bits.drop used) linBits ∧
        (d.skip linBits).Holds 11 e bits (used + linBits) := fun d hd =>
    ⟨HuffCache.Holds.peek (n := linBits) (hd.mono (by omega)) (by omega),
      HuffCache.Holds.skip hd (by omega)⟩
  unfold decodeLinbits
  rcases h with ⟨hc, hleft, -⟩ | hp
  · have htotal := hc.total
    have hcached : 0 ≤ c.cachedBits := by
      obtain ⟨cached, hlen, -⟩ := hc.cache
      omega
    obtain ⟨d, hd, hdc, hmin⟩ := fillLoop_spec ((linBits + e : ℕ) : ℤ)
      (linBits + e) hc (by omega) (by omega) (by omega)
    have hdtotal := hdc.total
    rw [if_neg (by omega), hd, Except.map]
    by_cases hneg : d.bitsLeft < 0
    · -- the last byte has more bits than are left
      rw [if_pos hneg]
      obtain ⟨hpeek, hskip⟩ := hready d.drain (Or.inl ⟨hdc.drain hneg.le (by omega), le_rfl,
        show (e + linBits : ℤ) ≤ d.cachedBits + d.bitsLeft by omega⟩)
      exact ⟨_, by rw [← hpeek], hskip⟩
    · rw [if_neg hneg]
      obtain ⟨hpeek, hskip⟩ := hready d (Or.inl ⟨hdc, not_lt.mp hneg, by push_cast at hmin; omega⟩)
      exact ⟨_, by rw [← hpeek], hskip⟩
  · -- the padding is in the cache already: it is not filled
    have hcached := hp.cached
    have hleft := hp.left
    have hfill : fillLoop ((linBits + e : ℕ) : ℤ) (linBits + e) c = .ok c := by
      obtain ⟨fuel, hfuel⟩ := Nat.exists_eq_succ_of_ne_zero (by omega : linBits + e ≠ 0)
      rw [hfuel, fillLoop, if_neg (by omega)]
    obtain ⟨hpeek, hskip⟩ := hready c (Or.inr hp)
    rw [if_neg (by omega), hfill, Except.map, if_neg (by omega)]
    exact ⟨_, by rw [← hpeek], hskip⟩

/-- A value in front of its sign, large or not. -/
theorem value_spec (linBits m x : ℕ) (h : c.Holds 11 0 bits used) (hm : 0 < m) (hm2 : m ≤ 2)
    (hlin : linBits ≤ 13) (hsmall : ¬(x = 15 ∧ linBits ≠ 0) → c.Holds 11 m bits used)
    (hle : x = 15 ∧ linBits ≠ 0 → used + linBits + m ≤ bits.length) :
    ∃ d, (if x = 15 ∧ linBits ≠ 0 then decodeLinbits linBits (linBits + m) x c else .ok (x, c)) =
        .ok ((plainLinbits linBits bits x used).1, d) ∧
      d.Holds 11 m bits (plainLinbits linBits bits x used).2 := by
  unfold plainLinbits
  by_cases hesc : x = 15 ∧ linBits ≠ 0
  · rw [if_pos hesc, if_pos hesc]
    exact decodeLinbits_spec x h hlin hm2 hm (hle hesc)
  · rw [if_neg hesc, if_neg hesc]
    exact ⟨c, rfl, hsmall hesc⟩

theorem plainSign_pos {x : ℕ} (hx : 0 < x) (bits : List Bool) (used : ℕ) :
    (plainSign bits x used).2 = used + 1 := by
  rw [plainSign, if_pos hx.ne']

theorem plainLinbits_large {linBits x : ℕ} (h : x = 15 ∧ linBits ≠ 0) (bits : List Bool)
    (used : ℕ) : (plainLinbits linBits bits x used).2 = used + linBits := by
  rw [plainLinbits, if_pos h]

theorem plainLinbits_pos {linBits x : ℕ} (hx : 0 < x) (bits : List Bool) (used : ℕ) :
    0 < (plainLinbits linBits bits x used).1 := by
  unfold plainLinbits
  split_ifs
  · exact Nat.add_pos_left hx _
  · exact hx

/-- **Both values of a pair.** -/
theorem decodeValues_spec {linBits cw : ℕ} (h : c.Holds 11 2 bits used) (hlin : linBits ≤ 13)
    (hle : (plainValues linBits bits cw used).2 ≤ bits.length) :
    ∃ d, decodeValues linBits cw c = .ok ((plainValues linBits bits cw used).1, d) ∧
      d.Holds 11 0 bits (plainValues linBits bits cw used).2 := by
  obtain ⟨x, hx⟩ : ∃ x, getCWX cw = x := ⟨_, rfl⟩
  obtain ⟨y, hy⟩ : ∃ y, getCWY cw = y := ⟨_, rfl⟩
  obtain ⟨e, he, he1, hey⟩ : ∃ e, (if y ≠ 0 then 1 else 0) = e ∧ e ≤ 1 ∧ (y ≠ 0 ↔ e = 1) :=
    ⟨_, rfl, by split_ifs <;> omega, by split_ifs <;> simp [*]⟩
  obtain ⟨vx, hvx⟩ : ∃ v, plainLinbits linBits bits x used = v := ⟨_, rfl⟩
  obtain ⟨sx, hsx⟩ : ∃ v, plainSign bits vx.1 vx.2 = v := ⟨_, rfl⟩
  obtain ⟨vy, hvy⟩ : ∃ v, plainLinbits linBits bits y sx.2 = v := ⟨_, rfl⟩
  -- How many bits each part uses.
  have hxlarge : x = 15 ∧ linBits ≠ 0 → vx.2 = used + linBits ∧ sx.2 = vx.2 + 1 := fun hlarge =>
    ⟨hvx ▸ plainLinbits_large hlarge bits used,
      hsx ▸ plainSign_pos (hvx ▸ plainLinbits_pos (by omega) bits used) bits vx.2⟩
  have hylarge : y = 15 ∧ linBits ≠ 0 → vy.2 = sx.2 + linBits := fun hlarge =>
    hvy ▸ plainLinbits_large hlarge bits sx.2
  have hysign : y ≠ 0 → (plainSign bits vy.1 vy.2).2 = vy.2 + 1 := fun hpos =>
    plainSign_pos (hvy ▸ plainLinbits_pos (Nat.pos_of_ne_zero hpos) bits sx.2) bits vy.2
  have hle₁ : sx.2 ≤ vy.2 := hvy ▸ le_plainLinbits linBits bits y sx.2
  have hle₂ := le_plainSign bits vy.1 vy.2
  unfold plainValues at hle ⊢
  dsimp only at hle ⊢
  rw [hx, hy, hvx, hsx, hvy] at hle ⊢
  unfold decodeValues
  dsimp only
  rw [hx, hy, he]
  -- The first value: its sign and that of the second one are in the cache.
  obtain ⟨d, hd, hholds⟩ := value_spec linBits (1 + e) x (h.mono (by decide))
    (by omega) (by omega) hlin (fun _ => h.mono (by push_cast; omega)) (fun hlarge => by
      obtain ⟨h₁, h₂⟩ := hxlarge hlarge
      by_cases hy0 : y ≠ 0
      · have := hysign hy0
        omega
      · omega)
  rw [hvx] at hd hholds
  obtain ⟨hsign, hholds'⟩ := HuffCache.Holds.sign (m := e) (hholds.mono (by push_cast; omega))
    (by omega) vx.1
  rw [hsx] at hsign hholds'
  rw [Nat.add_assoc, hd, Except.bind]
  dsimp only
  rw [hsign]
  -- The second value.
  by_cases hy0 : y = 0
  · have hnot : ¬(y = 15 ∧ linBits ≠ 0) := by omega
    rw [plainLinbits, if_neg hnot] at hvy
    rw [if_neg hnot, Except.map, ← hvy, hy0]
    exact ⟨_, rfl, hholds'.mono (by omega)⟩
  · have he' := hey.mp hy0
    obtain ⟨d', hd', hlast⟩ := value_spec linBits 1 y (hholds'.mono (by omega))
      (by omega) (by omega) hlin (fun _ => hholds'.mono (by omega)) (fun hlarge => by
        have h₁ := hylarge hlarge
        have h₂ := hysign hy0
        omega)
    rw [hvy] at hd' hlast
    obtain ⟨hsign', hdone⟩ := HuffCache.Holds.sign (m := 0) hlast le_rfl vy.1
    rw [hd', Except.map]
    exact ⟨_, by rw [← hsign'], hdone⟩

/-! ### The loop over the pairs -/

theorem HuffCache.Ready.left (h : c.Ready 11 bits used) :
    c.bitsLeft + (c.cachedBits - c.padBits) = bits.length - used := by
  rcases h with h | ⟨hc, -, -⟩
  · exact h.left
  · have := hc.total
    rw [hc.pad]
    omega

theorem pairsLoop_spec {word : HuffCache → Except HuffError (ℕ × HuffCache)} {linBits : ℕ}
    (hlin : linBits ≤ 13)
    (hword : ∀ (c : HuffCache) (used : ℕ), c.Ready 11 bits used →
      (plainWord tab bits tab.length 0 used).2 ≤ bits.length →
      ∃ d, word c = .ok ((plainWord tab bits tab.length 0 used).1, d) ∧
        d.Holds 11 2 bits (plainWord tab bits tab.length 0 used).2)
    {n : ℕ} {r : List ℕ × ℕ} (h : c.Ready 11 bits used)
    (hr : plainPairs tab linBits bits n used = some r) :
    ∃ d, pairsLoop word linBits n c = .ok (r.1, d) ∧ d.Ready 11 bits r.2 := by
  induction n generalizing c used r with
  | zero =>
    obtain rfl := Option.some.inj hr
    exact ⟨c, rfl, h⟩
  | succ n ih =>
    unfold plainPairs at hr
    dsimp only at hr
    obtain ⟨w, hw⟩ : ∃ w, plainWord tab bits tab.length 0 used = w := ⟨_, rfl⟩
    have hword' := hword c used h
    rw [hw] at hr hword'
    by_cases hle : (plainValues linBits bits w.1 w.2).2 ≤ bits.length
    · -- the pair is among the bits, so its code word is
      rw [if_pos hle] at hr
      obtain ⟨r', hr', rfl⟩ := Option.map_eq_some_iff.mp hr
      obtain ⟨d, hd, hholds⟩ := hword' ((le_plainValues _ _ _ _).trans hle)
      obtain ⟨d', hd', hholds'⟩ := decodeValues_spec hholds hlin hle
      obtain ⟨d'', hd'', hready⟩ := ih (Or.inl hholds') hr'
      unfold pairsLoop
      rw [hd, Except.bind]
      dsimp only
      rw [hd', Except.bind]
      dsimp only
      rw [if_neg (mt hholds'.over_iff.mp (not_lt.mpr hle)), hd'', Except.map]
      exact ⟨d'', rfl, hready⟩
    · rw [if_neg hle] at hr
      exact absurd hr (Option.some_ne_none r).symm

end

/-- The tables that are not used have none of these types. -/
theorem huffTab_one_shot : ∀ tabIdx < 32,
    (huffTabLookup.getD tabIdx (0, .invalidTab)).2 = .oneShot →
      huffTab tabIdx ∈ [huffTable01, huffTable02, huffTable03, huffTable05, huffTable06] := by
  intro tabIdx h
  interval_cases tabIdx <;> simp [huffTabLookup, huffTab]

theorem huffTab_loop : ∀ tabIdx < 32,
    (huffTabLookup.getD tabIdx (0, .invalidTab)).2 ≠ .noBits →
    (huffTabLookup.getD tabIdx (0, .invalidTab)).2 ≠ .oneShot →
    (huffTabLookup.getD tabIdx (0, .invalidTab)).2 ≠ .invalidTab →
      huffTab tabIdx ∈ [huffTable07, huffTable08, huffTable09, huffTable10, huffTable11,
        huffTable12, huffTable13, huffTable15, huffTable16, huffTable24] := by
  intro tabIdx h
  interval_cases tabIdx <;> simp [huffTabLookup, huffTab]

theorem linBits_le : ∀ tabIdx < 32, (huffTabLookup.getD tabIdx (0, .invalidTab)).1 ≤ 13 := by
  decide

theorem lookup_of_ge {tabIdx : ℕ} (h : 32 ≤ tabIdx) :
    huffTabLookup.getD tabIdx (0, .invalidTab) = (0, .invalidTab) := by
  rw [List.getD_eq_getElem?_getD, List.getElem?_eq_none (by exact h), Option.getD_none]

theorem lt_of_validTab {tabIdx : ℕ}
    (h : (huffTabLookup.getD tabIdx (0, .invalidTab)).2 ≠ .invalidTab) : tabIdx < 32 := by
  by_contra hge
  exact h (by rw [lookup_of_ge (not_lt.mp hge)])

/-- A code word of a table with bits, of either type. -/
theorem word_spec {tabIdx : ℕ} {bits : List Bool} {c : HuffCache} {used : ℕ}
    (htype : (huffTabLookup.getD tabIdx (0, .invalidTab)).2 ≠ .invalidTab)
    (hzero : (huffTabLookup.getD tabIdx (0, .invalidTab)).2 ≠ .noBits) (h : c.Ready 11 bits used)
    (hle : (plainWord (huffTab tabIdx) bits (huffTab tabIdx).length 0 used).2 ≤ bits.length) :
    ∃ d, (if (huffTabLookup.getD tabIdx (0, .invalidTab)).2 = .oneShot then
          decodeOneShot (huffTab tabIdx)
        else decodeLoopTab (huffTab tabIdx) (huffTab tabIdx).length 0) c =
          .ok ((plainWord (huffTab tabIdx) bits (huffTab tabIdx).length 0 used).1, d) ∧
        d.Holds 11 2 bits (plainWord (huffTab tabIdx) bits (huffTab tabIdx).length 0 used).2 := by
  have htab := lt_of_validTab htype
  by_cases hone : (huffTabLookup.getD tabIdx (0, .invalidTab)).2 = .oneShot
  · rw [if_pos hone]
    exact decodeOneShot_spec (nodeOk_one_shot _ (huffTab_one_shot tabIdx htab hone)) h hle
  · rw [if_neg hone]
    have hmem := huffTab_loop tabIdx htab hzero hone htype
    exact decodeLoopTab_spec (nodeOk_loop _ hmem) (five_le_length _ hmem) h hle

/-- The values of a region of `nVals` values, and the bits behind it. -/
def plainRegion (nVals : ℤ) (tabIdx : ℕ) (bits : List Bool) : Option (List ℕ × List Bool) :=
  let lookup := huffTabLookup.getD tabIdx (0, .invalidTab)
  if nVals ≤ 0 then some ([], bits)
  else if lookup.2 = .noBits then some (List.replicate nVals.toNat 0, bits)
  else
    (plainPairs (huffTab tabIdx) lookup.1 bits (nVals.toNat / 2) 0).map fun r =>
      (r.1, bits.drop r.2)

theorem plainPairs_le {tab : List ℕ} {linBits : ℕ} {bits : List Bool} {n used : ℕ}
    {r : List ℕ × ℕ} (hle : used ≤ bits.length) (h : plainPairs tab linBits bits n used = some r) :
    r.2 ≤ bits.length ∧ r.1.length = 2 * n := by
  induction n generalizing used r with
  | zero =>
    obtain rfl := Option.some.inj h
    exact ⟨hle, rfl⟩
  | succ n ih =>
    unfold plainPairs at h
    dsimp only at h
    split_ifs at h with hin
    obtain ⟨r', hr', rfl⟩ := Option.map_eq_some_iff.mp h
    obtain ⟨hle', hlen⟩ := ih hin hr'
    refine ⟨hle', ?_⟩
    rw [List.length_append, hlen]
    show 2 + 2 * n = _
    ring

/-- **Pairs**: what can be decoded bit by bit is decoded by the cache, with as many bits. -/
theorem pairs_plain {nVals : ℤ} {tabIdx : ℕ} {bitsLeft : ℤ} {buf : List UInt8} {bitOffset : ℕ}
    {xy : List ℕ} {rest : List Bool} (heven : nVals % 2 = 0)
    (htype : 0 < nVals → (huffTabLookup.getD tabIdx (0, .invalidTab)).2 ≠ .invalidTab)
    (hoff : bitOffset < 8) (hleft : 0 ≤ bitsLeft) (hlen : bitOffset + bitsLeft ≤ 8 * buf.length)
    (h : plainRegion nVals tabIdx (((ofBytes buf).drop bitOffset).take bitsLeft.toNat) =
      some (xy, rest)) :
    decodeHuffmanPairs nVals tabIdx bitsLeft buf bitOffset = .ok (bitsLeft - rest.length, xy) := by
  obtain ⟨bits, hbits⟩ : ∃ bits, ((ofBytes buf).drop bitOffset).take bitsLeft.toNat = bits :=
    ⟨_, rfl⟩
  have hcount : (bits.length : ℤ) = bitsLeft := by
    rw [← hbits, List.length_take, List.length_drop, length_ofBytes]
    omega
  unfold plainRegion at h
  unfold decodeHuffmanPairs
  dsimp only at h ⊢
  rw [hbits] at h
  by_cases hnone : nVals ≤ 0
  · rw [if_pos hnone, Option.some.injEq, Prod.mk.injEq] at h
    rw [if_pos hnone, ← h.1, ← h.2, hcount, Int.sub_self]
  rw [if_neg hnone] at h
  have htype' := htype (not_le.mp hnone)
  obtain ⟨c, hc, hready⟩ := HuffCache.start_spec 11 hoff hleft hlen
  rw [hbits] at hready
  rw [if_neg hnone, if_neg (not_lt.mpr hleft), if_neg (not_or.mpr ⟨not_not.mpr heven, htype'⟩), hc,
    Except.bind]
  by_cases hzero : (huffTabLookup.getD tabIdx (0, .invalidTab)).2 = .noBits
  · -- the values are zeros, and no bit is used
    rw [if_pos hzero, Option.some.injEq, Prod.mk.injEq] at h
    rw [if_pos hzero, ← h.1, ← h.2, hcount, Int.sub_self]
  rw [if_neg hzero] at h
  obtain ⟨r, hr, hr'⟩ := Option.map_eq_some_iff.mp h
  rw [Prod.mk.injEq] at hr'
  obtain ⟨rfl, rfl⟩ := hr'
  have hlast := (plainPairs_le (Nat.zero_le _) hr).1
  obtain ⟨d, hd, hdone⟩ := pairsLoop_spec (linBits_le tabIdx (lt_of_validTab htype'))
    (fun _ _ => word_spec htype' hzero) hready hr
  rw [if_neg hzero, hd, Except.map]
  dsimp only
  rw [hdone.left, List.length_drop, Nat.cast_sub hlast]

/-! ### Whatever the bits are -/

/-- No byte behind the end of the buffer is read, and no entry behind the end of a table. -/
def Safely {α : Type} (Q : α → Prop) : Except HuffError α → Prop
  | .ok a => Q a
  | .error e => e = .outOfBits

namespace Safely

variable {α β : Type} {Q : α → Prop} {R : β → Prop} {x : Except HuffError α}

theorem bind {f : α → Except HuffError β} (h : Safely Q x) (hf : ∀ a, Q a → Safely R (f a)) :
    Safely R (x.bind f) := by
  cases x with
  | ok a => exact hf a h
  | error e => exact h

theorem map {f : α → β} (h : Safely Q x) (hf : ∀ a, Q a → R (f a)) : Safely R (x.map f) := by
  cases x with
  | ok a => exact hf a h
  | error e => exact h

end Safely

namespace HuffCache

/-- The bits that are left are those of the buffer. -/
structure Safe (c : HuffCache) : Prop where
  cache : c.cache < 2 ^ 32
  ptr : c.ptr ≤ c.buf.length
  fits : 8 * (c.ptr : ℤ) + c.bitsLeft ≤ 8 * c.buf.length

variable {c : HuffCache}

theorem Safe.next (h : c.Safe) (hleft : 0 < c.bitsLeft) : c.next.Safe where
  cache := Nat.or_lt_two_pow h.cache (Nat.mod_lt _ (Nat.two_pow_pos 32))
  ptr := by
    have := h.fits
    show c.ptr + 1 ≤ c.buf.length
    omega
  fits := by
    have := h.fits
    show 8 * ((c.ptr + 1 : ℕ) : ℤ) + (c.bitsLeft - 8) ≤ 8 * c.buf.length
    omega

theorem Safe.drain (h : c.Safe) : c.drain.Safe where
  cache := (Nat.and_le_left).trans_lt h.cache
  ptr := h.ptr
  fits := by
    have := h.ptr
    show 8 * (c.ptr : ℤ) + 0 ≤ 8 * c.buf.length
    omega

theorem Safe.skip (h : c.Safe) (n : ℕ) : (c.skip n).Safe where
  cache := Nat.mod_lt _ (Nat.two_pow_pos 32)
  ptr := h.ptr
  fits := h.fits

theorem Safe.sign (h : c.Safe) (x : ℕ) : (c.sign x).2.Safe := by
  unfold HuffCache.sign
  split_ifs
  · exact h.skip 1
  · exact h

theorem Safe.ensure (h : c.Safe) (pad : ℤ) : Safely Safe (c.ensure pad) := by
  have hfits := h.fits
  have hptr := h.ptr
  unfold HuffCache.ensure
  split_ifs with hfew
  · rcases Int.lt_or_le c.bitsLeft 16 with hleft | hleft
    · by_cases hpos : 0 < c.cachedBits + c.bitsLeft
      · rw [refill_last (by split_ifs <;> omega) hleft hpos]
        show Safe _
        split_ifs with h8 h0
        · have h₂ := ((h.next (by omega)).next (show 0 < c.bitsLeft - 8 by omega)).drain
          exact ⟨h₂.cache, h₂.ptr, h₂.fits⟩
        · have h₁ := (h.next h0).drain
          exact ⟨h₁.cache, h₁.ptr, h₁.fits⟩
        · exact ⟨h.drain.cache, h.drain.ptr, h.drain.fits⟩
      · unfold HuffCache.refill
        rw [if_neg (by omega), if_pos (by omega)]
        rfl
    · rw [refill_more (by omega) hleft]
      exact (h.next (by omega)).next (show 0 < c.bitsLeft - 8 by omega)
  · exact h

theorem Safe.start {buf : List UInt8} {bitOffset : ℕ} {bitsLeft : ℤ} (hoff : bitOffset < 8)
    (hleft : 0 ≤ bitsLeft) (hlen : bitOffset + bitsLeft ≤ 8 * buf.length) :
    Safely Safe (HuffCache.start buf bitOffset bitsLeft) := by
  unfold HuffCache.start loadIf
  dsimp only
  rcases startBits bitOffset hoff with ⟨h0, hn⟩ | ⟨hpos, hn⟩
  · rw [hn, if_neg (by simp)]
    exact ⟨Nat.two_pow_pos 32, Nat.zero_le _,
      show 8 * (0 : ℤ) + (bitsLeft - 0) ≤ 8 * buf.length by omega⟩
  · have hbuf : 0 < buf.length := by omega
    rw [hn, if_pos (by omega), load_of_lt hbuf]
    refine ⟨?_, hbuf, ?_⟩
    · show 0 ||| _ % 2 ^ 32 < 2 ^ 32
      rw [Nat.zero_or]
      exact Nat.mod_lt _ (Nat.two_pow_pos 32)
    · show 8 * (1 : ℤ) + (bitsLeft - (8 - bitOffset : ℕ)) ≤ 8 * buf.length
      omega

end HuffCache

section

open HuffCache

variable {c : HuffCache} {tab : List ℕ}

end

end AudioPipeline
