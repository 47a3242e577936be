import AudioPipeline.Codec.Bitstream
import AudioPipeline.Lib.Bits
import Mathlib.Tactic.IntervalCases

/-!
# Reading bits

`BitStreamInfo.Reads` says which bits the reader has still to give, and how many it has given past
the end.

* `getBits_spec`: one field;
* `bitstream_reads`: any fields, one after the other, are those of the bytes of the buffer.

For the parsers on top, `Gets p bits a` says that `p` takes just `bits` and returns `a`, and
`Takes p k Q` that it takes `k` bits, whatever they are.
-/

namespace AudioPipeline

open Bits

namespace BitStreamInfo

/-- The reader still has the bits `rest` to give, and has given `beyond` bits past the end. -/
structure Reads (bsi : BitStreamInfo) (rest : List Bool) (beyond : ℕ) : Prop where
  fits : bsi.bytePtr + bsi.nBytes ≤ bsi.buf.length
  cache : ∃ cached : List Bool,
    rest = cached ++ ofBytes ((bsi.buf.drop bsi.bytePtr).take bsi.nBytes) ∧ cached.length ≤ 32 ∧
      bsi.cachedBits = cached.length - beyond ∧ bsi.iCache = field cached 32
  past : 0 < beyond → rest = []

/-- Where the bytes of the reader end. -/
def last (bsi : BitStreamInfo) : ℕ := bsi.bytePtr + bsi.nBytes

theorem reads_start {nBytes : ℕ} {buf : List UInt8} (h : nBytes ≤ buf.length) :
    (setBitstreamPointer nBytes buf).Reads (ofBytes (buf.take nBytes)) 0 where
  fits := by simpa [setBitstreamPointer] using h
  cache := ⟨[], rfl, by simp, rfl, rfl⟩
  past := fun h => absurd h (lt_irrefl 0)

theorem Reads.length_rest {bsi : BitStreamInfo} {rest : List Bool} {beyond : ℕ}
    (h : bsi.Reads rest beyond) : (rest.length : ℤ) = bsi.cachedBits + beyond + 8 * bsi.nBytes := by
  obtain ⟨cached, hrest, -, hcount, -⟩ := h.cache
  have := h.fits
  rw [hrest, List.length_append, length_ofBytes, List.length_take, List.length_drop, hcount]
  omega

theorem Reads.cachedBits_ge {bsi : BitStreamInfo} {rest : List Bool} {beyond : ℕ}
    (h : bsi.Reads rest beyond) : -(beyond : ℤ) ≤ bsi.cachedBits := by
  obtain ⟨cached, -, -, hcount, -⟩ := h.cache
  omega

/-! ### Refilling -/

/-- The bytes that are cached next. -/
def nextBytes (bsi : BitStreamInfo) : List UInt8 :=
  (bsi.buf.drop bsi.bytePtr).take (min 4 bsi.nBytes)

variable {bsi : BitStreamInfo}

theorem byte_eq {b : UInt8} {i : ℕ} (h : (bsi.buf.drop bsi.bytePtr)[i]? = some b) :
    bsi.byte i = b.toNat := by
  rw [List.getElem?_drop] at h
  rw [byte, List.getD_eq_getElem?_getD, h]
  rfl

/-- The cache of four bytes. -/
theorem four_bytes (b₀ b₁ b₂ b₃ : UInt8) :
    b₀.toNat <<< 24 ||| b₁.toNat <<< 16 ||| b₂.toNat <<< 8 ||| b₃.toNat =
      field (ofBytes [b₀, b₁, b₂, b₃]) 32 := by
  have h₀ := b₀.toNat_lt
  have h₁ := b₁.toNat_lt
  have h₂ := b₂.toNat_lt
  have h₃ := b₃.toNat_lt
  rw [lor_shiftLeft (i := 24) (by rw [Nat.shiftLeft_eq]; omega),
    show b₀.toNat * 2 ^ 24 + b₁.toNat <<< 16 = (b₀.toNat * 2 ^ 8 + b₁.toNat) <<< 16 by
      rw [Nat.shiftLeft_eq, Nat.shiftLeft_eq]; ring,
    lor_shiftLeft (i := 16) (by rw [Nat.shiftLeft_eq]; omega),
    show (b₀.toNat * 2 ^ 8 + b₁.toNat) * 2 ^ 16 + b₂.toNat <<< 8 =
      (b₀.toNat * 2 ^ 16 + b₁.toNat * 2 ^ 8 + b₂.toNat) <<< 8 by
      rw [Nat.shiftLeft_eq, Nat.shiftLeft_eq]; ring,
    lor_shiftLeft (i := 8) (by omega), field_of_ge (by simp)]
  simp only [ofBytes_cons, ofBytes_nil, List.append_nil, value_append, value_ofByte,
    List.length_append, length_ofByte]
  ring

/-- The loop that caches the last bytes. -/
theorem fold_bytes {bs : List UInt8} {byte : ℕ → ℕ}
    (h : ∀ i, ∀ b ∈ bs[i]?, byte i = b.toNat) {k : ℕ} (hk : k ≤ bs.length) (h4 : k < 4) :
    (List.range k).foldl (fun iCache i => (iCache ||| byte i) <<< 8 % 2 ^ 32) 0 =
      value (ofBytes (bs.take k)) * 2 ^ 8 := by
  induction k with
  | zero =>
    rw [List.range_zero, List.foldl_nil, List.take_zero, ofBytes_nil, value_nil, Nat.zero_mul]
  | succ k ih =>
    have hb := h k bs[k] (List.getElem?_eq_getElem hk)
    have hlt := value_lt (ofBytes (bs.take k) ++ ofByte bs[k])
    have hpow : 2 ^ (ofBytes (bs.take k) ++ ofByte bs[k]).length ≤ 2 ^ 24 := by
      refine Nat.pow_le_pow_right (by decide) ?_
      rw [List.length_append, length_ofBytes, length_ofByte, List.length_take]
      omega
    rw [List.range_succ, List.foldl_append, ih (by omega) (by omega), List.foldl_cons,
      List.foldl_nil, hb, ← Nat.shiftLeft_eq, lor_shiftLeft bs[k].toNat_lt, Nat.shiftLeft_eq,
      List.take_succ_eq_append_getElem hk, ofBytes_append, ofBytes_cons, ofBytes_nil,
      List.append_nil, value_append, value_ofByte, length_ofByte]
    rw [value_append, value_ofByte, length_ofByte] at hlt
    omega

theorem last_bytes {bs : List UInt8} (hlen : bs.length < 4) {byte : ℕ → ℕ}
    (h : ∀ i, ∀ b ∈ bs[i]?, byte i = b.toNat) :
    (List.range bs.length).foldl (fun iCache i => (iCache ||| byte i) <<< 8 % 2 ^ 32) 0 <<<
        ((3 - bs.length) * 8) % 2 ^ 32 = field (ofBytes bs) 32 := by
  have hlt := field_lt (ofBytes bs) 32
  have hpow : 2 ^ 8 * 2 ^ ((3 - bs.length) * 8) = 2 ^ (32 - 8 * bs.length) := by
    rw [← Nat.pow_add]
    congr 1
    omega
  rw [field_of_ge (by rw [length_ofBytes]; omega), length_ofBytes] at hlt ⊢
  rw [fold_bytes h le_rfl hlen, List.take_length, Nat.shiftLeft_eq, Nat.mul_assoc, hpow,
    Nat.mod_eq_of_lt hlt]

/-- `RefillBitstreamCache` caches the next bytes. -/
theorem refill_spec (h : bsi.bytePtr + bsi.nBytes ≤ bsi.buf.length) :
    bsi.refillBitstreamCache =
      { bsi with
        bytePtr := bsi.bytePtr + min 4 bsi.nBytes
        iCache := field (ofBytes bsi.nextBytes) 32
        cachedBits := 8 * (min 4 bsi.nBytes : ℕ)
        nBytes := bsi.nBytes - min 4 bsi.nBytes } := by
  have hbyte : ∀ i, ∀ b ∈ bsi.nextBytes[i]?, bsi.byte i = b.toNat := fun i b hb => by
    refine byte_eq ?_
    rw [nextBytes, List.getElem?_take] at hb
    split_ifs at hb with hi
    · exact hb
    · exact absurd hb (Option.not_mem_none b)
  have hlen : bsi.nextBytes.length = min 4 bsi.nBytes := by
    rw [nextBytes, List.length_take, List.length_drop]
    omega
  unfold refillBitstreamCache
  split_ifs with h4
  · rw [Nat.min_eq_left h4] at hlen ⊢
    obtain ⟨b₀, b₁, b₂, b₃, hnext⟩ := List.length_eq_four.mp hlen
    rw [hnext] at hbyte ⊢
    rw [hbyte 0 b₀ rfl, hbyte 1 b₁ rfl, hbyte 2 b₂ rfl, hbyte 3 b₃ rfl, four_bytes]
    rfl
  · have hmin : min 4 bsi.nBytes = bsi.nBytes := by omega
    rw [hmin] at hlen ⊢
    have hlast := last_bytes (by rw [hlen]; omega) hbyte
    rw [hlen] at hlast
    rw [← hlast, Nat.sub_self]

/-! ### One field -/

theorem Reads.frame {rest : List Bool} {beyond n : ℕ} {cached : List Bool} {count : ℤ} {iCache : ℕ}
    (h : bsi.Reads rest beyond) (hrest : rest.drop n =
      cached ++ ofBytes ((bsi.buf.drop bsi.bytePtr).take bsi.nBytes)) (hlen : cached.length ≤ 32)
    (hcount : count = cached.length - beyond) (hcache : iCache = field cached 32) :
    { bsi with iCache := iCache, cachedBits := count }.Reads (rest.drop n) beyond where
  fits := h.fits
  cache := ⟨cached, hrest, hlen, hcount, hcache⟩
  past := fun hbeyond => by rw [h.past hbeyond, List.drop_nil]

/-- The bits of the cache that `GetBits` takes, and those that it leaves. -/
theorem cache_spec {cached : List Bool} {n : ℕ} (hn : n ≤ 31) (hlen : cached.length ≤ 32) :
    field cached 32 >>> (31 - n) >>> 1 = field cached n ∧
      field cached 32 <<< n % 2 ^ 32 = field (cached.drop n) 32 := by
  constructor
  · rw [← Nat.shiftRight_add, show 31 - n + 1 = 32 - n by omega, Nat.shiftRight_eq_div_pow,
      field_div (by omega)]
  · rw [Nat.shiftLeft_eq, field_shl hlen]

/-- The bytes that are not cached next. -/
theorem ofBytes_next (h : bsi.bytePtr + bsi.nBytes ≤ bsi.buf.length) :
    ∃ later, ofBytes ((bsi.buf.drop bsi.bytePtr).take bsi.nBytes) =
        ofBytes bsi.nextBytes ++ later ∧
      later = ofBytes ((bsi.buf.drop (bsi.bytePtr + min 4 bsi.nBytes)).take
        (bsi.nBytes - min 4 bsi.nBytes)) ∧
      (ofBytes bsi.nextBytes).length = 8 * min 4 bsi.nBytes ∧
      (bsi.nBytes < 4 → later = []) := by
  have hsplit : (bsi.buf.drop bsi.bytePtr).take bsi.nBytes =
      bsi.nextBytes ++ (bsi.buf.drop (bsi.bytePtr + min 4 bsi.nBytes)).take
        (bsi.nBytes - min 4 bsi.nBytes) := by
    rw [nextBytes, ← List.drop_drop, ← List.take_add, Nat.add_sub_cancel' (Nat.min_le_right _ _)]
  refine ⟨_, by rw [hsplit, ofBytes_append], rfl, ?_, fun h4 => ?_⟩
  · rw [length_ofBytes, nextBytes, List.length_take, List.length_drop]
    omega
  · rw [show bsi.nBytes - min 4 bsi.nBytes = 0 by omega, List.take_zero, ofBytes_nil]

end BitStreamInfo

open BitStreamInfo

variable {bsi : BitStreamInfo} {rest : List Bool} {beyond n : ℕ}

/-- **`GetBits`** takes a field of `n` bits. -/
theorem getBits_spec (h : bsi.Reads rest beyond) (hn : n < 32) :
    (getBits n bsi).1 = field rest n ∧
      (getBits n bsi).2.Reads (rest.drop n) (beyond + (n - rest.length)) ∧
      (getBits n bsi).2.last = bsi.last ∧ (getBits n bsi).2.buf = bsi.buf := by
  obtain ⟨cached, hrest, hlen, hcount, hcache⟩ := h.cache
  obtain ⟨hdata, hleft⟩ := cache_spec (Nat.le_of_lt_succ hn) hlen
  have hmask : n &&& 0x1f = n := by
    rw [show (0x1f : ℕ) = 2 ^ 5 - 1 from rfl, Nat.and_two_pow_sub_one_eq_mod, Nat.mod_eq_of_lt hn]
  unfold getBits
  simp only [hmask, hcache, hdata, hleft]
  by_cases hneg : bsi.cachedBits - n < 0
  · -- `low` more bits than there are in the cache
    rw [if_pos hneg]
    have hfits := h.fits
    obtain ⟨later, hnext, hlater, hlnext, hend⟩ := ofBytes_next hfits
    have hrefill := @refill_spec
      { bsi with iCache := field (cached.drop n) 32, cachedBits := bsi.cachedBits - n } hfits
    rw [hrefill]
    obtain ⟨low, hlow⟩ : ∃ low, (-(bsi.cachedBits - n)).toNat = low := ⟨_, rfl⟩
    have hsum : low + cached.length = n + beyond := by omega
    -- the cache that is left, whether there are bits or not
    have hnew : ∀ k : ℕ, 8 * (min 4 bsi.nBytes : ℕ) - (low : ℤ) =
        ((ofBytes bsi.nextBytes).drop low).length - (k : ℤ) →
        rest.drop n = (ofBytes bsi.nextBytes).drop low ++ later → (0 < k → rest.drop n = []) →
        ({ bsi with
          bytePtr := bsi.bytePtr + min 4 bsi.nBytes
          iCache := field (ofBytes bsi.nextBytes) 32 <<< low % 2 ^ 32
          cachedBits := 8 * (min 4 bsi.nBytes : ℕ) - (low : ℤ)
          nBytes := bsi.nBytes - min 4 bsi.nBytes } : BitStreamInfo).Reads (rest.drop n) k := by
      intro k hcount hdrop hpast
      have hend' : bsi.bytePtr + min 4 bsi.nBytes + (bsi.nBytes - min 4 bsi.nBytes) ≤
        bsi.buf.length := by omega
      refine ⟨hend',
        ⟨_, hlater ▸ hdrop, by rw [List.length_drop]; omega, hcount, ?_⟩, hpast⟩
      show field (ofBytes bsi.nextBytes) 32 <<< low % 2 ^ 32 = _
      rw [Nat.shiftLeft_eq, field_shl (by omega)]
    have hlast : bsi.bytePtr + min 4 bsi.nBytes + (bsi.nBytes - min 4 bsi.nBytes) = bsi.last := by
      rw [last]
      omega
    have hcover := h.length_rest
    rcases Nat.eq_zero_or_pos beyond with rfl | hbeyond
    · have hdrop : rest.drop n = (ofBytes bsi.nextBytes).drop low ++ later := by
        rw [hrest, hnext, List.drop_append, List.drop_of_length_le (by omega), List.nil_append,
          show n - cached.length = low by omega]
        rcases Nat.lt_or_ge bsi.nBytes 4 with h4 | h4
        · rw [hend h4, List.append_nil, List.append_nil]
        · exact List.drop_append_of_le_length (by omega)
      refine ⟨?_, ?_, hlast, rfl⟩
      · -- the bits of the old cache, and those of the new one
        show field cached n |||
          field (ofBytes bsi.nextBytes) 32 >>> (32 - (-(bsi.cachedBits - n)).toNat) = field rest n
        rw [hlow, Nat.shiftRight_eq_div_pow, field_div (by omega), field_of_ge (by omega),
          ← Nat.shiftLeft_eq, show n - cached.length = low by omega, lor_shiftLeft (field_lt _ _),
          hrest, field_append (by omega), hnext, show n - cached.length = low by omega]
        rcases Nat.lt_or_ge bsi.nBytes 4 with h4 | h4
        · rw [hend h4, List.append_nil]
        · rw [field_append_left (by omega)]
      · simp only [hlow]
        refine hnew _ ?_ hdrop fun hpos => ?_
        · rw [List.length_drop, hlnext]
          omega
        · rw [List.drop_of_length_le]
          omega
    · -- there is nothing left to read
      obtain rfl := h.past hbeyond
      obtain ⟨rfl, hnil⟩ := List.append_eq_nil_iff.mp hrest.symm
      rw [hnext] at hnil
      obtain ⟨hnextnil, rfl⟩ := List.append_eq_nil_iff.mp hnil
      refine ⟨?_, ?_, hlast, rfl⟩
      · show field [] n ||| field (ofBytes bsi.nextBytes) 32 >>> _ = field [] n
        rw [hnextnil, field_nil, field_nil, Nat.zero_shiftRight, Nat.or_zero]
      · simp only [hlow]
        refine hnew _ ?_ (by rw [hnextnil, List.drop_nil, List.drop_nil]; rfl)
          fun _ => List.drop_nil
        rw [hnextnil] at hlnext ⊢
        rw [List.length_nil] at hlnext hsum ⊢
        rw [List.drop_nil, List.length_nil]
        omega
  · rw [if_neg hneg]
    have hnc : n ≤ cached.length := by omega
    have hdrop : rest.drop n =
        cached.drop n ++ ofBytes ((bsi.buf.drop bsi.bytePtr).take bsi.nBytes) := by
      rw [hrest, List.drop_append_of_le_length hnc]
    have hbeyond : beyond + (n - rest.length) = beyond := by
      rw [hrest, List.length_append]
      omega
    refine ⟨?_, ?_, rfl, rfl⟩
    · show field cached n = field rest n
      rw [hrest, field_of_le hnc, field_of_le (by rw [List.length_append]; omega),
        List.take_append_of_le_length hnc]
    · rw [hbeyond]
      refine h.frame hdrop (by rw [List.length_drop]; omega) ?_ rfl
      rw [List.length_drop, hcount]
      omega

theorem BitStreamInfo.Reads.bitsUsed (h : bsi.Reads rest beyond) (k : ℤ) :
    bsi.calcBitsUsed k = 8 * bsi.last - rest.length + beyond - k := by
  have := h.length_rest
  rw [calcBitsUsed, last]
  push_cast
  omega

/-! ### Fields, one after the other -/

theorem getBits_fields (ns : List ℕ) (hns : ∀ n ∈ ns, n < 32) (h : bsi.Reads rest beyond) :
    (ns.mapM getBits bsi).1 = fields rest ns ∧
      (ns.mapM getBits bsi).2.Reads (rest.drop ns.sum) (beyond + (ns.sum - rest.length)) ∧
      (ns.mapM getBits bsi).2.last = bsi.last := by
  induction ns generalizing bsi rest beyond with
  | nil =>
    have hbeyond : beyond + (([] : List ℕ).sum - rest.length) = beyond := by simp
    rw [hbeyond]
    exact ⟨rfl, h, rfl⟩
  | cons n ns ih =>
    obtain ⟨hval, hreads, hlast, -⟩ := getBits_spec h (hns n List.mem_cons_self)
    obtain ⟨hvals, hreads', hlast'⟩ := ih (fun m hm => hns m (List.mem_cons_of_mem n hm)) hreads
    have hmap : (n :: ns).mapM getBits bsi =
        ((getBits n bsi).1 :: (ns.mapM getBits (getBits n bsi).2).1,
          (ns.mapM getBits (getBits n bsi).2).2) := by
      rw [List.mapM_cons]
      rfl
    have hbeyond : beyond + (n - rest.length) + (ns.sum - (rest.drop n).length) =
        beyond + ((n :: ns).sum - rest.length) := by
      rw [List.length_drop, List.sum_cons]
      omega
    rw [hmap, ← hbeyond, List.sum_cons, ← List.drop_drop]
    exact ⟨by rw [hval, hvals, fields], hreads', hlast'.trans hlast⟩

/-- **The bit stream**: whatever fields are asked for, as long as they end at most 31 bits behind
the last byte, they are those of the bytes, with zeros behind them; `CalcBitsUsed` counts their
bits, no byte behind the last one is read, and no shift is by more than 31. -/
theorem bitstream_reads (buf : List UInt8) (nBytes : ℕ) (hlen : nBytes ≤ buf.length) (ns : List ℕ)
    (hns : ∀ n ∈ ns, n < 32) (hend : ns.sum ≤ 8 * nBytes + 31) :
    (ns.mapM getBits (setBitstreamPointer nBytes buf)).1 =
        fields (ofBytes (buf.take nBytes)) ns ∧
      (ns.mapM getBits (setBitstreamPointer nBytes buf)).2.calcBitsUsed 0 = ns.sum ∧
      (ns.mapM getBits (setBitstreamPointer nBytes buf)).2.bytePtr ≤ nBytes ∧
      -32 < (ns.mapM getBits (setBitstreamPointer nBytes buf)).2.cachedBits := by
  obtain ⟨hval, hreads, hlast⟩ := getBits_fields ns hns (reads_start hlen)
  have hbits : (ofBytes (buf.take nBytes)).length = 8 * nBytes := by
    rw [length_ofBytes, List.length_take, Nat.min_eq_left hlen]
  have hstart : (setBitstreamPointer nBytes buf).last = nBytes := Nat.zero_add nBytes
  have hcached := hreads.cachedBits_ge
  have hused := hreads.bitsUsed 0
  rw [hbits] at hcached
  rw [List.length_drop, hbits, hlast, hstart] at hused
  rw [hstart, last] at hlast
  exact ⟨hval, by omega, by omega, by omega⟩

/-- Two fields, the second of which starts inside of a byte and is read from both caches. -/
theorem bitstream_reads_two :
    let r := [20, 20].mapM getBits (setBitstreamPointer 5 [0x12, 0x34, 0x56, 0x78, 0x9a])
    r.1 = [0x12345, 0x6789a] ∧ r.2.calcBitsUsed 0 = ([20, 20] : List ℕ).sum ∧ r.2.bytePtr ≤ 5 ∧
      -32 < r.2.cachedBits :=
  bitstream_reads _ 5 (by decide) [20, 20] (by decide) (by decide)

/-! ### Parsers -/

/-- `p` takes the bits `bits`, no others, and returns `a`. -/
def Gets {α : Type} (p : StateM BitStreamInfo α) (bits : List Bool) (a : α) : Prop :=
  ∀ (bsi : BitStreamInfo) (rest : List Bool), bsi.Reads (bits ++ rest) 0 →
    (p bsi).1 = a ∧ (p bsi).2.Reads rest 0 ∧ (p bsi).2.last = bsi.last ∧ (p bsi).2.buf = bsi.buf

namespace Gets

variable {α β : Type} {p : StateM BitStreamInfo α} {f : α → StateM BitStreamInfo β}
  {bits bits' : List Bool} {a : α} {b : β}

theorem pure (a : α) : Gets (Pure.pure a) [] a := fun _ _ h => ⟨rfl, h, rfl, rfl⟩

theorem bind (hp : Gets p bits a) (hf : Gets (f a) bits' b) : Gets (p >>= f) (bits ++ bits') b := by
  intro bsi rest h
  rw [List.append_assoc] at h
  obtain ⟨rfl, hr, hlast, hbuf⟩ := hp bsi _ h
  obtain ⟨hb, hr', hlast', hbuf'⟩ := hf _ _ hr
  exact ⟨hb, hr', hlast'.trans hlast, hbuf'.trans hbuf⟩

theorem bind_pure {g : α → β} (hp : Gets p bits a) (h : g a = b) :
    Gets (p >>= fun x => Pure.pure (g x)) bits b := by
  intro bsi rest hr
  obtain ⟨rfl, hr', hlast, hbuf⟩ := hp bsi rest hr
  exact ⟨h, hr', hlast, hbuf⟩

theorem getBits (bits : List Bool) (h : bits.length < 32) :
    Gets (AudioPipeline.getBits bits.length) bits (value bits) := by
  intro bsi rest hr
  obtain ⟨hval, hr', hlast, hbuf⟩ := getBits_spec hr h
  rw [field_append_left (le_refl _), field_of_le (le_refl _), List.take_length] at hval
  rw [List.drop_left, List.length_append, Nat.sub_eq_zero_of_le (Nat.le_add_right _ _)] at hr'
  exact ⟨hval, hr', hlast, hbuf⟩

/-- A number that is spelled with `n` bits. -/
theorem ofNat {n v : ℕ} (hn : n < 32) (hv : v < 2 ^ n) :
    Gets (AudioPipeline.getBits n) (Bits.ofNat n v) v := by
  have h := getBits (Bits.ofNat n v) (by rwa [length_ofNat])
  rwa [length_ofNat, value_ofNat_of_lt hv] at h

/-- A loop. -/
theorem foldlM {σ ι : Type} {f : σ → ι → StateM BitStreamInfo σ} {bits : ι → List Bool}
    {upd : σ → ι → σ} (l : List ι) (hf : ∀ i ∈ l, ∀ s, Gets (f s i) (bits i) (upd s i)) (s : σ) :
    Gets (l.foldlM f s) (l.flatMap bits) (l.foldl upd s) := by
  induction l generalizing s with
  | nil => exact Gets.pure s
  | cons i l ih =>
    rw [List.foldlM_cons, List.flatMap_cons, List.foldl_cons]
    exact (hf i List.mem_cons_self s).bind (ih (fun j hj => hf j (List.mem_cons_of_mem i hj)) _)

end Gets

/-- `p` takes `k` bits, also where there are fewer, and what it returns meets `Q`. -/
def Takes {α : Type} (p : StateM BitStreamInfo α) (k : ℕ) (Q : α → Prop) : Prop :=
  ∀ (bsi : BitStreamInfo) (rest : List Bool) (beyond : ℕ), bsi.Reads rest beyond →
    Q (p bsi).1 ∧ (p bsi).2.Reads (rest.drop k) (beyond + (k - rest.length)) ∧
      (p bsi).2.last = bsi.last ∧ (p bsi).2.buf = bsi.buf

namespace Takes

variable {α β : Type} {p : StateM BitStreamInfo α} {f : α → StateM BitStreamInfo β} {k m : ℕ}
  {Q : α → Prop} {R : β → Prop}

theorem pure {a : α} (h : Q a) : Takes (Pure.pure a) 0 Q := fun _ _ _ hr =>
  ⟨h, by rwa [List.drop_zero, Nat.zero_sub, Nat.add_zero], rfl, rfl⟩

theorem bind (hp : Takes p k Q) (hf : ∀ a, Q a → Takes (f a) m R) : Takes (p >>= f) (k + m) R := by
  intro bsi rest beyond h
  obtain ⟨hQ, hr, hlast, hbuf⟩ := hp bsi rest beyond h
  obtain ⟨hR, hr', hlast', hbuf'⟩ := hf _ hQ _ _ _ hr
  rw [List.drop_drop, List.length_drop, show beyond + (k - rest.length) + (m - (rest.length - k)) =
    beyond + (k + m - rest.length) by omega] at hr'
  exact ⟨hR, hr', hlast'.trans hlast, hbuf'.trans hbuf⟩

theorem getBits {n : ℕ} (hn : n < 32) : Takes (AudioPipeline.getBits n) n (· < 2 ^ n) := by
  intro bsi rest beyond h
  obtain ⟨hval, hr⟩ := getBits_spec h hn
  exact ⟨hval ▸ field_lt rest n, hr⟩

theorem foldlM {σ ι : Type} {g : σ → ι → StateM BitStreamInfo σ} {I : σ → Prop} (l : List ι)
    (hg : ∀ i ∈ l, ∀ s, I s → Takes (g s i) k I) {s : σ} (hs : I s) :
    Takes (l.foldlM g s) (l.length * k) I := by
  induction l generalizing s with
  | nil =>
    rw [List.length_nil, Nat.zero_mul]
    exact Takes.pure hs
  | cons i l ih =>
    rw [List.foldlM_cons, List.length_cons, Nat.succ_mul, Nat.add_comm]
    exact (hg i List.mem_cons_self s hs).bind fun t ht =>
      ih (fun j hj => hg j (List.mem_cons_of_mem i hj)) ht

end Takes

end AudioPipeline
