import AudioPipeline.Codec.HuffTabs

/-!
# Huffman codes (`huffman.c`)

The codes are looked up with the bits of a cache, which is refilled with two bytes at a time, and at
the end with what is left and a padding of zeros.

The inner loops of the source end where the cache has too few bits for a code word with its signs,
and the outer ones refill it; here each code word refills the cache if it has to.
-/

namespace AudioPipeline

/-- Why a function does not go on: it returns -1, it reads behind the end of the buffer or of a
table, or an assertion fails. -/
inductive HuffError
  | outOfBits
  | outOfBounds
  | assertion
  deriving DecidableEq, Repr

/-! ### The cache -/

/-- The variables of the decoders: `ptr` is the index of `*buf`, and `cache` has 32 bits. -/
structure HuffCache where
  buf : List UInt8
  ptr : ℕ
  cache : ℕ
  cachedBits : ℤ
  bitsLeft : ℤ
  padBits : ℤ
  deriving DecidableEq, Repr

namespace HuffCache

/-- `cache |= (unsigned int)(*buf++) << shift`. -/
def load (c : HuffCache) (shift : ℤ) : Except HuffError HuffCache :=
  if c.ptr < c.buf.length then
    .ok
      { c with
        ptr := c.ptr + 1
        cache := c.cache ||| (c.buf.getD c.ptr 0).toNat <<< shift.toNat % 2 ^ 32 }
  else .error .outOfBounds

def loadIf (c : HuffCache) (p : Prop) [Decidable p] (shift : ℤ) : Except HuffError HuffCache :=
  if p then c.load shift else .ok c

/-- The cache with the rest of the byte that the codes start in. -/
def start (buf : List UInt8) (bitOffset : ℕ) (bitsLeft : ℤ) : Except HuffError HuffCache :=
  let cachedBits := (8 - bitOffset) &&& 0x07
  let c : HuffCache :=
    { buf := buf, ptr := 0, cache := 0, cachedBits := cachedBits,
      bitsLeft := bitsLeft - cachedBits, padBits := 0 }
  c.loadIf (cachedBits ≠ 0) (32 - cachedBits)

/-- `(signed int)0x80000000 >> (n - 1)`. -/
def topMask (n : ℤ) : ℕ := 2 ^ 32 - 2 ^ (32 - n).toNat

/-- The last bits are cached. -/
def drain (c : HuffCache) : HuffCache :=
  { c with
    cache := c.cache &&& topMask (c.cachedBits + c.bitsLeft)
    cachedBits := c.cachedBits + c.bitsLeft
    bitsLeft := 0 }

/-- `pad` zeros follow behind the last bit. -/
def padWith (c : HuffCache) (pad : ℤ) : HuffCache :=
  { c with cachedBits := c.cachedBits + pad, padBits := pad }

/-- The refill of the cache. -/
def refill (pad : ℤ) (c : HuffCache) : Except HuffError HuffCache :=
  if 16 ≤ c.bitsLeft then
    (c.load (24 - c.cachedBits)).bind fun d =>
      (d.load (16 - c.cachedBits)).map fun d =>
        { d with cachedBits := c.cachedBits + 16, bitsLeft := c.bitsLeft - 16 }
  else if c.cachedBits + c.bitsLeft ≤ 0 then .error .outOfBits
  else
    (c.loadIf (0 < c.bitsLeft) (24 - c.cachedBits)).bind fun d =>
      (d.loadIf (8 < c.bitsLeft) (16 - c.cachedBits)).map fun d => d.drain.padWith pad

/-- The cache has at least `pad` bits. -/
def ensure (pad : ℤ) (c : HuffCache) : Except HuffError HuffCache :=
  if c.cachedBits < pad then c.refill pad else .ok c

/-- The next `n` bits. -/
def peek (c : HuffCache) (n : ℕ) : ℕ := c.cache >>> (32 - n)

def skip (c : HuffCache) (n : ℕ) : HuffCache :=
  { c with cache := c.cache <<< n % 2 ^ 32, cachedBits := c.cachedBits - n }

/-- `if (x) {ApplySign(x, cache); cache <<= 1; cachedBits--;}` -/
def sign (c : HuffCache) (x : ℕ) : ℕ × HuffCache :=
  if x ≠ 0 then (x ||| c.cache &&& 0x80000000, c.skip 1) else (x, c)

end HuffCache

/-! ### `DecodeHuffmanQuads` -/

def getHLenQ (x : ℕ) : ℕ := x >>> 4 &&& 0x0f
def getCWVQ (x : ℕ) : ℕ := x >>> 3 &&& 0x01
def getCWWQ (x : ℕ) : ℕ := x >>> 2 &&& 0x01
def getCWXQ (x : ℕ) : ℕ := x >>> 1 &&& 0x01
def getCWYQ (x : ℕ) : ℕ := x &&& 0x01

/-- The entry of a table of quads. -/
def quadEntry (tabIdx i : ℕ) : ℕ := quadTable.getD (quadTabOffset.getD tabIdx 0 + i) 0

/-- One quad. -/
def decodeQuad (tabIdx : ℕ) (c : HuffCache) : List ℕ × HuffCache :=
  let cw := quadEntry tabIdx (c.peek (quadTabMaxBits.getD tabIdx 0))
  let c := c.skip (getHLenQ cw)
  let v := c.sign (getCWVQ cw)
  let w := v.2.sign (getCWWQ cw)
  let x := w.2.sign (getCWXQ cw)
  let y := x.2.sign (getCWYQ cw)
  ([v.1, w.1, x.1, y.1], y.2)

/-- The loop: the quads, as far as there are bits for them. -/
def quadsLoop (tabIdx : ℕ) : ℕ → HuffCache → Except HuffError (List ℕ)
  | 0, _ => .ok []
  | n + 1, c =>
    if c.cachedBits < 10 ∧ c.bitsLeft < 16 ∧ c.cachedBits + c.bitsLeft ≤ 0 then .ok []
    else
      (c.ensure 10).bind fun c =>
        let r := decodeQuad tabIdx c
        if r.2.cachedBits < r.2.padBits then .ok []
        else (quadsLoop tabIdx n r.2).map (r.1 ++ ·)

/-- `DecodeHuffmanQuads`: the values that are written. -/
def decodeHuffmanQuads (nVals tabIdx : ℕ) (bitsLeft : ℤ) (buf : List UInt8) (bitOffset : ℕ) :
    Except HuffError (List ℕ) :=
  if bitsLeft ≤ 0 then .ok []
  else (HuffCache.start buf bitOffset bitsLeft).bind fun c => quadsLoop tabIdx (nVals / 4) c

/-! ### `DecodeHuffmanPairs` -/

def getMaxbits (x : ℕ) : ℕ := x &&& 0x000f
def getHLen (x : ℕ) : ℕ := x >>> 12 &&& 0x000f
def getCWY (x : ℕ) : ℕ := x >>> 8 &&& 0x000f
def getCWX (x : ℕ) : ℕ := x >>> 4 &&& 0x000f

/-- The entry of a table. -/
def tabEntry (tab : List ℕ) (i : ℕ) : Except HuffError ℕ :=
  (tab[i]?).elim (.error .outOfBounds) .ok

/-- A code word of a table without distances (`oneShot`). -/
def decodeOneShot (tab : List ℕ) (c : HuffCache) : Except HuffError (ℕ × HuffCache) :=
  (c.ensure 11).bind fun c =>
    (tabEntry tab 0).bind fun head =>
      (tabEntry tab (c.peek (getMaxbits head) + 1)).map fun cw => (cw, c.skip (getHLen cw))

/-- A code word of another table, from `tCurr` on: an entry of length 0 is the distance to the table
that the next bits are looked up in. -/
def decodeLoopTab (tab : List ℕ) : ℕ → ℕ → HuffCache → Except HuffError (ℕ × HuffCache)
  | 0, _, _ => .error .outOfBounds
  | fuel + 1, tCurr, c =>
    (c.ensure 11).bind fun c =>
      (tabEntry tab tCurr).bind fun head =>
        (tabEntry tab (tCurr + c.peek (getMaxbits head) + 1)).bind fun cw =>
          if getHLen cw = 0 then
            decodeLoopTab tab fuel (tCurr + cw) (c.skip (getMaxbits head))
          else .ok (cw, c.skip (getHLen cw))

/-- `while (cachedBits < minBits)`: the loop makes at most two rounds. -/
def fillLoop (minBits : ℤ) : ℕ → HuffCache → Except HuffError HuffCache
  | 0, c => .ok c
  | fuel + 1, c =>
    if c.cachedBits < minBits then
      (c.load (24 - c.cachedBits)).bind fun d =>
        fillLoop minBits fuel
          { d with cachedBits := c.cachedBits + 8, bitsLeft := c.bitsLeft - 8 }
    else .ok c

/-- `linBits` more bits of `x` if it is 15, for which, and for the sign, the cache is filled. -/
def decodeLinbits (linBits minBits x : ℕ) (c : HuffCache) : Except HuffError (ℕ × HuffCache) :=
  if c.cachedBits + c.bitsLeft < minBits then .error .outOfBits
  else
    (fillLoop minBits minBits c).map fun c =>
      let c : HuffCache := if c.bitsLeft < 0 then c.drain else c
      (x + c.peek linBits, c.skip linBits)

/-- Both values of a pair.  `linBits` is 0 in the tables without such bits. -/
def decodeValues (linBits : ℕ) (cw : ℕ) (c : HuffCache) : Except HuffError (List ℕ × HuffCache) :=
  let y := getCWY cw
  (if getCWX cw = 15 ∧ linBits ≠ 0 then
      decodeLinbits linBits (linBits + 1 + if y ≠ 0 then 1 else 0) (getCWX cw) c
    else .ok (getCWX cw, c)).bind fun x =>
    let sx := x.2.sign x.1
    (if y = 15 ∧ linBits ≠ 0 then decodeLinbits linBits (linBits + 1) y sx.2
      else .ok (y, sx.2)).map fun y =>
      let sy := y.2.sign y.1
      ([sx.1, sy.1], sy.2)

/-- The loop over the pairs. -/
def pairsLoop (word : HuffCache → Except HuffError (ℕ × HuffCache)) (linBits : ℕ) :
    ℕ → HuffCache → Except HuffError (List ℕ × HuffCache)
  | 0, c => .ok ([], c)
  | n + 1, c =>
    (word c).bind fun cw =>
      (decodeValues linBits cw.1 cw.2).bind fun xy =>
        if xy.2.cachedBits < xy.2.padBits then .error .outOfBits
        else (pairsLoop word linBits n xy.2).map fun r => (xy.1 ++ r.1, r.2)

/-- `DecodeHuffmanPairs`: the number of bits, and the values that are written. -/
def decodeHuffmanPairs (nVals : ℤ) (tabIdx : ℕ) (bitsLeft : ℤ) (buf : List UInt8)
    (bitOffset : ℕ) : Except HuffError (ℤ × List ℕ) :=
  if nVals ≤ 0 then .ok (0, [])
  else if bitsLeft < 0 then .error .outOfBits
  else
    let tab := huffTab tabIdx
    let lookup := huffTabLookup.getD tabIdx (0, .invalidTab)
    if nVals % 2 ≠ 0 ∨ lookup.2 = .invalidTab then .error .assertion
    else
      (HuffCache.start buf bitOffset bitsLeft).bind fun c =>
        if lookup.2 = .noBits then .ok (0, List.replicate nVals.toNat 0)
        else
          (pairsLoop
            (if lookup.2 = .oneShot then decodeOneShot tab else decodeLoopTab tab tab.length 0)
            lookup.1 (nVals.toNat / 2) c).map fun r =>
              (bitsLeft - (r.2.bitsLeft + (r.2.cachedBits - r.2.padBits)), r.1)

end AudioPipeline
