import Mathlib.Algebra.Order.Ring.Int

/-!
# The bit stream of the decoder (`bitstream.c`)

`GetBits` takes the bits from a cache of 32, which it refills with the next four bytes, or with
what is left of them at the end.  Past the end it gives zeros, and the count of the cached bits
goes on below zero; there the shifts by `32 - lowBits` and `lowBits` are by less than 32 for the
first 31 bits only, and undefined after that.
-/

namespace AudioPipeline

/-- `BitStreamInfo`: `bytePtr` is an index of the memory `buf` that the reader started at, and
`iCache` has 32 bits. -/
structure BitStreamInfo where
  buf : List UInt8
  bytePtr : ℕ
  iCache : ℕ
  cachedBits : ℤ
  nBytes : ℕ
  deriving DecidableEq, Repr

/-- `SetBitstreamPointer`. -/
def setBitstreamPointer (nBytes : ℕ) (buf : List UInt8) : BitStreamInfo where
  buf := buf
  bytePtr := 0
  iCache := 0
  cachedBits := 0
  nBytes := nBytes

namespace BitStreamInfo

/-- `bytePtr[i]`. -/
def byte (bsi : BitStreamInfo) (i : ℕ) : ℕ := (bsi.buf.getD (bsi.bytePtr + i) 0).toNat

/-- `RefillBitstreamCache`. -/
def refillBitstreamCache (bsi : BitStreamInfo) : BitStreamInfo :=
  if 4 ≤ bsi.nBytes then
    { bsi with
      bytePtr := bsi.bytePtr + 4
      iCache := bsi.byte 0 <<< 24 ||| bsi.byte 1 <<< 16 ||| bsi.byte 2 <<< 8 ||| bsi.byte 3
      cachedBits := 32
      nBytes := bsi.nBytes - 4 }
  else
    let iCache :=
      (List.range bsi.nBytes).foldl (fun iCache i => (iCache ||| bsi.byte i) <<< 8 % 2 ^ 32) 0
    { bsi with
      bytePtr := bsi.bytePtr + bsi.nBytes
      iCache := iCache <<< ((3 - bsi.nBytes) * 8) % 2 ^ 32
      cachedBits := 8 * bsi.nBytes
      nBytes := 0 }

/-- `CalcBitsUsed`, from the byte that the reader started at. -/
def calcBitsUsed (bsi : BitStreamInfo) (startOffset : ℤ) : ℤ :=
  bsi.bytePtr * 8 - bsi.cachedBits - startOffset

end BitStreamInfo

/-- `GetBits`. -/
def getBits (nBits : ℕ) : StateM BitStreamInfo ℕ := fun bsi =>
  let nBits := nBits &&& 0x1f
  let data := bsi.iCache >>> (31 - nBits) >>> 1
  let bsi : BitStreamInfo :=
    { bsi with
      iCache := bsi.iCache <<< nBits % 2 ^ 32
      cachedBits := bsi.cachedBits - nBits }
  if bsi.cachedBits < 0 then
    let lowBits := (-bsi.cachedBits).toNat
    let bsi := bsi.refillBitstreamCache
    (data ||| bsi.iCache >>> (32 - lowBits),
      { bsi with
        iCache := bsi.iCache <<< lowBits % 2 ^ 32
        cachedBits := bsi.cachedBits - lowBits })
  else (data, bsi)

end AudioPipeline
