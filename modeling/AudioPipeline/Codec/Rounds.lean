import AudioPipeline.Codec.Mp3

/-!
# The rounds of the decode loops

The places that the two loops of `mp3_decoder_process` come through: in each round (`Round`) they
look for a sync word from `readPtr` on, and call the decoder there.  `decodeRounds` and
`drainRounds` are the loops again, with the list of their rounds for a result.
-/

namespace AudioPipeline

variable {δ : Type}

/-! ### What is put out for a frame -/

namespace Mp3Decoded

/-- What goes to `audio_element_output`. -/
def pcm (H : Helix δ) (r : Mp3Decoded δ) : List UInt8 :=
  if 0 < (H.frameInfo r.inst).outputSamps then framePcm (H.frameInfo r.inst) r.output else []

/-- The frame has samples, and `audio_element_output` does not take them all. -/
def Refused (H : Helix δ) (r : Mp3Decoded δ) (accept : ℕ → ℤ → ℤ) : Prop :=
  0 < (H.frameInfo r.inst).outputSamps ∧ accept 0 (r.pcm H).length ≠ (r.pcm H).length

instance (H : Helix δ) (r : Mp3Decoded δ) (accept : ℕ → ℤ → ℤ) : Decidable (r.Refused H accept) :=
  inferInstanceAs (Decidable (_ ∧ _))

/-- The answers of `audio_element_output` from the next frame on. -/
def nextAccept (H : Helix δ) (r : Mp3Decoded δ) (accept : ℕ → ℤ → ℤ) : ℕ → ℤ → ℤ :=
  if 0 < (H.frameInfo r.inst).outputSamps then fun k => accept (k + 1) else accept

end Mp3Decoded

/-! ### Rounds -/

/-- The element, `readPtr - in_buffer` and `left` at the start of a round. -/
structure Round (δ : Type) where
  el : Mp3El δ
  pos : ℤ
  left : ℤ

namespace Round

/-- What `MP3FindSyncWord` returns. -/
def offset (p : Round δ) : ℤ := mp3FindSyncWord (p.el.bytes p.pos p.left)

/-- `readPtr - in_buffer` when the decoder is called. -/
def readPos (p : Round δ) : ℤ := p.pos + p.offset

/-- `left` when the decoder is called. -/
def readLeft (p : Round δ) : ℤ := p.left - p.offset

/-- The bytes that the decoder is called with. -/
def given (p : Round δ) : List UInt8 := p.el.bytes p.readPos p.readLeft

def decode (H : Helix δ) (p : Round δ) : Mp3Decoded δ := H.decode p.el.inst p.given

/-- `readPtr - in_buffer` after `MP3Decode`, whatever it returns. -/
def donePos (H : Helix δ) (p : Round δ) : ℤ := p.readPos + (p.decode H).consumed

/-- `left` after `MP3Decode`. -/
def doneLeft (H : Helix δ) (p : Round δ) : ℤ := p.readLeft - (p.decode H).consumed

/-- `MP3GetLastFrameInfo`. -/
def frameInfo (H : Helix δ) (p : Round δ) : Mp3FrameInfo := H.frameInfo (p.decode H).inst

/-- The round after a frame. -/
def next (H : Helix δ) (p : Round δ) : Round δ where
  el := p.el.decoded H (p.decode H)
  pos := p.donePos H
  left := p.doneLeft H

/-- What goes to `audio_element_output` in the round. -/
def pcm (H : Helix δ) (p : Round δ) : List UInt8 := (p.decode H).pcm H

/-- `audio_element_output` does not take the frame of the round. -/
def Refused (H : Helix δ) (p : Round δ) (accept : ℕ → ℤ → ℤ) : Prop :=
  (p.decode H).Refused H accept

instance (H : Helix δ) (p : Round δ) (accept : ℕ → ℤ → ℤ) : Decidable (p.Refused H accept) :=
  inferInstanceAs (Decidable ((p.decode H).Refused H accept))

/-- The answers of `audio_element_output` from the next round on. -/
def nextAccept (H : Helix δ) (p : Round δ) (accept : ℕ → ℤ → ℤ) : ℕ → ℤ → ℤ :=
  (p.decode H).nextAccept H accept

end Round

/-- The rounds after bytes have been read. -/
def decodeRounds (H : Helix δ) (framesize : ℤ) : ℕ → (ℕ → ℤ → ℤ) → Round δ → List (Round δ)
  | 0, _, _ => []
  | fuel + 1, accept, p =>
    p ::
      if p.offset < 0 ∨ p.readLeft < framesize then []
      else if (p.decode H).err ≠ 0 then []
      else if p.Refused H accept then []
      else decodeRounds H framesize fuel (p.nextAccept H accept) (p.next H)

/-- The rounds at the end of the stream. -/
def drainRounds (H : Helix δ) : ℕ → (ℕ → ℤ → ℤ) → Round δ → List (Round δ)
  | 0, _, _ => []
  | fuel + 1, accept, p =>
    p ::
      if (p.decode H).err ≠ 0 then []
      else if p.Refused H accept then []
      else drainRounds H fuel (p.nextAccept H accept) (p.next H)

/-! ### The end of the stream, without positions -/

/-- The bytes that the decoder is called with after a frame whose last byte `bs` starts with: those
from the next sync word on.  Without one the loop goes back to that last byte. -/
def behindFrame (bs : List UInt8) : List UInt8 :=
  if 0 ≤ mp3FindSyncWord bs.tail then bs.tail.drop (mp3FindSyncWord bs.tail).toNat else bs

/-- The frames that the decoder finds in `bs` end with one whose samples are not all taken, or in
front of bytes with which it fails and of which it takes no more than there are. -/
inductive EndsInside (H : Helix δ) : (ℕ → ℤ → ℤ) → δ → List UInt8 → Prop
  | fail {accept d bs} : (H.decode d bs).err ≠ 0 → (H.decode d bs).consumed ≤ bs.length →
      EndsInside H accept d bs
  | refused {accept d bs} : (H.decode d bs).err = 0 → (H.decode d bs).Refused H accept →
      EndsInside H accept d bs
  | frame {accept d bs} : (H.decode d bs).err = 0 → ¬(H.decode d bs).Refused H accept →
      EndsInside H ((H.decode d bs).nextAccept H accept) (H.decode d bs).inst
        (behindFrame (bs.drop ((H.decode d bs).consumed.toNat - 1))) →
      EndsInside H accept d bs

/-! ### How a call ends -/

/-- How a loop is left: there are too few bytes, the decoder fails, or `audio_element_output` has
not taken a frame and has returned `w`. -/
inductive Exit
  | stop
  | fail
  | refused (w : ℤ)
  deriving DecidableEq

/-- How the loop after bytes have been read is left, and where `readPtr` and `left` are then. -/
def decodeExit (H : Helix δ) (framesize : ℤ) : ℕ → (ℕ → ℤ → ℤ) → Round δ → Exit × Round δ
  | 0, _, p => (.stop, p)
  | fuel + 1, accept, p =>
    if p.offset < 0 ∨ p.readLeft < framesize then (.stop, p)
    else if (p.decode H).err ≠ 0 then (.fail, p)
    else if p.Refused H accept then (.refused (accept 0 (p.pcm H).length), p.next H)
    else decodeExit H framesize fuel (p.nextAccept H accept) (p.next H)

/-- How the loop at the end of the stream is left. -/
def drainExit (H : Helix δ) : ℕ → (ℕ → ℤ → ℤ) → Round δ → Exit × Round δ
  | 0, _, p => (.stop, p)
  | fuel + 1, accept, p =>
    if (p.decode H).err ≠ 0 then (.fail, p)
    else if p.Refused H accept then (.refused (accept 0 (p.pcm H).length), p.next H)
    else drainExit H fuel (p.nextAccept H accept) (p.next H)

end AudioPipeline
