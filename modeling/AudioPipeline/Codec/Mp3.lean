import AudioPipeline.Element.Info

/-!
# The MP3 decoder element (`mp3_decode.c`)

`mp3_decoder_process` collects the bytes of the stream in the buffer of the element and hands them
to the Helix decoder (`Helix`) a frame at a time.  The bytes that are left over stay at the front
of the buffer, and their number in the variable `last_left`, which is `static`: it is the same one
for all elements (`lastLeft`, an argument and a result here).

The buffer is a function of the index; what lies in front of it is not modelled, and reads as
zero.  A loop gives `none` if it runs out of fuel, which it does not (`mp3DecoderProcess_isSome`).
-/

namespace AudioPipeline

abbrev ESP_CODEC_ERR_CONTINUE : ℤ := 1
abbrev ESP_CODEC_ERR_OK : ℤ := 0
abbrev ESP_CODEC_ERR_FAIL : ℤ := -1
abbrev ESP_CODEC_ERR_DONE : ℤ := -2

abbrev ERR_MP3_INDATA_UNDERFLOW : ℤ := -1
abbrev ERR_MP3_INVALID_FRAMEHEADER : ℤ := -6

/-! ### The Helix decoder (`mp3dec.c`) -/

/-- What `MP3Decode` leaves: the instance, what it returns, what it takes from `bytesLeft`, and the
samples. -/
structure Mp3Decoded (δ : Type) where
  inst : δ
  err : ℤ
  consumed : ℤ
  output : ℕ → UInt16

/-- `MP3InitDecoder`, `MP3Decode` and `MP3GetLastFrameInfo` as functions of the instance and the
bytes left.  A frame has at least its header, and is among the bytes left if it is decoded. -/
structure Helix (δ : Type) where
  init : δ
  decode : δ → List UInt8 → Mp3Decoded δ
  frameInfo : δ → Mp3FrameInfo
  frame_size : ∀ d bs, (decode d bs).err = 0 →
    4 ≤ (decode d bs).consumed ∧ (decode d bs).consumed ≤ bs.length
  consumed_nonneg : ∀ d bs, 0 ≤ (decode d bs).consumed

/-- The first two bytes of a frame: 11 set bits. -/
def isSyncWord (h l : UInt8) : Bool := h &&& 0xff = 0xff ∧ l &&& 0xe0 = 0xe0

/-- The loop of `MP3FindSyncWord` from the index `i` on. -/
def findSyncFrom (i : ℤ) : List UInt8 → ℤ
  | h :: l :: bs => if isSyncWord h l then i else findSyncFrom (i + 1) (l :: bs)
  | _ => -1

def mp3FindSyncWord (buf : List UInt8) : ℤ := findSyncFrom 0 buf

/-! ### The element -/

/-- The decoder element: `el->buf` and `el->buf_size`, `mp3_decoder_t`, and `el->info`. -/
structure Mp3El (δ : Type) where
  buf : ℤ → UInt8
  bufSize : ℤ
  inst : δ
  isOpen : Bool
  info : Info

/-- The element of `mp3_decoder_init`. -/
def Mp3El.fresh {δ : Type} (H : Helix δ) (bufSize : ℤ) : Mp3El δ where
  buf := fun _ => 0
  bufSize := bufSize
  inst := H.init
  isOpen := false
  info := .default

/-- The size of a frame that `mp3_decoder_process` waits for: that of the last one, if it is
known. -/
def Info.estimate (info : Info) : ℤ := if 200 < info.userData0 then info.userData0 else 512

namespace Mp3El

variable {δ : Type}

/-- `left` bytes of the buffer from `pos` on. -/
def bytes (el : Mp3El δ) (pos left : ℤ) : List UInt8 :=
  (List.range left.toNat).map fun i : ℕ => if pos + i < 0 then 0 else el.buf (pos + i)

/-- `audio_element_input` puts bytes at `pos`. -/
def write (el : Mp3El δ) (pos : ℤ) (bs : List UInt8) : Mp3El δ :=
  { el with
    buf := fun i => if pos ≤ i ∧ i < pos + bs.length then bs.getD (i - pos).toNat 0 else el.buf i }

/-- `memmove(in_buffer, readPtr, left)`. -/
def memmove (el : Mp3El δ) (pos left : ℤ) : Mp3El δ :=
  { el with buf := fun i => if 0 ≤ i ∧ i < left then el.buf (pos + i) else el.buf i }

/-- `memset(in_buffer, 0x00, in_len)`. -/
def memset (el : Mp3El δ) : Mp3El δ :=
  { el with buf := fun i => if 0 ≤ i ∧ i < el.bufSize then 0 else el.buf i }

/-- `mp3_decoder_open`. -/
def mp3DecoderOpen (el : Mp3El δ) : ℤ × Mp3El δ :=
  if el.isOpen then (ESP_FAIL, el) else (ESP_OK, { el with isOpen := true })

/-- `mp3_decoder_close`. -/
def mp3DecoderClose (el : Mp3El δ) (state : AelState) : ℤ × Mp3El δ :=
  let el := { el with isOpen := false }
  (ESP_OK, if state ≠ .paused then { el with info := { el.info with bytePos := 0 } } else el)

/-- After `MP3Decode`: `audio_element_setinfo` if the frame is of another kind. -/
def decoded (el : Mp3El δ) (H : Helix δ) (r : Mp3Decoded δ) : Mp3El δ :=
  let f := H.frameInfo r.inst
  { el with
    inst := r.inst
    info := if el.info.differs f then (Change.frame f).apply el.info else el.info }

end Mp3El

/-! ### The samples -/

/-- The loop that makes two channels of one, for the samples below `n`. -/
def duplicate : ℕ → (ℕ → UInt16) → ℕ → UInt16
  | 0, output => output
  | i + 1, output =>
    let output := Function.update output (i * 2) (output i)
    duplicate i (Function.update output (i * 2 + 1) (output i))

/-- The bytes of a `short`. -/
def leBytes (x : UInt16) : List UInt8 := [x.toUInt8, (x >>> 8).toUInt8]

/-- What `mp3_decoder_process` puts out for a frame. -/
def framePcm (f : Mp3FrameInfo) (output : ℕ → UInt16) : List UInt8 :=
  let n := f.outputSamps.toNat
  if f.nChans = 1 then ((List.range (n * 2)).map (duplicate n output)).flatMap leBytes
  else ((List.range n).map output).flatMap leBytes

/-! ### `mp3_decoder_process` -/

/-- What `audio_element_input` returns, with the bytes it has put into the buffer. -/
inductive Mp3Input
  | data (bs : List UInt8)
  | code (ret : ℤ)

/-- What a call of `mp3_decoder_process` returns and leaves, and the bytes it puts out. -/
structure Mp3Result (δ : Type) where
  ret : ℤ
  lastLeft : ℤ
  el : Mp3El δ
  pcm : List UInt8

variable {δ : Type}

/-- `audio_element_output` of a frame, if it has samples; the call ends if it does not take them
all.  `accept` answers for the outputs that follow. -/
def outputFrame (accept : ℕ → ℤ → ℤ) (lastLeft : ℤ) (el : Mp3El δ) (f : Mp3FrameInfo)
    (output : ℕ → UInt16) (next : (ℕ → ℤ → ℤ) → Option (Mp3Result δ)) : Option (Mp3Result δ) :=
  if 0 < f.outputSamps then
    let pcm := framePcm f output
    if accept 0 pcm.length ≠ pcm.length then some ⟨accept 0 pcm.length, lastLeft, el, pcm⟩
    else (next fun k => accept (k + 1)).map fun r => { r with pcm := pcm ++ r.pcm }
  else next accept

/-- The loop of `mp3_decoder_process` after it has read bytes. -/
def decodeLoop (H : Helix δ) (framesize lastLeft : ℤ) : ℕ → (ℕ → ℤ → ℤ) → Mp3El δ → ℤ → ℤ →
    Option (Mp3Result δ)
  | 0, _, _, _, _ => none
  | fuel + 1, accept, el, pos, left =>
    let offset := mp3FindSyncWord (el.bytes pos left)
    if offset < 0 ∨ left - offset < framesize then
      some ⟨ESP_CODEC_ERR_CONTINUE, left, el.memmove pos left, []⟩
    else
      let r := H.decode el.inst (el.bytes (pos + offset) (left - offset))
      if r.err ≠ 0 then some ⟨ESP_CODEC_ERR_FAIL, lastLeft, { el with inst := r.inst }, []⟩
      else
        outputFrame accept lastLeft (el.decoded H r) (H.frameInfo r.inst) r.output fun accept =>
          decodeLoop H framesize lastLeft fuel accept (el.decoded H r) (pos + offset + r.consumed)
            (left - offset - r.consumed)

/-- The loop of `mp3_decoder_process` at the end of the stream.  It does not look whether there is
a sync word: without one it goes back by a byte. -/
def drainLoop (H : Helix δ) (lastLeft : ℤ) : ℕ → (ℕ → ℤ → ℤ) → Mp3El δ → ℤ → ℤ →
    Option (Mp3Result δ)
  | 0, _, _, _, _ => none
  | fuel + 1, accept, el, pos, left =>
    let offset := mp3FindSyncWord (el.bytes pos left)
    let r := H.decode el.inst (el.bytes (pos + offset) (left - offset))
    if r.err ≠ 0 then
      some ⟨ESP_CODEC_ERR_DONE, left - offset - r.consumed, { el with inst := r.inst }, []⟩
    else
      outputFrame accept lastLeft (el.decoded H r) (H.frameInfo r.inst) r.output fun accept =>
        drainLoop H lastLeft fuel accept (el.decoded H r) (pos + offset + r.consumed)
          (left - offset - r.consumed)

/-- `audio_element_input` gives between one and as many bytes as it is asked for, or a code. -/
def Mp3Input.Fits (lastLeft : ℤ) (el : Mp3El δ) : Mp3Input → Prop
  | .data bs => bs ≠ [] ∧ bs.length ≤ el.bufSize - lastLeft
  | .code ret => ret ≤ 0

instance (lastLeft : ℤ) (el : Mp3El δ) (input : Mp3Input) : Decidable (input.Fits lastLeft el) :=
  match input with
  | .data _ => inferInstanceAs (Decidable (_ ∧ _))
  | .code _ => inferInstanceAs (Decidable (_ ≤ _))

/-- `mp3_decoder_process`. -/
def mp3DecoderProcess (H : Helix δ) (lastLeft : ℤ) (el : Mp3El δ) (input : Mp3Input)
    (accept : ℕ → ℤ → ℤ) : Option (Mp3Result δ) :=
  match input with
  | .data bs =>
    let left := lastLeft + bs.length
    decodeLoop H el.info.estimate lastLeft (left.toNat + 1) accept (el.write lastLeft bs) 0 left
  | .code ret =>
    if ret = AEL_IO_TIMEOUT then
      some ⟨accept 0 el.bufSize, lastLeft, el.memset, List.replicate el.bufSize.toNat 0⟩
    else if ret = AEL_IO_DONE ∧ 0 < lastLeft then
      drainLoop H lastLeft (lastLeft.toNat + 1) accept el 0 lastLeft
    else some ⟨ret, lastLeft, el, []⟩

/-- `audio_element_output` that takes everything. -/
def acceptAll : ℕ → ℤ → ℤ := fun _ n => n

/-- One call of `mp3_decoder_process` after the other: what they return, and the bytes they put
out. -/
def mp3Run (H : Helix δ) (lastLeft : ℤ) (el : Mp3El δ) : List (Mp3Input × (ℕ → ℤ → ℤ)) →
    Option (List (ℤ × List UInt8))
  | [] => some []
  | (input, accept) :: inputs =>
    (mp3DecoderProcess H lastLeft el input accept).bind fun r =>
      (mp3Run H r.lastLeft r.el inputs).map fun rs => (r.ret, r.pcm) :: rs

/-! ### Several elements -/

/-- What an element has received and produced since it was opened: a record, which no step
reads. -/
structure Session where
  received : List (Mp3Input × (ℕ → ℤ → ℤ))
  produced : List (ℤ × List UInt8)
  /-- `last_left` after its last call -/
  left : ℤ
  /-- A call has returned `ESP_CODEC_ERR_DONE`. -/
  ended : Bool

def Session.start : Session where
  received := []
  produced := []
  left := 0
  ended := false

/-- The decoder elements of a process. -/
structure Mp3Sys (ι δ : Type) where
  lastLeft : ℤ
  els : ι → Mp3El δ
  session : ι → Session

namespace Mp3Sys

variable {ι : Type} [DecidableEq ι]

/-- A process that has just started. -/
def start (H : Helix δ) (bufSize : ι → ℤ) : Mp3Sys ι δ where
  lastLeft := 0
  els := fun i => .fresh H (bufSize i)
  session := fun _ => .start

/-- A call of one of the callbacks of an element. -/
inductive Call (ι : Type)
  | openEl (i : ι)
  | process (i : ι) (input : Mp3Input) (accept : ℕ → ℤ → ℤ)
  | closeEl (i : ι) (state : AelState)

def step (H : Helix δ) (s : Mp3Sys ι δ) : Call ι → Option (Mp3Sys ι δ)
  | .openEl i =>
    let r := (s.els i).mp3DecoderOpen
    some
      { s with
        els := Function.update s.els i r.2
        session := if r.1 = ESP_OK then Function.update s.session i .start else s.session }
  | .process i input accept =>
    if input.Fits s.lastLeft (s.els i) then
      (mp3DecoderProcess H s.lastLeft (s.els i) input accept).map fun r =>
        let t := s.session i
        { lastLeft := r.lastLeft
          els := Function.update s.els i r.el
          session := Function.update s.session i
            { received := t.received ++ [(input, accept)]
              produced := t.produced ++ [(r.ret, r.pcm)]
              left := r.lastLeft
              ended := t.ended || r.ret = ESP_CODEC_ERR_DONE } }
    else none
  | .closeEl i state =>
    some { s with els := Function.update s.els i ((s.els i).mp3DecoderClose state).2 }

end Mp3Sys

end AudioPipeline
