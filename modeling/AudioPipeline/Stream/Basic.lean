import AudioPipeline.Element.Info
import AudioPipeline.Http.Client
import AudioPipeline.Ringbuf.Basic
import AudioPipeline.Stream.Wav

/-!
# The stream elements (`fatfs_stream.c`, `http_stream.c`, `pcm_stream.c`)

The callbacks of the elements, with the answers of the calls that they make outside of the
library: `open`, `stat` and `write` of a file, `read` of a file or a socket, `pcm_readi`.

The functions of `audio_element.c` that set a field of `el->info` take an `int`.
-/

namespace AudioPipeline

namespace Info

/-- `audio_element_set_total_bytes`. -/
def setTotalBytes (info : Info) (totalBytes : ℤ) : Info :=
  { info with totalBytes := toCInt totalBytes }

/-- `audio_element_update_byte_pos`. -/
def updateBytePos (info : Info) (pos : ℤ) : Info :=
  { info with bytePos := toInt64 (info.bytePos + toCInt pos) }

/-- `audio_element_set_byte_pos`. -/
def setBytePos (info : Info) (pos : ℤ) : Info := { info with bytePos := toCInt pos }

end Info

/-- `audio_stream_type_t`. -/
inductive StreamType
  | none
  | reader
  | writer
  deriving DecidableEq

/-! ### `fatfs_stream` -/

/-- `wr_stream_type_t`. -/
inductive WrStreamType
  | unknow
  | wav
  | opus
  | amr
  | amrwb
  | mp3
  deriving DecidableEq

/-- `strncasecmp(str, suffix, n) == 0`, where `suffix` has `n` characters. -/
def startsNoCase (str suffix : List UInt8) : Bool :=
  (suffix.map tolower).isPrefixOf (str.map tolower)

/-- The text behind the last dot: `strrchr(str, '.') + 1`. -/
def suffixOf (str : List UInt8) : Option (List UInt8) :=
  if 0x2E ∈ str then some (str.reverse.takeWhile (· ≠ 0x2E)).reverse else none

/-- `get_type`. -/
def getType (str : List UInt8) : WrStreamType :=
  match suffixOf str with
  | none => .unknow
  | some relt =>
    if startsNoCase relt (ascii "wav") then .wav
    else if startsNoCase relt (ascii "opus") then .opus
    else if startsNoCase relt (ascii "amr") then .amr
    else if startsNoCase relt (ascii "Wamr") then .amrwb
    else if startsNoCase relt (ascii "mp3") then .mp3
    else .unknow

/-- A fatfs element with the file that its URI leads to. -/
structure FatfsEl where
  type : StreamType
  isOpen : Bool
  wType : WrStreamType
  writeHeader : Bool
  /-- the URI -/
  path : Option (List UInt8)
  info : Info
  /-- the state of the element is `AEL_STATE_PAUSED` -/
  paused : Bool
  /-- the bytes of the file -/
  content : List UInt8
  /-- the offset of the descriptor `file`; `none`: no file is open behind it -/
  offset : Option ℕ

namespace FatfsEl

/-- `write` of all the bytes to the descriptor. -/
def put (el : FatfsEl) (bytes : List UInt8) : FatfsEl :=
  match el.offset with
  | none => el
  | some offset =>
    { el with
      content := el.content.take offset ++ List.replicate (offset - el.content.length) 0 ++ bytes ++
        el.content.drop (offset + bytes.length)
      offset := some (offset + bytes.length) }

/-- `lseek(file, pos, SEEK_SET)`. -/
def seek (el : FatfsEl) (pos : ℕ) : FatfsEl := { el with offset := el.offset.map fun _ => pos }

/-- `_fatfs_open`; `opened` and `seeked` are the outcomes of `open` and `lseek`, and `size` is the
one of `stat`. -/
def fatfsOpen (el : FatfsEl) (opened : Bool) (size : ℤ) (seeked : Bool) : ℤ × FatfsEl :=
  match el.path with
  | none => (ESP_FAIL, el)
  | some path =>
    if el.isOpen then (ESP_FAIL, el)
    else
      match el.type with
      | .reader =>
        if opened then
          let el := { el with offset := some 0 }
          if 0 < el.info.bytePos ∧ !seeked then (ESP_FAIL, el)
          else
            let el := if 0 < el.info.bytePos then el.seek el.info.bytePos.toNat else el
            (ESP_OK, { el with isOpen := true, info := el.info.setTotalBytes size })
        else (ESP_FAIL, { el with offset := none })
      | .writer =>
        if opened then
          let el := { el with content := [], offset := some 0, wType := getType path }
          let el :=
            if el.wType = .wav ∧ el.writeHeader then el.put WavHeader.zero.bytes
            else if el.wType = .amr ∧ el.writeHeader then el.put (ascii "#!AMR\n")
            else if el.wType = .amrwb ∧ el.writeHeader then el.put (ascii "#!AMR-WB\n")
            else el
          (ESP_OK,
            { el with isOpen := true, info := el.info.setTotalBytes el.info.totalBytes })
        else (ESP_FAIL, { el with offset := none })
      | .none => (ESP_FAIL, el)

/-- `_fatfs_read`; `rlen` is what `read` returns. -/
def fatfsRead (el : FatfsEl) (rlen : ℤ) : ℤ × FatfsEl :=
  if rlen = 0 then (rlen, el)
  else if rlen = -1 then (rlen, el)
  else (rlen, { el with info := el.info.updateBytePos rlen })

/-- `_fatfs_write`; `write` accepts the first `accepted` bytes, or returns -1. -/
def fatfsWrite (el : FatfsEl) (buffer : List UInt8) (accepted : Option ℕ) : ℤ × FatfsEl :=
  match el.offset, accepted with
  | some _, some n =>
    let wlen := (buffer.take n).length
    let el := el.put (buffer.take n)
    (wlen, if 0 < wlen then { el with info := el.info.updateBytePos wlen } else el)
  | _, _ => (-1, el)

/-- `_fatfs_close`; `wavInfo` is what the memory for the header holds. -/
def fatfsClose (formatToBits : PcmFormat → ℕ) (wavInfo : WavHeader) (el : FatfsEl) : ℤ × FatfsEl :=
  let el :=
    if el.type = .writer ∧ el.writeHeader ∧ el.wType = .wav then
      let header := wavHeadInit formatToBits wavInfo el.info.sampleRates el.info.bits
        el.info.channels
      (el.seek 0).put (wavHeadSize header (toU32 el.info.bytePos)).bytes
    else el
  let el := if el.isOpen then { el with offset := none, isOpen := false } else el
  (ESP_OK, if el.paused then el else { el with info := el.info.setBytePos 0 })

end FatfsEl

/-! ### `http_stream` -/

/-- An http element whose client is there. -/
structure HttpEl where
  type : StreamType
  isOpen : Bool
  uri : Option (List UInt8)
  /-- `content_length` of the response -/
  contentLength : ℤ
  info : Info

namespace HttpEl

/-- `_http_open`; `err` is what `esp_http_client_open` returns, and `statusCode` and
`contentLength` are what it has read from the header. -/
def httpOpen (el : HttpEl) (err statusCode contentLength : ℤ) : ℤ × HttpEl :=
  if el.isOpen then (ESP_FAIL, el)
  else
    match el.uri with
    | none => (ESP_FAIL, el)
    | some _ =>
      if err ≠ ESP_OK then (err, el)
      else if statusCode ≠ 200 ∧ statusCode ≠ 206 then (ESP_FAIL, el)
      else
        (ESP_OK,
          { el with
            isOpen := true
            contentLength := contentLength
            info := el.info.setTotalBytes contentLength })

/-- `esp_http_client_read` of an open client; `ridx` is what `read` returns. -/
def espHttpClientRead (el : HttpEl) (ridx : ℤ) : ℤ := if el.contentLength = 0 then 0 else ridx

/-- `_http_read`; `ridx` is what `read` returns. -/
def httpRead (el : HttpEl) (ridx : ℤ) : ℤ × HttpEl :=
  let rlen := el.espHttpClientRead ridx
  (rlen, { el with info := el.info.updateBytePos rlen })

end HttpEl

/-! ### `pcm_stream` -/

/-- The sound card of a pcm element: its `pcm_get_buffer_size`, in frames, and the bytes of a
frame. -/
structure PcmDevice where
  bufferSize : ℕ
  frameBytes : ℕ

/-- `pcm_frames_to_bytes`, which computes in `unsigned`. -/
def PcmDevice.framesToBytes (dev : PcmDevice) (frames : ℤ) : ℤ := frames * dev.frameBytes % 2 ^ 32

/-- `_pcm_read`; `readFrames` is what `pcm_readi` returns. -/
def pcmRead (dev : PcmDevice) (info : Info) (readFrames : ℤ) : ℤ × Info :=
  if readFrames < 0 then (readFrames, info)
  else
    let readBytes := toCInt (dev.framesToBytes readFrames)
    (readBytes, { info with bytePos := toInt64 (info.bytePos + readBytes) })

/-! ### `audio_element_input` with a callback -/

/-- A read callback and what it works on. -/
inductive ReadCb
  | fatfs (el : FatfsEl)
  | http (el : HttpEl)
  | pcm (dev : PcmDevice) (info : Info)

namespace ReadCb

/-- The bytes that the callback asks its source for: `read(file, buffer, len)`, and
`pcm_readi(pcm, buffer, pcm_get_buffer_size(pcm))`.  A client without content asks for nothing. -/
def asked (cb : ReadCb) (len : ℤ) : Option ℤ :=
  match cb with
  | .fatfs _ => some len
  | .http el => if el.contentLength = 0 then none else some len
  | .pcm dev _ => some (dev.bufferSize * dev.frameBytes)

/-- What the callback returns when the source returns `answer`. -/
def ret (cb : ReadCb) (answer : ℤ) : ℤ :=
  match cb with
  | .fatfs el => (el.fatfsRead answer).1
  | .http el => (el.httpRead answer).1
  | .pcm dev info => (pcmRead dev info answer).1

/-- The source returns no more than it is asked for: bytes of a file or a socket, frames of a sound
card. -/
def Answers (cb : ReadCb) (len answer : ℤ) : Prop :=
  match cb with
  | .fatfs _ | .http _ => -1 ≤ answer ∧ answer ≤ len
  | .pcm dev _ => answer ≤ dev.bufferSize

end ReadCb

end AudioPipeline
