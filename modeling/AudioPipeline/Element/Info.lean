import AudioPipeline.Element.Basic

/-!
# The information of an element

`el->info` is written by the functions of `audio_element.c` that set one of its fields, each of
which is one section under `el->lock` (`InfoSys.api`), and by the stream and codec callbacks that
run in the task of the element (`pcm_stream.c`, `fatfs_stream.c`, `http_stream.c`,
`mp3_decode.c`).  Some callbacks use those functions as well; others read the whole structure with
`audio_element_getinfo`, do their work, and write it back with `audio_element_setinfo`.

A callback is an `InfoCode`: its sections under the lock, and between them the calls (of the file
system, the sound card, the decoder) whose answers it depends on.  `InfoSys` is the element with
one callback in progress, and the calls that other threads make meanwhile.

Strings are numbered in the order in which they are allocated.
-/

namespace AudioPipeline

/-- `esp_codec_type_t`. -/
inductive CodecType
  | unknow
  | raw
  | wav
  | mp3
  | aac
  | opus
  | m4a
  | mp4
  | flac
  | ogg
  | tsaac
  | amrnb
  | amrwb
  | pcm
  | m3u8
  | pls
  | unsupport
  deriving DecidableEq, Repr

/-- `audio_element_info_t`, with the fields of `reserve_data`. -/
@[ext]
structure Info where
  sampleRates : ℤ
  channels : ℤ
  bits : ℤ
  bps : ℤ
  bytePos : ℤ
  totalBytes : ℤ
  duration : ℤ
  uri : Option ℕ
  codecFmt : CodecType
  userData0 : ℤ
  userData1 : ℤ
  userData2 : ℤ
  userData3 : ℤ
  userData4 : ℤ
  deriving DecidableEq, Repr

/-- `AUDIO_ELEMENT_INFO_DEFAULT`. -/
def Info.default : Info where
  sampleRates := 44100
  channels := 2
  bits := 16
  bps := 0
  bytePos := 0
  totalBytes := 0
  duration := 0
  uri := none
  codecFmt := .unknow
  userData0 := 0
  userData1 := 0
  userData2 := 0
  userData3 := 0
  userData4 := 0

/-- `MP3FrameInfo`, as far as the decoder element reads it. -/
structure Mp3FrameInfo where
  bitrate : ℤ
  nChans : ℤ
  samprate : ℤ
  bitsPerSample : ℤ
  outputSamps : ℤ
  deriving DecidableEq, Repr

/-- The size of a frame that `mp3_decoder_process` computes for `user_data_0`. -/
def Mp3FrameInfo.framesize (f : Mp3FrameInfo) : ℤ := (144 * f.bitrate).tdiv f.samprate + 1

/-- The bytes of a frame that `mp3_decoder_process` puts out; one channel is doubled. -/
def Mp3FrameInfo.pcmBytes (f : Mp3FrameInfo) : ℤ :=
  (if f.nChans = 1 then f.outputSamps * 2 else f.outputSamps) * 2

/-- The comparison of `mp3_decoder_process`. -/
def Info.differs (info : Info) (f : Mp3FrameInfo) : Bool :=
  info.bits ≠ f.bitsPerSample ∨ info.channels ≠ f.nChans ∨ info.sampleRates ≠ f.samprate ∨
    info.bps ≠ f.bitrate ∨ info.codecFmt ≠ .mp3 ∨ info.userData0 ≠ f.framesize

/-! ### Updates -/

/-- What a callback changes in its copy before it writes the copy back. -/
inductive Change
  /-- `_pcm_write`, `_pcm_read` -/
  | addBytePos (n : ℤ)
  /-- `mp3_decoder_process` -/
  | frame (f : Mp3FrameInfo)
  deriving DecidableEq

def Change.apply : Change → Info → Info
  | .addBytePos n, info => { info with bytePos := info.bytePos + n }
  | .frame f, info =>
    { info with
      bits := f.bitsPerSample
      channels := f.nChans
      sampleRates := f.samprate
      bps := f.bitrate
      codecFmt := .mp3
      userData0 := f.framesize }

/-- What a section under the lock changes. -/
inductive Update
  /-- `audio_element_set_uri`, with the new string -/
  | uri (str : Option ℕ)
  /-- `audio_element_set_byte_pos` -/
  | bytePos (pos : ℤ)
  /-- `audio_element_update_byte_pos` -/
  | addBytePos (pos : ℤ)
  /-- `audio_element_set_total_bytes` -/
  | totalBytes (n : ℤ)
  /-- `audio_element_update_total_bytes` -/
  | addTotalBytes (n : ℤ)
  /-- `audio_element_set_bps` -/
  | bps (bitRate : ℤ)
  /-- `audio_element_set_codec_fmt` -/
  | codecFmt (format : CodecType)
  /-- `audio_element_set_music_info` -/
  | musicInfo (sampleRates channels bits : ℤ)
  /-- `audio_element_set_duration` -/
  | duration (n : ℤ)
  /-- the change that a callback writes back -/
  | callback (change : Change)
  deriving DecidableEq

def Update.apply : Update → Info → Info
  | .uri str, info => { info with uri := str }
  | .bytePos pos, info => { info with bytePos := pos }
  | .addBytePos pos, info => { info with bytePos := info.bytePos + pos }
  | .totalBytes n, info => { info with totalBytes := n }
  | .addTotalBytes n, info => { info with totalBytes := info.totalBytes + n }
  | .bps bitRate, info => { info with bps := bitRate }
  | .codecFmt format, info => { info with codecFmt := format }
  | .musicInfo sampleRates channels bits, info =>
    { info with sampleRates := sampleRates, channels := channels, bits := bits }
  | .duration n, info => { info with duration := n }
  | .callback change, info => change.apply info

/-! ### Callbacks -/

/-- A callback, as far as it touches `el->info`. -/
inductive InfoCode
  /-- it returns -/
  | ret (a : ℤ)
  /-- `audio_element_getinfo` -/
  | getinfo (k : Info → InfoCode)
  /-- the copy is changed, then `audio_element_setinfo` -/
  | setinfo (change : Change) (copy : Info) (k : InfoCode)
  /-- `audio_element_update_byte_pos` -/
  | updateBytePos (pos : ℤ) (k : InfoCode)
  /-- a call outside the lock, and its answer -/
  | call (k : ℤ → InfoCode)

namespace InfoCode

/-- `_fatfs_read`: it calls `read`. -/
def fatfsRead : InfoCode :=
  .getinfo fun _ => .call fun rlen =>
    if rlen = 0 then .ret rlen
    else if rlen = -1 then .ret rlen
    else .updateBytePos rlen (.ret rlen)

/-- `_fatfs_write`: it calls `write`. -/
def fatfsWrite : InfoCode :=
  .getinfo fun _ => .call fun wlen =>
    if 0 < wlen then .updateBytePos wlen (.ret wlen) else .ret wlen

/-- `_http_read`: it calls `esp_http_client_read`. -/
def httpRead : InfoCode :=
  .getinfo fun _ => .call fun rlen => .updateBytePos rlen (.ret rlen)

/-- `_pcm_write`: it calls `pcm_writei`; `pcm_frames_to_bytes` multiplies by `frameBytes`. -/
def pcmWrite (frameBytes : ℤ) : InfoCode :=
  .getinfo fun info => .call fun writtenFrames =>
    if writtenFrames < 0 then .ret writtenFrames
    else
      .setinfo (.addBytePos (writtenFrames * frameBytes)) info (.ret (writtenFrames * frameBytes))

/-- `_pcm_read`: it calls `pcm_readi`. -/
def pcmRead (frameBytes : ℤ) : InfoCode :=
  .getinfo fun info => .call fun readFrames =>
    if readFrames < 0 then .ret readFrames
    else .setinfo (.addBytePos (readFrames * frameBytes)) info (.ret (readFrames * frameBytes))

/-- The loop of `mp3_decoder_process`, over the frames that it decodes; `ret` is what it returns
when no more can be decoded.  It calls `audio_element_output`. -/
def mp3DecodeLoop (ret : ℤ) : Info → List Mp3FrameInfo → InfoCode
  | _, [] => .ret ret
  | info, f :: fs =>
    let output := fun info : Info =>
      if 0 < f.outputSamps then
        .call fun wSize => if wSize ≠ f.pcmBytes then .ret wSize else mp3DecodeLoop ret info fs
      else mp3DecodeLoop ret info fs
    if info.differs f then .setinfo (.frame f) info (output ((Change.frame f).apply info))
    else output info

/-- `mp3_decoder_process`: it calls `audio_element_input`, and `audio_element_output` after a
timeout. -/
def mp3DecoderProcess (lastLeft : ℤ) (frames : List Mp3FrameInfo) (ret : ℤ) : InfoCode :=
  .call fun rSize =>
    if rSize = AEL_IO_TIMEOUT then .call .ret
    else if 0 < rSize then .getinfo fun info => mp3DecodeLoop ret info frames
    else if rSize = AEL_IO_DONE ∧ 0 < lastLeft then
      .getinfo fun info => mp3DecodeLoop ret info frames
    else .ret rSize

end InfoCode

/-- A callback of an element. -/
inductive InfoCallback
  | fatfsRead
  | fatfsWrite
  | httpRead
  | pcmRead (frameBytes : ℤ)
  | pcmWrite (frameBytes : ℤ)
  | mp3DecoderProcess (lastLeft : ℤ) (frames : List Mp3FrameInfo) (ret : ℤ)

def InfoCallback.code : InfoCallback → InfoCode
  | .fatfsRead => .fatfsRead
  | .fatfsWrite => .fatfsWrite
  | .httpRead => .httpRead
  | .pcmRead frameBytes => .pcmRead frameBytes
  | .pcmWrite frameBytes => .pcmWrite frameBytes
  | .mp3DecoderProcess lastLeft frames ret => .mp3DecoderProcess lastLeft frames ret

/-! ### The element and the other threads -/

/-- A call of one of the functions of `audio_element.c` that set a field. -/
inductive InfoCall
  /-- `ok`: the string can be allocated -/
  | setUri (uri : Option (List Char)) (ok : Bool)
  | setBytePos (pos : ℤ)
  | updateBytePos (pos : ℤ)
  | setTotalBytes (totalBytes : ℤ)
  | updateTotalBytes (totalBytes : ℤ)
  | setBps (bitRate : ℤ)
  | setCodecFmt (format : CodecType)
  | setMusicInfo (sampleRates channels bits : ℤ)
  | setDuration (duration : ℤ)

/-- An element, as far as its information goes. -/
structure InfoSys where
  info : Info
  /-- The strings that are allocated. -/
  strings : ℕ → Option (List Char)
  nextStr : ℕ
  /-- What is left of the callback. -/
  task : InfoCode
  /-- The changes of the sections under the lock so far: a record, which no step reads. -/
  updates : List Update

/-- An element with no string and no callback in progress. -/
def InfoSys.start : InfoSys where
  info := .default
  strings := fun _ => none
  nextStr := 0
  task := .ret 0
  updates := []

namespace InfoSys

/-- A section under the lock. -/
def update (s : InfoSys) (u : Update) : InfoSys :=
  { s with info := u.apply s.info, updates := s.updates ++ [u] }

/-- `audio_free(el->info.uri)`, if there is one. -/
def freeUri (s : InfoSys) : InfoSys :=
  match s.info.uri with
  | none => s
  | some str => { s with strings := Function.update s.strings str none }

/-- `audio_element_set_uri`. -/
def audioElementSetUri (s : InfoSys) (uri : Option (List Char)) (ok : Bool) : ℤ × InfoSys :=
  let s := s.freeUri
  match uri with
  | none => (ESP_OK, s.update (.uri none))
  | some uri =>
    if ok then
      (ESP_OK,
        ({ s with
          strings := Function.update s.strings s.nextStr (some uri)
          nextStr := s.nextStr + 1 } : InfoSys).update (.uri (some s.nextStr)))
    else (ESP_ERR_NO_MEM, s.update (.uri none))

/-- A call from another thread. -/
def api (s : InfoSys) : InfoCall → ℤ × InfoSys
  | .setUri uri ok => s.audioElementSetUri uri ok
  | .setBytePos pos => (ESP_OK, s.update (.bytePos pos))
  | .updateBytePos pos => (ESP_OK, s.update (.addBytePos pos))
  | .setTotalBytes totalBytes => (ESP_OK, s.update (.totalBytes totalBytes))
  | .updateTotalBytes totalBytes => (ESP_OK, s.update (.addTotalBytes totalBytes))
  | .setBps bitRate => (ESP_OK, s.update (.bps bitRate))
  | .setCodecFmt format => (ESP_OK, s.update (.codecFmt format))
  | .setMusicInfo sampleRates channels bits =>
    (ESP_OK, s.update (.musicInfo sampleRates channels bits))
  | .setDuration duration => (ESP_OK, s.update (.duration duration))

/-- The task goes on to the end of its next section or call; `answer` is what the call returns. -/
def runTask (s : InfoSys) (answer : ℤ) : Option InfoSys :=
  match s.task with
  | .ret _ => none
  | .getinfo k => some { s with task := k s.info }
  | .setinfo change copy k =>
    some
      { s with
        info := change.apply copy, task := k, updates := s.updates ++ [.callback change] }
  | .updateBytePos pos k => some (({ s with task := k } : InfoSys).update (.addBytePos pos))
  | .call k => some { s with task := k answer }

/-- Whose turn it is. -/
inductive Event
  | api (c : InfoCall)
  /-- the task calls a callback, when the one before has returned -/
  | start (cb : InfoCallback)
  | task (answer : ℤ)

def step (s : InfoSys) : Event → Option InfoSys
  | .api c => some (s.api c).2
  | .start cb =>
    match s.task with
    | .ret _ => some { s with task := cb.code }
    | _ => none
  | .task answer => s.runTask answer

end InfoSys

end AudioPipeline
