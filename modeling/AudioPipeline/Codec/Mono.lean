import AudioPipeline.Codec.Mp3

/-!
# One channel becomes two (`mp3_decode.c`)

`mp3_decoder_process` expands the samples of a frame with one channel in place, in the array
`output` of the element: from the last sample to the first.  The loop stands there twice, word for
word, for a frame from the stream and for a frame at the end of it.
-/

namespace AudioPipeline

/-- `short output[2304]`. -/
abbrev Mp3Output : Type := Vector UInt16 2304

/-- `output[i] = x`; `none` outside of the array. -/
def Mp3Output.store (output : Mp3Output) (i : ℕ) (x : UInt16) : Option Mp3Output :=
  if h : i < 2304 then some (output.set i x h) else none

/-- The loop, for the samples below `n`; `none` if it reads or writes outside of the array. -/
def monoToStereo : ℕ → Mp3Output → Option Mp3Output
  | 0, output => some output
  | i + 1, output => do
    let output ← output.store (i * 2) (← output[i]?)
    let output ← output.store (i * 2 + 1) (← output[i]?)
    monoToStereo i output

end AudioPipeline
