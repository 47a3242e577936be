import AudioPipeline.Pipeline.Chain

/-!
# The ring buffers of an element (`audio_element.c`)

An element has a main input and output, each of them a ring buffer or a callback, and any number of
further ring buffers on both sides (`multi_in`, `multi_out`).
-/

namespace AudioPipeline

/-- `audio_element_reset_input_ringbuf`. -/
def audioElementResetInputRingbuf : ElProg Unit := onInputs rbReset

/-- The ring buffers that are attached to one side of an element, the main one first. -/
def Port.attached (port : Port) (multi : List (Option ℕ)) : List ℕ :=
  port.handle.toList ++ multi.filterMap id

/-- The ring buffers that the element may read from. -/
def Element.attachedIn (el : Element) : List ℕ := el.input.attached el.multiIn

/-- The ring buffers that the element may write to. -/
def Element.attachedOut (el : Element) : List ℕ := el.output.attached el.multiOut

/-- The memory after code of an element that nobody interrupts. -/
def Mem.after (m : Mem) (p : ElProg Unit) : Mem := (p.resume false m).1

/-- `audio_element_multi_output`; `write i` is what `rb_write` returns for the ring buffer at index
`i`.  The results are put together as `int`s, with `|=`. -/
def audioElementMultiOutput (multiOut : List (Option ℕ)) (write : ℕ → ℤ) : ℤ :=
  (multiOut.zipIdx.foldl (fun ret p =>
    match p.1 with
    | some _ => ret ||| BitVec.ofInt 32 (write p.2)
    | none => ret) (BitVec.ofInt 32 ESP_OK)).toInt

end AudioPipeline
