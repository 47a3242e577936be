import AudioPipeline.Codec.Equiv.Sessions

/-!
## Room for more bytes

* `asks_more`: while `mp3_decoder_process` waits for no more bytes than its buffer has, it asks for
  at least one.
* `asks_none`: it waits for a frame that is one byte longer than the frames of the stream are, and
  than its buffer is.
-/

namespace AudioPipeline

variable {δ : Type} {H : Helix δ}

/-- Every call that gets one of the pieces asks for at least one byte, and so does the call after
them; a call that fails is the last one. -/
def AsksMore (H : Helix δ) (lastLeft : ℤ) (el : Mp3El δ) : List (List UInt8) → Prop
  | [] => lastLeft < el.bufSize
  | bs :: pieces =>
    lastLeft < el.bufSize ∧
      ∀ r ∈ mp3DecoderProcess H lastLeft el (.data bs) acceptAll,
        r.ret = ESP_CODEC_ERR_CONTINUE → AsksMore H r.lastLeft r.el pieces

/-- No call waits for more bytes than the buffer has. -/
def WaitsInside (H : Helix δ) (lastLeft : ℤ) (el : Mp3El δ) : List (List UInt8) → Prop
  | [] => True
  | bs :: pieces =>
    el.info.estimate ≤ el.bufSize ∧
      ∀ r ∈ mp3DecoderProcess H lastLeft el (.data bs) acceptAll,
        r.ret = ESP_CODEC_ERR_CONTINUE → WaitsInside H r.lastLeft r.el pieces

/-- A call that does not fail goes on until there are fewer bytes than it waits for. -/
theorem Held.decode_left {framesize : ℤ} (fs : List Mp3Frame) :
    ∀ (n : ℕ) (next : ℤ), incomplete fs n < framesize →
      ((Held.decode framesize fs n next).left : ℤ) < framesize := by
  induction fs with
  | nil => exact fun _ _ h => h
  | cons f fs ih =>
    intro n next h
    rw [incomplete] at h
    rw [Held.decode]
    by_cases hcut : n < f.bytes.length
    · rw [if_pos hcut] at h
      rw [if_pos (Or.inr hcut)]
      exact h
    rw [if_neg hcut] at h
    by_cases hstop : (n : ℤ) < framesize
    · rw [if_pos (Or.inl hstop)]
      exact hstop
    · rw [if_neg (by omega)]
      exact ih _ _ h

theorem Holds.wants_more (pieces : List (List UInt8)) :
    ∀ {lastLeft : ℤ} {el : Mp3El δ} {h : Held} {rest : List UInt8},
      Holds H lastLeft el h (pieces.flatten ++ rest) → lastLeft < el.bufSize →
        WaitsInside H lastLeft el pieces → AsksMore H lastLeft el pieces := by
  induction pieces with
  | nil => exact fun _ hroom _ => hroom
  | cons bs pieces ih =>
    intro lastLeft el h rest hh hroom hwait
    obtain ⟨hinside, hnext⟩ := hwait
    refine ⟨hroom, fun r hr hret => ?_⟩
    rw [List.flatten_cons, List.append_assoc] at hh
    obtain ⟨r', hr', hfed⟩ := hh.data
    obtain rfl := Option.some.inj (hr.symm.trans hr')
    have hample : incomplete h.frames (h.left + bs.length) < h.framesize := by
      by_contra hshort
      rw [hfed.short (not_lt.mp hshort)] at hret
      exact absurd hret (by decide)
    obtain ⟨-, hholds, -⟩ := hfed.ample hample
    refine ih hholds ?_ (hnext r hr hret)
    have hleft := Held.decode_left h.frames (h.left + bs.length) h.framesize hample
    rw [hholds.left, mp3DecoderProcess_bufSize hr]
    rw [hh.framesize] at hinside
    omega

/-- **A call asks for at least one byte** of a stream of frames, however it is cut into pieces,
while no call waits for more bytes than the buffer has. -/
theorem asks_more {el : Mp3El δ} {frames : List Mp3Frame} {pieces : List (List UInt8)}
    (hd : Decodes H el.inst frames) (hc : pieces.flatten <+: frames.flatMap Mp3Frame.bytes)
    (hbuf : 512 ≤ el.bufSize) (hwait : WaitsInside H 0 el pieces) : AsksMore H 0 el pieces := by
  obtain ⟨rest, hrest⟩ := hc
  have hh : Holds H 0 el ⟨frames, 0, el.info.estimate⟩ (pieces.flatten ++ rest) := by
    constructor
    · rfl
    · exact hrest
    · exact hd
    · rfl
  exact hh.wants_more pieces (by omega) hwait

instance decidableAsksMore : (pieces : List (List UInt8)) → (lastLeft : ℤ) → (el : Mp3El δ) →
    Decidable (AsksMore H lastLeft el pieces)
  | [], _, _ => inferInstanceAs (Decidable (_ < _))
  | _ :: pieces, _, _ =>
    have := decidableAsksMore pieces
    inferInstanceAs (Decidable (_ ∧ ∀ r ∈ _, _ → AsksMore H _ _ pieces))

instance decidableWaitsInside : (pieces : List (List UInt8)) → (lastLeft : ℤ) →
    (el : Mp3El δ) → Decidable (WaitsInside H lastLeft el pieces)
  | [], _, _ => inferInstanceAs (Decidable True)
  | _ :: pieces, _, _ =>
    have := decidableWaitsInside pieces
    inferInstanceAs (Decidable (_ ∧ ∀ r ∈ _, _ → WaitsInside H _ _ pieces))

/-- A buffer of 1024 bytes, and frames of 522. -/
theorem asks_more_frames :
    AsksMore silentHelix 0 (.fresh silentHelix 1024)
      [(silentFrame 0xa0).bytes, (silentFrame 0xa0).bytes] := by
  have hpieces : [(silentFrame 0xa0).bytes, (silentFrame 0xa0).bytes].flatten <+:
      ([0xa0, 0xa0].map silentFrame).flatMap Mp3Frame.bytes := List.prefix_refl _
  exact asks_more (decodes_silent [0xa0, 0xa0] _) hpieces (by decide) (by decide +kernel)

/-- A buffer of 522 bytes.  After a frame of 522 bytes 523 are waited for: the next frame fills the
buffer, and is not decoded. -/
theorem asks_none :
    Decodes silentHelix (Mp3El.fresh silentHelix 522).inst [silentFrame 0xa0, silentFrame 0xa0] ∧
      (∀ f ∈ [silentFrame 0xa0, silentFrame 0xa0], f.bytes.length = 522) ∧
      ¬AsksMore silentHelix 0 (.fresh silentHelix 522)
        [(silentFrame 0xa0).bytes, (silentFrame 0xa0).bytes] ∧
      (mp3Run silentHelix 0 (.fresh silentHelix 522)
        [(.data (silentFrame 0xa0).bytes, acceptAll),
          (.data (silentFrame 0xa0).bytes, acceptAll)]).map (·.map Prod.fst) =
        some [ESP_CODEC_ERR_CONTINUE, ESP_CODEC_ERR_CONTINUE] := by
  refine ⟨decodes_silent [0xa0, 0xa0] _, ?_, ?_, ?_⟩
  · decide +kernel
  · decide +kernel
  · decide +kernel

end AudioPipeline
