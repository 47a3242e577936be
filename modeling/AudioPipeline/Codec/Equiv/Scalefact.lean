import AudioPipeline.Codec.Equiv.SideInfo
import AudioPipeline.Codec.Scalefact

/-!
# Scale factors

`SfLayout` says which scale factors are read from how many bits, and which ones are known before.

* `unpackSF_eq`: the loops of the source read the scale factors in the order of their layout;
* `scale_factors_total`: `UnpackScaleFactors` takes as many bits as the side information says, even
  where there are fewer, and keeps the arrays in shape;
* `scale_factors_round_trip`: the scale factors that are written are read back.
-/

namespace AudioPipeline

open Bits

/-! ### The arrays -/

/-- No scale factor has more than five bits, and there are no others than those of the bands. -/
structure ScaleFactorInfoSub.InShape (sfis : ScaleFactorInfoSub) : Prop where
  l : ∀ sfb, sfis.l sfb < 2 ^ 5
  s : ∀ sfb w, sfis.s sfb w < 2 ^ 5
  long : ∀ sfb, 21 ≤ sfb → sfis.l sfb = 0
  short : ∀ sfb, 12 ≤ sfb → ∀ w, sfis.s sfb w = 0
  windows : ∀ sfb w, 3 ≤ w → sfis.s sfb w = 0

/-- Those of all granules and channels. -/
def ScaleFactorInfo.InShape (sfi : ScaleFactorInfo) : Prop := ∀ gr ch, (sfi.sfis gr ch).InShape

theorem ScaleFactorInfo.zero_inShape : ScaleFactorInfo.zero.InShape := fun _ _ =>
  { l := fun _ => Nat.two_pow_pos 5
    s := fun _ _ => Nat.two_pow_pos 5
    long := fun _ _ => rfl
    short := fun _ _ _ => rfl
    windows := fun _ _ _ => rfl }

section

variable {sfis : ScaleFactorInfoSub}

theorem ScaleFactorInfoSub.InShape.setL (h : sfis.InShape) {sfb v : ℕ} (hv : v < 2 ^ 5)
    (hlast : 21 ≤ sfb → v = 0) : (sfis.setL sfb v).InShape where
  l := fun i => by
    unfold ScaleFactorInfoSub.setL
    dsimp only
    split_ifs
    · exact hv
    · exact h.l i
  s := h.s
  long := fun i hi => by
    unfold ScaleFactorInfoSub.setL
    dsimp only
    split_ifs with heq
    · exact hlast (heq ▸ hi)
    · exact h.long i hi
  short := h.short
  windows := h.windows

end

/-! ### The layout -/

/-- The scale factor of a long band, or of a window of a short one. -/
inductive SfCell
  | long (sfb : ℕ)
  | short (sfb w : ℕ)
  deriving DecidableEq

/-- There is such a band, and it is not the last one, which is not transmitted. -/
def SfCell.Inner : SfCell → Prop
  | long sfb => sfb < 21
  | short sfb w => sfb < 12 ∧ w < 3

/-- A scale factor is read from `n` bits, or known before. -/
inductive SfSource
  | bits (n : ℕ)
  | known (v : ℕ)

namespace SfSource

def read : SfSource → StateM BitStreamInfo ℕ
  | bits n => getBits n
  | known v => pure v

/-- What is read from `rest`. -/
def value (rest : List Bool) : SfSource → ℕ
  | bits n => field rest n
  | known v => v

def len : SfSource → ℕ
  | bits n => n
  | known _ => 0

/-- How `v` is written. -/
def write (v : ℕ) : SfSource → List Bool
  | bits n => ofNat n v
  | known _ => []

/-- `v` can be written. -/
def Fits (v : ℕ) : SfSource → Prop
  | bits n => v < 2 ^ n
  | known u => v = u

instance (v : ℕ) : (src : SfSource) → Decidable (src.Fits v)
  | bits n => inferInstanceAs (Decidable (v < 2 ^ n))
  | known u => inferInstanceAs (Decidable (v = u))

/-- What is read can be stored at `c`. -/
def Ok (c : SfCell) : SfSource → Prop
  | bits n => n ≤ 5 ∧ c.Inner
  | known v => v < 2 ^ 5 ∧ (c.Inner ∨ v = 0)

end SfSource

namespace ScaleFactorInfoSub

def get (sfis : ScaleFactorInfoSub) : SfCell → ℕ
  | .long sfb => sfis.l sfb
  | .short sfb w => sfis.s sfb w

def set (sfis : ScaleFactorInfoSub) (v : ℕ) : SfCell → ScaleFactorInfoSub
  | .long sfb => sfis.setL sfb v
  | .short sfb w => { sfis with s := fun i j => if i = sfb ∧ j = w then v else sfis.s i j }

theorem get_set (sfis : ScaleFactorInfoSub) (v : ℕ) (c d : SfCell) :
    (sfis.set v c).get d = if d = c then v else sfis.get d := by
  cases c <;> cases d <;> simp [set, setL, get]

theorem setS_eq (sfis : ScaleFactorInfoSub) (sfb v₀ v₁ v₂ : ℕ) :
    sfis.setS sfb v₀ v₁ v₂ =
      ((sfis.set v₀ (.short sfb 0)).set v₁ (.short sfb 1)).set v₂ (.short sfb 2) := by
  unfold setS set
  congr 1
  funext i w
  by_cases hi : i = sfb
  · rcases Nat.lt_or_ge w 3 with hw | hw
    · interval_cases w <;> simp [hi]
    · simp [hi, show ¬w < 3 by omega, show w ≠ 0 by omega, show w ≠ 1 by omega,
        show w ≠ 2 by omega]
  · simp [hi]

theorem InShape.set {sfis : ScaleFactorInfoSub} (h : sfis.InShape) {v : ℕ} (hv : v < 2 ^ 5)
    {c : SfCell} (hc : c.Inner ∨ v = 0) : (sfis.set v c).InShape := by
  cases c with
  | long sfb => exact h.setL hv fun hge => hc.resolve_left (not_lt.mpr hge)
  | short sfb w =>
    refine ⟨h.l, fun i j => ?_, h.long, fun i hi j => ?_, fun i j hj => ?_⟩
    · show (if i = sfb ∧ j = w then v else sfis.s i j) < 2 ^ 5
      split_ifs
      · exact hv
      · exact h.s i j
    · show (if i = sfb ∧ j = w then v else sfis.s i j) = 0
      split_ifs with heq
      · exact hc.resolve_left fun hin => absurd hin.1 (by omega)
      · exact h.short i hi j
    · show (if i = sfb ∧ j = w then v else sfis.s i j) = 0
      split_ifs with heq
      · exact hc.resolve_left fun hin => absurd hin.2 (by omega)
      · exact h.windows i j hj

end ScaleFactorInfoSub

/-- The scale factors in the order in which they are read. -/
abbrev SfLayout : Type := List (SfCell × SfSource)

namespace SfLayout

def readEntry (sfis : ScaleFactorInfoSub) (e : SfCell × SfSource) :
    StateM BitStreamInfo ScaleFactorInfoSub := do
  let v ← e.2.read
  pure (sfis.set v e.1)

def read (layout : SfLayout) (sfis : ScaleFactorInfoSub) :
    StateM BitStreamInfo ScaleFactorInfoSub :=
  layout.foldlM readEntry sfis

/-- The number of bits. -/
def len (layout : SfLayout) : ℕ := (layout.map fun e => e.2.len).sum

/-- The bits of the scale factors `sf`. -/
def write (layout : SfLayout) (sf : ScaleFactorInfoSub) : List Bool :=
  layout.flatMap fun e => e.2.write (sf.get e.1)

def Fits (layout : SfLayout) (sf : ScaleFactorInfoSub) : Prop :=
  ∀ e ∈ layout, e.2.Fits (sf.get e.1)

def Ok (layout : SfLayout) : Prop := ∀ e ∈ layout, e.2.Ok e.1

/-- The cells that are read. -/
def cells (layout : SfLayout) : List SfCell := layout.map Prod.fst

variable {layout later : SfLayout} {sf sfis : ScaleFactorInfoSub}

theorem read_append (layout later : SfLayout) :
    read (layout ++ later) = fun sfis => layout.read sfis >>= later.read := by
  funext sfis
  exact List.foldlM_append

@[simp]
theorem len_append (layout later : SfLayout) : len (layout ++ later) = layout.len + later.len := by
  rw [len, List.map_append, List.sum_append]
  rfl

theorem Ok.append (h : layout.Ok) (h' : later.Ok) : Ok (layout ++ later) := fun e he =>
  (List.mem_append.mp he).elim (h e) (h' e)

theorem ok_nil : Ok [] := fun _ he => absurd he List.not_mem_nil

/-- What is read, bit by bit. -/
def plain : SfLayout → List Bool → ScaleFactorInfoSub → ScaleFactorInfoSub
  | [], _, sfis => sfis
  | e :: layout, bits, sfis =>
    plain layout (bits.drop e.2.len) (sfis.set (e.2.value bits) e.1)

/-- **The reader** takes the bits of the layout, also where there are fewer. -/
theorem read_spec (hok : layout.Ok) {bsi : BitStreamInfo} {rest : List Bool} {beyond : ℕ}
    (h : bsi.Reads rest beyond) (sfis : ScaleFactorInfoSub) :
    (layout.read sfis bsi).1 = layout.plain rest sfis ∧
      (layout.read sfis bsi).2.Reads (rest.drop layout.len) (beyond + (layout.len - rest.length)) ∧
      (layout.read sfis bsi).2.last = bsi.last := by
  -- by induction on the layout, for any bits that are left
  induction layout generalizing bsi rest beyond sfis with
  | nil => exact ⟨rfl, by rwa [show beyond + (len [] - rest.length) = beyond by simp [len]], rfl⟩
  | cons e layout ih =>
    obtain ⟨hval, hreads, hlast⟩ : (e.2.read bsi).1 = e.2.value rest ∧
        (e.2.read bsi).2.Reads (rest.drop e.2.len) (beyond + (e.2.len - rest.length)) ∧
        (e.2.read bsi).2.last = bsi.last := by
      have he := hok e List.mem_cons_self
      obtain ⟨c, src⟩ := e
      cases src with
      | bits n =>
        obtain ⟨hval, hreads, hlast, -⟩ := getBits_spec h (by have := he.1; omega : n < 32)
        exact ⟨hval, hreads, hlast⟩
      | known v => exact ⟨rfl, by rwa [SfSource.len, Nat.zero_sub], rfl⟩
    obtain ⟨hval', hreads', hlast'⟩ := ih (fun d hd => hok d (List.mem_cons_of_mem e hd)) hreads
      (sfis.set (e.2.read bsi).1 e.1)
    have hlen : len (e :: layout) = e.2.len + len layout := List.sum_cons
    rw [List.drop_drop, ← hlen, List.length_drop, Nat.add_assoc,
      show e.2.len - rest.length + (len layout - (rest.length - e.2.len)) =
        len (e :: layout) - rest.length by omega] at hreads'
    exact ⟨hval'.trans (by rw [hval]; rfl), hreads', hlast'.trans hlast⟩

/-- What is read is in shape. -/
theorem plain_inShape (hok : layout.Ok) (h : sfis.InShape) (bits : List Bool) :
    (layout.plain bits sfis).InShape := by
  induction layout generalizing bits sfis with
  | nil => exact h
  | cons e layout ih =>
    refine ih (fun d hd => hok d (List.mem_cons_of_mem e hd)) ?_ _
    have he := hok e List.mem_cons_self
    obtain ⟨c, src⟩ := e
    cases src with
    | bits n =>
      exact h.set ((field_lt bits n).trans_le (Nat.pow_le_pow_right (by decide) he.1)) (Or.inl he.2)
    | known v => exact h.set he.1 he.2

/-- What is written is read back, over what was there before. -/
theorem plain_write (hfits : layout.Fits sf) (rest : List Bool) (sfis : ScaleFactorInfoSub)
    (c : SfCell) :
    (layout.plain (layout.write sf ++ rest) sfis).get c =
      if c ∈ layout.cells then sf.get c else sfis.get c := by
  -- by induction on the layout: an entry may be written again by those behind it
  induction layout generalizing sfis with
  | nil => exact (if_neg List.not_mem_nil).symm
  | cons e layout ih =>
    have hentry : ∀ later, e.2.value (e.2.write (sf.get e.1) ++ later) = sf.get e.1 ∧
        (e.2.write (sf.get e.1) ++ later).drop e.2.len = later := fun later => by
      have hfit := hfits e List.mem_cons_self
      obtain ⟨c, src⟩ := e
      cases src with
      | bits n =>
        refine ⟨?_, ?_⟩
        · show field (ofNat n (sf.get c) ++ later) n = sf.get c
          rw [field_append_left (length_ofNat n _).ge, field_of_le (length_ofNat n _).ge,
            List.take_of_length_le (length_ofNat n _).le, value_ofNat_of_lt hfit]
        · exact List.drop_left' (length_ofNat n _)
      | known v => exact ⟨Eq.symm hfit, rfl⟩
    have hwrite : write (e :: layout) sf = e.2.write (sf.get e.1) ++ write layout sf :=
      List.flatMap_cons
    rw [hwrite, List.append_assoc, plain, (hentry _).1, (hentry _).2,
      ih (fun d hd => hfits d (List.mem_cons_of_mem e hd)), ScaleFactorInfoSub.get_set]
    show _ = if c ∈ e.1 :: cells layout then _ else _
    by_cases hc : c ∈ cells layout
    · rw [if_pos hc, if_pos (List.mem_cons_of_mem _ hc)]
    · rw [if_neg hc]
      by_cases heq : c = e.1
      · rw [if_pos heq, if_pos (heq ▸ List.mem_cons_self), heq]
      · rw [if_neg heq, if_neg fun hmem => (List.mem_cons.mp hmem).elim heq hc]

end SfLayout

/-! ### The layouts of the source -/

/-- `l[lo]` to `l[hi - 1]`. -/
def longBands (src : ℕ → SfSource) (lo hi : ℕ) : SfLayout :=
  (List.range' lo (hi - lo)).map fun sfb => (.long sfb, src sfb)

/-- `s[lo]` to `s[hi - 1]`. -/
def shortBands (src : SfSource) (lo hi : ℕ) : SfLayout :=
  (List.range' lo (hi - lo)).flatMap fun sfb =>
    [(.short sfb 0, src), (.short sfb 1, src), (.short sfb 2, src)]

/-- The bands that the second granule shares with the first one, or not. -/
def sharedBands (scfsi slen lo hi : ℕ) (sfisGr0 : ScaleFactorInfoSub) : SfLayout :=
  longBands (fun sfb => if scfsi ≠ 0 then .known (sfisGr0.l sfb) else .bits slen) lo hi

/-- The long bands of a mixed block. -/
def mixedBands (mixedBlock slen hi : ℕ) : SfLayout :=
  if mixedBlock ≠ 0 then longBands (fun _ => .bits slen) 0 hi else []

/-- `UnpackSFMPEG1`. -/
def layoutMPEG1 (sis : SideInfoSub) (scfsi : ℕ → ℕ) (gr : ℕ) (sfisGr0 : ScaleFactorInfoSub) :
    SfLayout :=
  let slen := SFLenTab.getD sis.sfCompress (0, 0)
  if sis.blockType = 2 then
    mixedBands sis.mixedBlock slen.1 8 ++
      (shortBands (.bits slen.1) (if sis.mixedBlock ≠ 0 then 3 else 0) 6 ++
        (shortBands (.bits slen.2) 6 12 ++ shortBands (.known 0) 12 13))
  else if gr = 0 then
    longBands (fun _ => .bits slen.1) 0 11 ++ longBands (fun _ => .bits slen.2) 11 21
  else
    sharedBands (scfsi 0) slen.1 0 6 sfisGr0 ++
      (sharedBands (scfsi 1) slen.1 6 11 sfisGr0 ++
        (sharedBands (scfsi 2) slen.2 11 16 sfisGr0 ++
          (sharedBands (scfsi 3) slen.2 16 21 sfisGr0 ++ longBands (fun _ => .known 0) 21 23)))

/-- The partitions `nrIdx` of `groups`, from the band `sfb` on. -/
def groupBands (bands : SfSource → ℕ → ℕ → SfLayout) (slen nr : List ℕ) : List ℕ → ℕ → SfLayout
  | [], _ => []
  | nrIdx :: groups, sfb =>
    bands (.bits (slen.getD nrIdx 0)) sfb (sfb + nr.getD nrIdx 0) ++
      groupBands bands slen nr groups (sfb + nr.getD nrIdx 0)

/-- `UnpackSFMPEG2`. -/
def layoutMPEG2 (sis : SideInfoSub) (slen nr : List ℕ) : SfLayout :=
  if sis.blockType = 2 then
    mixedBands sis.mixedBlock (slen.getD 0 0) 6 ++
      (groupBands shortBands slen nr (if sis.mixedBlock ≠ 0 then [1, 2, 3] else [0, 1, 2, 3])
        (if sis.mixedBlock ≠ 0 then 3 else 0) ++ shortBands (.known 0) 12 13)
  else
    groupBands (fun src => longBands fun _ => src) slen nr [0, 1, 2, 3] 0 ++
      longBands (fun _ => .known 0) 21 23

/-- The scale factors of a granule of a channel. -/
def sfLayout (ver : MPEGVersion) (modeExt : ℕ) (si : SideInfo) (sfi : ScaleFactorInfo)
    (gr ch : ℕ) : SfLayout :=
  if ver = .mpeg1 then layoutMPEG1 (si.sis gr ch) (si.scfsi ch) gr (sfi.sfis 0 ch)
  else
    let slen := slenMPEG2 (isRight modeExt ch) (si.sis gr ch).sfCompress (si.sis gr ch).mixedBlock
    layoutMPEG2 (si.sis gr ch) slen.1 (nrMPEG2 (si.sis gr ch) slen.2)

/-! ### The loops of the source read them -/

open SfLayout

section

variable (slen lo hi : ℕ) (sfis sfisGr0 : ScaleFactorInfoSub)

theorem unpackLong_eq :
    unpackLong slen lo hi sfis = (longBands (fun _ => .bits slen) lo hi).read sfis := by
  unfold unpackLong longBands
  rw [SfLayout.read, List.foldlM_map]
  rfl

theorem unpackShort_eq :
    unpackShort slen lo hi sfis = (shortBands (.bits slen) lo hi).read sfis := by
  unfold unpackShort shortBands
  induction List.range' lo (hi - lo) generalizing sfis with
  | nil => rfl
  | cons sfb bands ih =>
    rw [List.foldlM_cons, List.flatMap_cons, read_append]
    simp only [ih]
    simp only [SfLayout.read, List.foldlM_cons, List.foldlM_nil, readEntry, SfSource.read,
      bind_assoc, pure_bind, ScaleFactorInfoSub.setS_eq]

theorem read_known (bands : List ℕ) (v : ℕ → ℕ) :
    SfLayout.read (bands.map fun sfb => (.long sfb, .known (v sfb))) sfis =
      pure (bands.foldl (fun sfis sfb => sfis.setL sfb (v sfb)) sfis) := by
  rw [SfLayout.read, List.foldlM_map]
  exact List.foldlM_pure

theorem unpackShared_eq (scfsi : ℕ) :
    unpackShared scfsi slen lo hi sfisGr0 sfis =
      (sharedBands scfsi slen lo hi sfisGr0).read sfis := by
  unfold unpackShared sharedBands
  split_ifs
  · exact (read_known sfis _ sfisGr0.l).symm
  · exact unpackLong_eq slen lo hi sfis

theorem unpackMixed_eq (mixedBlock : ℕ) :
    unpackMixed mixedBlock slen hi sfis = (mixedBands mixedBlock slen hi).read sfis := by
  unfold unpackMixed mixedBands
  split_ifs
  · exact unpackLong_eq slen 0 hi sfis
  · rfl

/-- The last short band is not transmitted. -/
theorem read_last_short :
    (shortBands (.known 0) 12 13).read = fun sfis => pure (sfis.setS 12 0 0 0) := by
  funext sfis
  rw [ScaleFactorInfoSub.setS_eq]
  rfl

/-- Nor are the last two long ones. -/
theorem read_last_long :
    (longBands (fun _ => .known 0) 21 23).read =
      fun sfis => pure ((sfis.setL 21 0).setL 22 0) := by
  funext sfis
  exact read_known sfis [21, 22] fun _ => 0

theorem unpackSFMPEG1_eq (sis : SideInfoSub) (scfsi : ℕ → ℕ) (gr : ℕ) :
    unpackSFMPEG1 sis scfsi gr sfisGr0 sfis = (layoutMPEG1 sis scfsi gr sfisGr0).read sfis := by
  unfold unpackSFMPEG1 layoutMPEG1
  dsimp only
  split_ifs <;>
    simp only [read_append, unpackMixed_eq, unpackShort_eq, unpackLong_eq, unpackShared_eq,
      read_last_short, read_last_long]

theorem unpackGroups_eq {unpack : ℕ → ℕ → ℕ → ScaleFactorInfoSub →
      StateM BitStreamInfo ScaleFactorInfoSub} {bands : SfSource → ℕ → ℕ → SfLayout}
    (hunpack : ∀ slen lo hi sfis, unpack slen lo hi sfis = (bands (.bits slen) lo hi).read sfis)
    (slen nr groups : List ℕ) (sfb : ℕ) :
    Prod.snd <$> unpackGroups unpack slen nr groups sfb sfis =
      (groupBands bands slen nr groups sfb).read sfis := by
  obtain rfl : unpack = fun slen lo hi sfis => (bands (.bits slen) lo hi).read sfis := by
    funext slen lo hi sfis
    exact hunpack slen lo hi sfis
  unfold unpackGroups
  induction groups generalizing sfb sfis with
  | nil => rfl
  | cons nrIdx groups ih =>
    rw [List.foldlM_cons, groupBands, read_append, map_bind]
    simp only [bind_assoc, pure_bind, ih]

theorem unpackSFBands_eq (sis : SideInfoSub) (slen nr : List ℕ) :
    unpackSFBands sis slen nr sfis = (layoutMPEG2 sis slen nr).read sfis := by
  have hgroups : ∀ {unpack : ℕ → ℕ → ℕ → ScaleFactorInfoSub →
      StateM BitStreamInfo ScaleFactorInfoSub} {bands : SfSource → ℕ → ℕ → SfLayout}
      (_ : ∀ slen lo hi sfis, unpack slen lo hi sfis = (bands (.bits slen) lo hi).read sfis)
      (groups : List ℕ) (sfb : ℕ) (sfis : ScaleFactorInfoSub)
      (f : ScaleFactorInfoSub → StateM BitStreamInfo ScaleFactorInfoSub),
      (unpackGroups unpack slen nr groups sfb sfis >>= fun p => f p.2) =
        (groupBands bands slen nr groups sfb).read sfis >>= f := fun h groups sfb sfis f => by
    rw [← unpackGroups_eq sfis h, bind_map_left]
  unfold unpackSFBands layoutMPEG2
  by_cases hblock : sis.blockType = 2
  · rw [if_pos hblock, if_pos hblock, read_append, read_append, read_last_short, unpackMixed_eq]
    congr 1
    funext sfis
    exact hgroups unpackShort_eq _ _ _ fun s => pure (s.setS 12 0 0 0)
  · rw [if_neg hblock, if_neg hblock, read_append, read_last_long]
    exact hgroups unpackLong_eq _ _ _ fun s => pure ((s.setL 21 0).setL 22 0)

/-- **The scale factors** are read in the order of their layout. -/
theorem unpackSF_eq (ver : MPEGVersion) (modeExt : ℕ) (si : SideInfo) (sfi : ScaleFactorInfo)
    (gr ch : ℕ) :
    unpackSF ver modeExt si sfi gr ch =
      (sfLayout ver modeExt si sfi gr ch).read (sfi.sfis gr ch) := by
  unfold unpackSF sfLayout
  split_ifs
  · exact unpackSFMPEG1_eq _ _ _ _ _
  · exact unpackSFBands_eq _ _ _ _

end

/-! ### The number of bits -/

/-- The bits of the scale factors of `UnpackSFMPEG1`. -/
def sfBitsMPEG1 (sis : SideInfoSub) (scfsi : ℕ → ℕ) (gr : ℕ) : ℕ :=
  let slen := SFLenTab.getD sis.sfCompress (0, 0)
  if sis.blockType = 2 then
    if sis.mixedBlock ≠ 0 then 8 * slen.1 + 9 * slen.1 + 18 * slen.2
    else 18 * slen.1 + 18 * slen.2
  else if gr = 0 then 11 * slen.1 + 10 * slen.2
  else
    (if scfsi 0 ≠ 0 then 0 else 6 * slen.1) + (if scfsi 1 ≠ 0 then 0 else 5 * slen.1) +
      (if scfsi 2 ≠ 0 then 0 else 5 * slen.2) + if scfsi 3 ≠ 0 then 0 else 5 * slen.2

/-- The bits of partitions with `k` windows. -/
def groupBits (k : ℕ) (slen nr groups : List ℕ) : ℕ :=
  (groups.map fun nrIdx => nr.getD nrIdx 0 * (k * slen.getD nrIdx 0)).sum

/-- The bits of the scale factors of `UnpackSFMPEG2`. -/
def sfBitsMPEG2 (sis : SideInfoSub) (slen nr : List ℕ) : ℕ :=
  if sis.blockType = 2 then
    if sis.mixedBlock ≠ 0 then 6 * slen.getD 0 0 + groupBits 3 slen nr [1, 2, 3]
    else groupBits 3 slen nr [0, 1, 2, 3]
  else groupBits 1 slen nr [0, 1, 2, 3]

/-- The bits of the scale factors of a granule of a channel. -/
def sfBits (ver : MPEGVersion) (modeExt : ℕ) (si : SideInfo) (gr ch : ℕ) : ℕ :=
  if ver = .mpeg1 then sfBitsMPEG1 (si.sis gr ch) (si.scfsi ch) gr
  else
    let slen := slenMPEG2 (isRight modeExt ch) (si.sis gr ch).sfCompress (si.sis gr ch).mixedBlock
    sfBitsMPEG2 (si.sis gr ch) slen.1 (nrMPEG2 (si.sis gr ch) slen.2)

section

variable {slen lo hi : ℕ}

@[simp]
theorem len_longBands (src : SfSource) :
    len (longBands (fun _ => src) lo hi) = (hi - lo) * src.len := by
  rw [len, longBands, List.map_map]
  show ((List.range' lo (hi - lo)).map fun _ => src.len).sum = _
  rw [List.map_const', List.sum_replicate_nat, List.length_range']

@[simp]
theorem len_shortBands (src : SfSource) :
    len (shortBands src lo hi) = (hi - lo) * (3 * src.len) := by
  have hband : ∀ bands : List ℕ, len (bands.flatMap fun sfb =>
      [(.short sfb 0, src), (.short sfb 1, src), (.short sfb 2, src)]) =
        bands.length * (3 * src.len) := by
    intro bands
    induction bands with
    | nil => exact (Nat.zero_mul _).symm
    | cons sfb bands ih =>
      rw [List.flatMap_cons, len_append, ih, List.length_cons]
      show src.len + (src.len + (src.len + 0)) + _ = _
      ring
  rw [shortBands, hband, List.length_range']

@[simp]
theorem len_sharedBands (scfsi : ℕ) (sfisGr0 : ScaleFactorInfoSub) :
    len (sharedBands scfsi slen lo hi sfisGr0) = if scfsi ≠ 0 then 0 else (hi - lo) * slen := by
  unfold sharedBands
  split_ifs
  · rw [len, longBands, List.map_map]
    show ((List.range' lo (hi - lo)).map fun _ => 0).sum = 0
    rw [List.map_const', List.sum_replicate_nat, Nat.mul_zero]
  · exact len_longBands (.bits slen)

@[simp]
theorem len_mixedBands (mixedBlock : ℕ) :
    len (mixedBands mixedBlock slen hi) = if mixedBlock ≠ 0 then hi * slen else 0 := by
  unfold mixedBands
  split_ifs
  · exact len_longBands (.bits slen)
  · rfl

theorem len_groupBands {f : SfSource → ℕ → ℕ → SfLayout} {k : ℕ}
    (hf : ∀ slen lo hi, len (f (.bits slen) lo hi) = (hi - lo) * (k * slen))
    (slen nr groups : List ℕ) (sfb : ℕ) :
    len (groupBands f slen nr groups sfb) = groupBits k slen nr groups := by
  induction groups generalizing sfb with
  | nil => rfl
  | cons nrIdx groups ih =>
    rw [groupBands, len_append, ih, hf, Nat.add_sub_cancel_left]
    rfl

theorem len_layoutMPEG1 (sis : SideInfoSub) (scfsi : ℕ → ℕ) (gr : ℕ)
    (sfisGr0 : ScaleFactorInfoSub) :
    len (layoutMPEG1 sis scfsi gr sfisGr0) = sfBitsMPEG1 sis scfsi gr := by
  unfold layoutMPEG1 sfBitsMPEG1
  dsimp only
  by_cases hblock : sis.blockType = 2
  · rw [if_pos hblock, if_pos hblock]
    simp only [len_append, len_mixedBands, len_shortBands, SfSource.len]
    split_ifs <;> ring
  · rw [if_neg hblock, if_neg hblock]
    split_ifs <;>
      simp only [len_append, len_sharedBands, len_longBands, SfSource.len, *, if_true, if_false,
        ne_eq, not_false_eq_true, Nat.mul_zero, Nat.add_zero] <;>
      ring

theorem len_layoutMPEG2 (sis : SideInfoSub) (slen nr : List ℕ) :
    len (layoutMPEG2 sis slen nr) = sfBitsMPEG2 sis slen nr := by
  have hlong : ∀ slen lo hi, len (longBands (fun _ => .bits slen) lo hi) = (hi - lo) * (1 * slen) :=
    fun slen lo hi => by rw [len_longBands, SfSource.len, Nat.one_mul]
  unfold layoutMPEG2 sfBitsMPEG2
  by_cases hblock : sis.blockType = 2
  · rw [if_pos hblock, if_pos hblock, len_append, len_append, len_mixedBands, len_shortBands,
      len_groupBands fun slen lo hi => len_shortBands (.bits slen)]
    split_ifs
    · rfl
    · exact Nat.zero_add _
  · rw [if_neg hblock, if_neg hblock, len_append, len_longBands,
      len_groupBands (f := fun src => longBands fun _ => src) hlong]
    rfl

theorem len_sfLayout (ver : MPEGVersion) (modeExt : ℕ) (si : SideInfo) (sfi : ScaleFactorInfo)
    (gr ch : ℕ) : len (sfLayout ver modeExt si sfi gr ch) = sfBits ver modeExt si gr ch := by
  unfold sfLayout sfBits
  split_ifs
  · exact len_layoutMPEG1 _ _ _ _
  · exact len_layoutMPEG2 _ _ _

end

/-! ### No band that is not there -/

section

variable {slen lo hi : ℕ}

theorem ok_longBands {src : ℕ → SfSource} (h : ∀ sfb, sfb < hi → (src sfb).Ok (.long sfb)) :
    SfLayout.Ok (longBands src lo hi) := by
  intro e he
  obtain ⟨sfb, hsfb, rfl⟩ := List.mem_map.mp he
  obtain ⟨i, hi', rfl⟩ := List.mem_range'.mp hsfb
  exact h _ (by omega)

theorem ok_shortBands {src : SfSource} (h : ∀ sfb w, sfb < hi → w < 3 → src.Ok (.short sfb w)) :
    SfLayout.Ok (shortBands src lo hi) := by
  intro e he
  obtain ⟨sfb, hsfb, he⟩ := List.mem_flatMap.mp he
  obtain ⟨i, hi', rfl⟩ := List.mem_range'.mp hsfb
  have hlt : lo + 1 * i < hi := by omega
  simp only [List.mem_cons, List.not_mem_nil, or_false] at he
  rcases he with rfl | rfl | rfl
  · exact h _ 0 hlt (by decide)
  · exact h _ 1 hlt (by decide)
  · exact h _ 2 hlt (by decide)

theorem ok_long_bits (hslen : slen ≤ 5) (hhi : hi ≤ 21) :
    SfLayout.Ok (longBands (fun _ => .bits slen) lo hi) :=
  ok_longBands fun _ hsfb => ⟨hslen, hsfb.trans_le hhi⟩

theorem ok_short_bits (hslen : slen ≤ 5) (hhi : hi ≤ 12) :
    SfLayout.Ok (shortBands (.bits slen) lo hi) :=
  ok_shortBands fun _ _ hsfb hw => ⟨hslen, hsfb.trans_le hhi, hw⟩

theorem ok_long_zero : SfLayout.Ok (longBands (fun _ => .known 0) lo hi) :=
  ok_longBands fun _ _ => ⟨Nat.two_pow_pos 5, Or.inr rfl⟩

theorem ok_short_zero : SfLayout.Ok (shortBands (.known 0) lo hi) :=
  ok_shortBands fun _ _ _ _ => ⟨Nat.two_pow_pos 5, Or.inr rfl⟩

theorem ok_mixed (mixedBlock : ℕ) (hslen : slen ≤ 5) (hhi : hi ≤ 21) :
    SfLayout.Ok (mixedBands mixedBlock slen hi) := by
  unfold mixedBands
  split_ifs
  · exact ok_long_bits hslen hhi
  · exact ok_nil

theorem ok_shared {sfisGr0 : ScaleFactorInfoSub} (h₀ : sfisGr0.InShape) (scfsi : ℕ)
    (hslen : slen ≤ 5) (hhi : hi ≤ 21) : SfLayout.Ok (sharedBands scfsi slen lo hi sfisGr0) := by
  refine ok_longBands fun sfb hsfb => ?_
  split_ifs
  · exact ⟨h₀.l sfb, Or.inl (hsfb.trans_le hhi)⟩
  · exact ⟨hslen, hsfb.trans_le hhi⟩

theorem ok_groups {bands : SfSource → ℕ → ℕ → SfLayout} {bound : ℕ}
    (hbands : ∀ {slen lo hi : ℕ}, slen ≤ 5 → hi ≤ bound → SfLayout.Ok (bands (.bits slen) lo hi))
    {slen nr : List ℕ} (hslen : ∀ i, slen.getD i 0 ≤ 5) (groups : List ℕ) {sfb : ℕ}
    (hsum : sfb + (groups.map fun i => nr.getD i 0).sum ≤ bound) :
    SfLayout.Ok (groupBands bands slen nr groups sfb) := by
  induction groups generalizing sfb with
  | nil => exact ok_nil
  | cons nrIdx groups ih =>
    rw [List.map_cons, List.sum_cons] at hsum
    exact (hbands (hslen nrIdx) (by omega)).append (ih (by omega))

end

theorem SFLenTab_le (i : ℕ) :
    (SFLenTab.getD i (0, 0)).1 ≤ 5 ∧ (SFLenTab.getD i (0, 0)).2 ≤ 5 := by
  have hall : ∀ i < 16, (SFLenTab.getD i (0, 0)).1 ≤ 5 ∧ (SFLenTab.getD i (0, 0)).2 ≤ 5 := by decide
  rcases Nat.lt_or_ge i 16 with hi | hi
  · exact hall i hi
  · have hlen : SFLenTab.length ≤ i := hi
    rw [List.getD_eq_getElem?_getD, List.getElem?_eq_none hlen]
    decide

theorem slenMPEG2_le : ∀ (right : Bool), ∀ sfCompress < 2 ^ 9, ∀ mixedBlock < 2 ^ 1,
    (∀ v ∈ (slenMPEG2 right sfCompress mixedBlock).1, v ≤ 5) ∧
      (slenMPEG2 right sfCompress mixedBlock).2 < 6 := by
  decide +kernel

theorem getD_le_of_forall {l : List ℕ} {k : ℕ} (h : ∀ v ∈ l, v ≤ k) (i : ℕ) : l.getD i 0 ≤ k := by
  rw [List.getD_eq_getElem?_getD]
  cases hi : l[i]? with
  | none => exact Nat.zero_le k
  | some v => exact h v (List.mem_of_getElem? hi)

/-- The partitions have just the bands that there are. -/
theorem NRTab_sum : ∀ sfcIdx < 6,
    (([0, 1, 2, 3].map fun i => ((NRTab.getD sfcIdx []).getD 0 []).getD i 0).sum = 21) ∧
    (([0, 1, 2, 3].map fun i => ((NRTab.getD sfcIdx []).getD 1 []).getD i 0).sum = 12) ∧
    (([1, 2, 3].map fun i => ((NRTab.getD sfcIdx []).getD 2 []).getD i 0).sum = 9) := by
  decide

theorem ok_layoutMPEG1 {sfisGr0 : ScaleFactorInfoSub} (h₀ : sfisGr0.InShape) (sis : SideInfoSub)
    (scfsi : ℕ → ℕ) (gr : ℕ) : SfLayout.Ok (layoutMPEG1 sis scfsi gr sfisGr0) := by
  obtain ⟨hslen₁, hslen₂⟩ := SFLenTab_le sis.sfCompress
  unfold layoutMPEG1
  dsimp only
  by_cases hblock : sis.blockType = 2
  · rw [if_pos hblock]
    exact (ok_mixed _ hslen₁ (by decide)).append ((ok_short_bits hslen₁ (by decide)).append
      ((ok_short_bits hslen₂ le_rfl).append ok_short_zero))
  · rw [if_neg hblock]
    split_ifs
    · exact (ok_long_bits hslen₁ (by decide)).append (ok_long_bits hslen₂ le_rfl)
    · exact (ok_shared h₀ _ hslen₁ (by decide)).append ((ok_shared h₀ _ hslen₁ (by decide)).append
        ((ok_shared h₀ _ hslen₂ (by decide)).append ((ok_shared h₀ _ hslen₂ le_rfl).append
          ok_long_zero)))

theorem ok_layoutMPEG2 {sis : SideInfoSub} {slen : List ℕ} {sfcIdx : ℕ} (hslen : ∀ v ∈ slen, v ≤ 5)
    (hsfc : sfcIdx < 6) : SfLayout.Ok (layoutMPEG2 sis slen (nrMPEG2 sis sfcIdx)) := by
  obtain ⟨hlong, hshort, hmixed⟩ := NRTab_sum sfcIdx hsfc
  have hslen' := getD_le_of_forall hslen
  unfold layoutMPEG2 nrMPEG2
  dsimp only
  by_cases hblock : sis.blockType = 2
  · rw [if_pos hblock, if_pos hblock]
    refine (ok_mixed _ (hslen' 0) (by decide)).append (.append ?_ ok_short_zero)
    refine ok_groups ok_short_bits hslen' _ ?_
    split_ifs
    · exact (congrArg (3 + ·) hmixed).le
    · exact (congrArg (0 + ·) hshort).le
  · rw [if_neg hblock, if_neg hblock]
    refine .append ?_ ok_long_zero
    exact ok_groups ok_long_bits hslen' _ ((congrArg (0 + ·) hlong).le)

theorem ok_sfLayout (ver : MPEGVersion) (modeExt : ℕ) {si : SideInfo} {sfi : ScaleFactorInfo}
    (hsi : si.InRange) (h : sfi.InShape) (gr ch : ℕ) :
    SfLayout.Ok (sfLayout ver modeExt si sfi gr ch) := by
  unfold sfLayout
  by_cases hver : ver = .mpeg1
  · rw [if_pos hver]
    exact ok_layoutMPEG1 (h 0 ch) _ _ _
  · rw [if_neg hver]
    obtain ⟨hslen, hsfc⟩ := slenMPEG2_le (isRight modeExt ch) _ (hsi.sis gr ch).sfCompress _
      (hsi.sis gr ch).mixedBlock
    exact ok_layoutMPEG2 hslen hsfc

/-! ### `UnpackScaleFactors` -/

theorem ScaleFactorInfo.InShape.setSfis {sfi : ScaleFactorInfo} (h : sfi.InShape)
    {sfis : ScaleFactorInfoSub} (hs : sfis.InShape) (gr ch : ℕ) :
    (sfi.setSfis gr ch sfis).InShape := by
  intro g c
  show (if g = gr ∧ c = ch then sfis else sfi.sfis g c).InShape
  split_ifs
  · exact hs
  · exact h g c

theorem ScaleFactorInfo.withIntensity_sfis (sfi : ScaleFactorInfo) (ver : MPEGVersion)
    (modeExt : ℕ) (sis : SideInfoSub) (ch : ℕ) :
    (sfi.withIntensity ver modeExt sis ch).sfis = sfi.sfis := by
  unfold ScaleFactorInfo.withIntensity
  split_ifs <;> rfl

theorem SideInfo.InRange.withPreFlag {si : SideInfo} (h : si.InRange) (ver : MPEGVersion)
    (modeExt gr ch : ℕ) : (si.withPreFlag ver modeExt gr ch).InRange := by
  have hflag : ∀ right sfCompress, preFlagMPEG2 right sfCompress < 2 ^ 1 :=
    fun right sfCompress => by
    unfold preFlagMPEG2
    split_ifs <;> decide
  have hsub : ∀ right sfCompress, SideInfoSub.InRange
      { si.sis gr ch with preFlag := preFlagMPEG2 right sfCompress } := fun right sfCompress =>
    { h.sis gr ch with preFlag := hflag right sfCompress }
  unfold SideInfo.withPreFlag
  split_ifs
  · exact h
  · exact h.setSis (hsub _ _) gr ch

/-- The bits that the reader is given: those of the bytes of which one is available. -/
def sfBytes (buf : List UInt8) (bitOffset : ℕ) (bitsAvail : ℤ) : List Bool :=
  (ofBytes (buf.take ((bitsAvail + bitOffset + 7) / 8).toNat)).drop bitOffset

section

variable {ver : MPEGVersion} {modeExt : ℕ} {si : SideInfo} {sfi : ScaleFactorInfo}
  {buf : List UInt8} {bitOffset : ℕ} {bitsAvail : ℤ} {gr ch : ℕ}

/-- The reader at the first scale factor. -/
theorem sf_reader (hoff : bitOffset < 8) (hpos : 0 ≤ bitsAvail)
    (hlen : bitOffset + bitsAvail ≤ 8 * buf.length) :
    ∃ bsi : BitStreamInfo,
      (if bitOffset ≠ 0 then
          (getBits bitOffset
            (setBitstreamPointer ((bitsAvail + bitOffset + 7) / 8).toNat buf)).2
        else setBitstreamPointer ((bitsAvail + bitOffset + 7) / 8).toNat buf) = bsi ∧
      bsi.Reads (sfBytes buf bitOffset bitsAvail) 0 ∧
      8 * bsi.last = bitOffset + (sfBytes buf bitOffset bitsAvail).length := by
  obtain ⟨n, hn⟩ : ∃ n, ((bitsAvail + bitOffset + 7) / 8).toNat = n := ⟨_, rfl⟩
  have hnbuf : n ≤ buf.length := by omega
  have hlength : (sfBytes buf bitOffset bitsAvail).length = 8 * n - bitOffset := by
    rw [sfBytes, hn, List.length_drop, length_ofBytes, List.length_take, Nat.min_eq_left hnbuf]
  have hstart := BitStreamInfo.reads_start hnbuf
  have hlast : (setBitstreamPointer n buf).last = n := Nat.zero_add n
  rw [hn]
  refine ⟨_, rfl, ?_⟩
  split_ifs with h0
  · obtain ⟨-, hreads, hlast', -⟩ := getBits_spec hstart (by omega : bitOffset < 32)
    rw [length_ofBytes, List.length_take, Nat.min_eq_left hnbuf, Nat.zero_add,
      Nat.sub_eq_zero_of_le (by omega)] at hreads
    refine ⟨?_, by rw [hlast', hlast]; omega⟩
    rwa [sfBytes, hn]
  · rw [not_not] at h0
    refine ⟨?_, by rw [hlast]; omega⟩
    rwa [sfBytes, hn, h0, List.drop_zero]

theorem unpackScaleFactors_spec (hsi : si.InRange) (h : sfi.InShape) (hoff : bitOffset < 8)
    (hpos : 0 ≤ bitsAvail) (hlen : bitOffset + bitsAvail ≤ 8 * buf.length) :
    unpackScaleFactors ver modeExt si sfi buf bitOffset bitsAvail gr ch =
      { offset := (bitOffset + sfBits ver modeExt si gr ch) / 8
        bitOffset := (bitOffset + sfBits ver modeExt si gr ch) % 8
        si := si.withPreFlag ver modeExt gr ch
        sfi := (sfi.withIntensity ver modeExt (si.sis gr ch) ch).setSfis gr ch
          ((sfLayout ver modeExt si sfi gr ch).plain (sfBytes buf bitOffset bitsAvail)
            (sfi.sfis gr ch)) } := by
  obtain ⟨bsi, hbsi, hreads, hlast⟩ := sf_reader hoff hpos hlen
  obtain ⟨hval, hreads', hlast'⟩ := read_spec (ok_sfLayout ver modeExt hsi h gr ch) hreads
    (sfi.sfis gr ch)
  -- `CalcBitsUsed` counts what the layout has taken, also behind the end
  have hused := hreads'.bitsUsed bitOffset
  rw [hlast', List.length_drop, len_sfLayout] at hused
  obtain ⟨k, hk⟩ : ∃ k, sfBits ver modeExt si gr ch = k := ⟨_, rfl⟩
  rw [hk] at hused ⊢
  have hbits : ((sfLayout ver modeExt si sfi gr ch).read (sfi.sfis gr ch) bsi).2.calcBitsUsed
      bitOffset + bitOffset = ((bitOffset + k : ℕ) : ℤ) := by
    push_cast
    omega
  unfold unpackScaleFactors
  dsimp only
  rw [hbsi, unpackSF_eq, hbits, hval]
  congr 1

/-- **Scale factors**: whatever the main data is, `UnpackScaleFactors` takes as many bits as the
side information says, also where there are fewer, and keeps all arrays in shape. -/
theorem scale_factors_total (hsi : si.InRange) (h : sfi.InShape) (hoff : bitOffset < 8)
    (hpos : 0 ≤ bitsAvail) (hlen : bitOffset + bitsAvail ≤ 8 * buf.length) (ver : MPEGVersion)
    (modeExt gr ch : ℕ) :
    ∃ r, unpackScaleFactors ver modeExt si sfi buf bitOffset bitsAvail gr ch = r ∧
      8 * r.offset + r.bitOffset = bitOffset + sfBits ver modeExt si gr ch ∧ r.bitOffset < 8 ∧
      r.sfi.InShape ∧ r.si.InRange := by
  refine ⟨_, unpackScaleFactors_spec hsi h hoff hpos hlen, Nat.div_add_mod _ 8,
    Nat.mod_lt _ (by decide), ScaleFactorInfo.InShape.setSfis (fun g c => ?_)
      (plain_inShape (ok_sfLayout ver modeExt hsi h gr ch) (h gr ch) _) gr ch,
    hsi.withPreFlag ver modeExt gr ch⟩
  rw [ScaleFactorInfo.withIntensity_sfis]
  exact h g c

/-- Scale factors of 74 bits, where there are 45. -/
def longSi (sfCompress : ℕ) : SideInfo :=
  SideInfo.zero.setSis 0 0 { SideInfoSub.zero with sfCompress := sfCompress }

theorem longSi_inRange {sfCompress : ℕ} (h : sfCompress < 2 ^ 9) : (longSi sfCompress).InRange :=
  have hsub : SideInfoSub.InRange { SideInfoSub.zero with sfCompress := sfCompress } :=
    { SideInfoSub.zero_inRange with sfCompress := h }
  SideInfo.zero_inRange.setSis hsub 0 0

theorem scale_factors_total_short :
    ∃ r, unpackScaleFactors .mpeg1 0 (longSi 15) .zero (List.replicate 6 0xff) 3 45 0 0 = r ∧
      8 * r.offset + r.bitOffset = 77 ∧ r.bitOffset < 8 ∧ r.sfi.InShape ∧ r.si.InRange :=
  scale_factors_total (longSi_inRange (by decide)) ScaleFactorInfo.zero_inShape (by decide)
    (by decide) (by decide) .mpeg1 0 0 0

/-- **Scale factors round trip**: those that are written in the main data are read back, and those
that the second granule shares are those of the first one. -/
theorem scale_factors_round_trip (hsi : si.InRange) (h : sfi.InShape) (hoff : bitOffset < 8)
    (hpos : 0 ≤ bitsAvail) (hlen : bitOffset + bitsAvail ≤ 8 * buf.length)
    {sf : ScaleFactorInfoSub} (hfits : (sfLayout ver modeExt si sfi gr ch).Fits sf)
    {t : List Bool} (hwritten : sfBytes buf bitOffset bitsAvail =
      (sfLayout ver modeExt si sfi gr ch).write sf ++ t) (c : SfCell) :
    ((unpackScaleFactors ver modeExt si sfi buf bitOffset bitsAvail gr ch).sfi.sfis gr ch).get c =
      if c ∈ (sfLayout ver modeExt si sfi gr ch).cells then sf.get c
      else (sfi.sfis gr ch).get c := by
  rw [unpackScaleFactors_spec hsi h hoff hpos hlen, hwritten]
  show (if gr = gr ∧ ch = ch then _ else _ : ScaleFactorInfoSub).get c = _
  rw [if_pos ⟨rfl, rfl⟩, plain_write hfits]

end

/-- A second granule that shares the bands 11 to 15. -/
def sharedSi : SideInfo :=
  (SideInfo.zero.setSis 1 0 { SideInfoSub.zero with sfCompress := 1 }).setScfsi 0 2 1

def sharedSfis : ScaleFactorInfoSub := (ScaleFactorInfo.zero.sfis 0 0).setL 11 1

theorem sharedSi_inRange : sharedSi.InRange :=
  have hsub : SideInfoSub.InRange { SideInfoSub.zero with sfCompress := 1 } :=
    { SideInfoSub.zero_inRange with sfCompress := by decide }
  (SideInfo.zero_inRange.setSis hsub 1 0).setScfsi (by decide) 0 2

theorem sharedSfis_inShape : (ScaleFactorInfo.zero.setSfis 0 0 sharedSfis).InShape :=
  ScaleFactorInfo.zero_inShape.setSfis
    ((ScaleFactorInfo.zero_inShape 0 0).setL (by decide) fun h => absurd h (by decide)) 0 0

/-- One of the shared scale factors, and one that is read. -/
theorem scale_factors_round_trip_shared :
    let r := unpackScaleFactors .mpeg1 0 sharedSi (ScaleFactorInfo.zero.setSfis 0 0 sharedSfis)
      [0x80] 0 8 1 0
    (r.sfi.sfis 1 0).get (.long 11) = 1 ∧ (r.sfi.sfis 1 0).get (.long 16) = 1 :=
  have hfits : (sfLayout .mpeg1 0 sharedSi (ScaleFactorInfo.zero.setSfis 0 0 sharedSfis) 1 0).Fits
      (sharedSfis.setL 16 1) := by
    unfold SfLayout.Fits
    decide
  have h := scale_factors_round_trip sharedSi_inRange sharedSfis_inShape (by decide) (by decide)
    (by decide) hfits (t := [false, false, false]) (by decide)
  ⟨h (.long 11), h (.long 16)⟩

end AudioPipeline
