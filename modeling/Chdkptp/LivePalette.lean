import Chdkptp.LivePixel

/-!
# What palettes are read

`convert_palette` makes a pixel for each of the 256 bytes and so reads every entry of the
palette, except that two types have no use for entry 0.
-/

namespace LivePalette

open TracedRead LiveFrame LivePixel

variable {m : Bytes} {pal : Palette} {f : Nat → UInt8} {r : Nat → List Int}

theorem mem_allBytes (b : UInt8) : b ∈ allBytes :=
  List.mem_map.mpr ⟨b.toNat, List.mem_range.mpr b.toNat_lt, by simp⟩

/-! ## The colour of a byte -/

/-- The mixture of two of the 16 entries of a palette with the bytes `f`. -/
def nibblePixel (layout : EntryLayout) (alpha : Nat → UInt8) (gray : Bool) (f : Nat → UInt8)
    (b : UInt8) : Pixel :=
  let i1 := b.toNat % 16
  let i2 := b.toNat / 16
  let a := alpha (((f (4 * i1 + layout.a)).toNat + (f (4 * i2 + layout.a)).toNat) / 2)
  let y := clampUint8 ((f (4 * i1 + layout.y)).toNat + (f (4 * i2 + layout.y)).toNat)
  let chroma := fun o : Nat => clampInt8 (int8 (f (4 * i1 + o)) + int8 (f (4 * i2 + o)))
  if gray ∧ i1 = 0 then yuvToRgb y 0 0 ++ [a]
  else yuvToRgb y (chroma layout.u) (chroma layout.v) ++ [a]

/-- The bytes of the palette that the mixture looks up. -/
def nibbleParts (layout : EntryLayout) (gray : Bool) (b : UInt8) : List Nat :=
  let i1 := b.toNat % 16
  let i2 := b.toNat / 16
  [4 * i1 + layout.a, 4 * i2 + layout.a, 4 * i1 + layout.y, 4 * i2 + layout.y] ++
    if gray ∧ i1 = 0 then []
    else [4 * i1 + layout.u, 4 * i2 + layout.u, 4 * i1 + layout.v, 4 * i2 + layout.v]

/-- The entry of a palette of 256. -/
def entryPixel (shift : Nat) (f : Nat → UInt8) (b : UInt8) : Pixel :=
  if b = 0 then [0, 0, 0, 0]
  else
    yuvToRgb (f (4 * b.toNat + vuya.y)) (int8 (f (4 * b.toNat + vuya.u)))
      (int8 (f (4 * b.toNat + vuya.v))) ++ [alpha2Lookup ((f (4 * b.toNat + vuya.a)).toNat >>> shift)]

def entryParts (b : UInt8) : List Nat :=
  if b = 0 then [] else
    [4 * b.toNat + vuya.a, 4 * b.toNat + vuya.y, 4 * b.toNat + vuya.v, 4 * b.toNat + vuya.u]

theorem nibbleToRgba_apply (hpal : ∀ j, pal j m = (.ok (f j), r j)) (layout : EntryLayout)
    (alpha : Nat → UInt8) (gray : Bool) (b : UInt8) :
    nibbleToRgba layout alpha gray pal b m =
      (.ok (nibblePixel layout alpha gray f b), (nibbleParts layout gray b).flatMap r) := by
  by_cases hgray : gray = true ∧ b.toNat % 16 = 0
  · simp only [nibbleToRgba, nibblePixel, nibbleParts, if_pos hgray, Traced.bind_ok (hpal _)]
    simp [Traced.pure_apply]
  · simp only [nibbleToRgba, nibblePixel, nibbleParts, if_neg hgray, Traced.bind_ok (hpal _)]
    simp [Traced.pure_apply]

theorem paletteAYUVToRgba_apply (hpal : ∀ j, pal j m = (.ok (f j), r j)) (shift : Nat) (b : UInt8) :
    paletteAYUVToRgba shift pal b m = (.ok (entryPixel shift f b), (entryParts b).flatMap r) := by
  by_cases hzero : b = 0
  · simp [paletteAYUVToRgba, entryPixel, entryParts, hzero]
  · simp only [paletteAYUVToRgba, entryPixel, entryParts, if_neg hzero, Traced.bind_ok (hpal _)]
    simp [Traced.pure_apply]

/-- The colour that a type of palette gives a byte. -/
def typePixel (type : Nat) (f : Nat → UInt8) (b : UInt8) : Pixel :=
  match type with
  | 1 => nibblePixel ayuv UInt8.ofNat true f b
  | 2 => nibblePixel ayuv alpha2Lookup false f b
  | 3 => entryPixel 0 f b
  | 4 => if b = 0 then [0, 0, 0, 0] else nibblePixel vuya alpha2Lookup false f b
  | _ => entryPixel 4 f b

def typeParts (type : Nat) (b : UInt8) : List Nat :=
  match type with
  | 1 => nibbleParts ayuv true b
  | 2 => nibbleParts ayuv false b
  | 4 => if b = 0 then [] else nibbleParts vuya false b
  | _ => entryParts b

/-- The functions of the palettes look up just these bytes. -/
theorem toRgba_apply (hpal : ∀ j, pal j m = (.ok (f j), r j)) {type : Nat} {convert : PaletteConvert}
    {fn : Palette → UInt8 → Read Pixel} (hconvert : getPaletteConvert type = some convert)
    (hfn : convert.toRgba = some fn) (b : UInt8) :
    fn pal b m = (.ok (typePixel type f b), (typeParts type b).flatMap r) := by
  unfold getPaletteConvert at hconvert
  split at hconvert <;> cases hconvert <;> cases hfn
  · exact nibbleToRgba_apply hpal ayuv UInt8.ofNat true b
  · exact nibbleToRgba_apply hpal ayuv alpha2Lookup false b
  · exact paletteAYUVToRgba_apply hpal 0 b
  · by_cases hzero : b = 0
    · simp [paletteType4ToRgba, typePixel, typeParts, hzero]
    · simp only [paletteType4ToRgba, typePixel, typeParts, if_neg hzero]
      exact nibbleToRgba_apply hpal vuya alpha2Lookup false b
  · exact paletteAYUVToRgba_apply hpal 4 b

theorem typePixel_length (type : Nat) (f : Nat → UInt8) (b : UInt8) :
    (typePixel type f b).length = 4 := by
  have hnibble : ∀ layout alpha gray, (nibblePixel layout alpha gray f b).length = 4 := by
    intro layout alpha gray
    simp only [nibblePixel]
    split <;> rfl
  have hentry : ∀ shift, (entryPixel shift f b).length = 4 := by
    intro shift
    unfold entryPixel
    split <;> rfl
  unfold typePixel
  split
  · exact hnibble ..
  · exact hnibble ..
  · exact hentry ..
  · split
    · rfl
    · exact hnibble ..
  · exact hentry ..

/-! ## All bytes -/

/-- Where the first byte that is looked up lies in a palette. -/
def paletteSkip (type : Nat) : Nat := if type = 3 ∨ type = 5 then 4 else 0

/-- Among the bytes looked up for all pixels are the first and the last of the palette. -/
theorem typeParts_range {type : Nat} (hzero : type ≠ 0) (hknown : type < 6) :
    (∀ b, ∀ j ∈ typeParts type b, paletteSkip type ≤ j ∧ j < getPaletteSize type) ∧
      (∃ b, paletteSkip type ∈ typeParts type b) ∧
      ∃ b, getPaletteSize type - 1 ∈ typeParts type b := by
  have hnibble : ∀ layout : EntryLayout, layout.a < 4 → layout.y < 4 → layout.u < 4 → layout.v < 4 →
      ∀ gray b, ∀ j ∈ nibbleParts layout gray b, j < 64 := by
    intro layout ha hy hu hv gray b j hj
    have hb := b.toNat_lt
    simp only [nibbleParts] at hj
    split at hj
    · simp at hj
      omega
    · simp at hj
      omega
  have hentry : ∀ b, ∀ j ∈ entryParts b, 4 ≤ j ∧ j < 1024 := by
    intro b j hj
    have hb := b.toNat_lt
    unfold entryParts at hj
    split at hj
    · cases hj
    · rename_i hne
      have hpos : b.toNat ≠ 0 := fun h => hne (UInt8.toNat_inj.mp h)
      simp [vuya] at hj
      omega
  match type, hzero, hknown with
  | 1, _, _ =>
    refine ⟨fun b j hj => ⟨Nat.zero_le j, hnibble ayuv ?_ ?_ ?_ ?_ true b j hj⟩, ⟨1, by decide⟩,
      ⟨255, by decide⟩⟩ <;> decide
  | 2, _, _ =>
    refine ⟨fun b j hj => ⟨Nat.zero_le j, hnibble ayuv ?_ ?_ ?_ ?_ false b j hj⟩, ⟨1, by decide⟩,
      ⟨255, by decide⟩⟩ <;> decide
  | 3, _, _ => exact ⟨fun b j hj => hentry b j hj, ⟨1, by decide⟩, ⟨255, by decide⟩⟩
  | 4, _, _ =>
    refine ⟨fun b j hj => ⟨Nat.zero_le j, ?_⟩, ⟨1, by decide⟩, ⟨255, by decide⟩⟩
    unfold typeParts at hj
    simp only at hj
    split at hj
    · cases hj
    · exact hnibble vuya (by decide) (by decide) (by decide) (by decide) false b j hj
  | 5, _, _ => exact ⟨fun b j hj => hentry b j hj, ⟨1, by decide⟩, ⟨255, by decide⟩⟩

/-- The palette that a frame has. -/
inductive Source where
  /-- A known type. -/
  | frame (type : Nat) (start : Int)
  | default
  /-- Type 0 has no function. -/
  | null
  deriving DecidableEq

/-- The palette that `convert_palette` chooses. -/
def choose (type : Nat) (start : Int) : Source :=
  if start = 0 ∨ 6 ≤ type then .default
  else if type = 0 then .null
  else .frame type start

def sourceOf (m : Bytes) : Source := choose (uint32 (intOf m 12)) (intOf m 16)

/-- The colour of a byte of a paletted bitmap. -/
def palettePixel (m : Bytes) (source : Source) (b : UInt8) : Pixel :=
  match source with
  | .frame type start => typePixel type (fun j => m (start + j)) b
  | _ => typePixel 1 (fun j => paletteType1Default.getD j 0) b

/-- What `convert_palette` makes. -/
def madePalette (m : Bytes) : Source → Option (List Pixel)
  | .null => none
  | source => some (allBytes.map (palettePixel m source))

/-- The palette is in the frame, or none is read; that of type 0 cannot be. -/
def PaletteFits (len : Nat) : Source → Prop
  | .frame type start => 0 ≤ start + paletteSkip type ∧ start + getPaletteSize type ≤ len
  | .default => True
  | .null => False

/-- The fields of the header that say where the palette is. -/
def paletteFields : List Int := [12, 12 + 1, 12 + 2, 12 + 3, 16, 16 + 1, 16 + 2, 16 + 3]

theorem palette_frame_inside {type : Nat} (hzero : type ≠ 0) (hknown : type < 6) (start : Int)
    (len : Nat) :
    Traced.Inside 0 len (allBytes.flatMap fun b => (typeParts type b).flatMap fun j => [start + (j : Nat)]) ↔
      PaletteFits len (.frame type start) := by
  obtain ⟨hrange, ⟨b, hfirst⟩, b', hlast⟩ := typeParts_range hzero hknown
  have hmem : ∀ b, ∀ j ∈ typeParts type b, start + (j : Nat) ∈
      allBytes.flatMap fun b => (typeParts type b).flatMap fun j => [start + (j : Nat)] := by
    intro b j hj
    exact List.mem_flatMap.mpr ⟨b, mem_allBytes b, List.mem_flatMap.mpr ⟨j, hj, by simp⟩⟩
  constructor
  · intro h
    have hlow := h _ (hmem b _ hfirst)
    have hhigh := h _ (hmem b' _ hlast)
    have hpos : 0 < getPaletteSize type := Nat.zero_lt_of_lt (hrange b _ hfirst).2
    exact ⟨hlow.1, by omega⟩
  · rintro ⟨hlow, hhigh⟩ o ho
    obtain ⟨b, -, ho⟩ := List.mem_flatMap.mp ho
    obtain ⟨j, hj, ho⟩ := List.mem_flatMap.mp ho
    obtain rfl := List.mem_singleton.mp ho
    have hj' := hrange b j hj
    omega

theorem convertAll_apply (hpal : ∀ j, pal j m = (.ok (f j), r j)) {type : Nat}
    {convert : PaletteConvert} {fn : Palette → UInt8 → Read Pixel}
    (hconvert : getPaletteConvert type = some convert) (hfn : convert.toRgba = some fn) :
    convertAll (convert, pal) m = (.ok (some (allBytes.map (typePixel type f))),
      allBytes.flatMap fun b => (typeParts type b).flatMap r) := by
  have heach := Traced.each_eq (typePixel type f) (fun b => (typeParts type b).flatMap r) allBytes
    fun b _ => toRgba_apply hpal hconvert hfn b
  rw [convertAll, hfn]
  change (Traced.each allBytes (fn pal) >>= fun pixels => return some pixels) m = _
  rw [Traced.bind_ok heach]
  simp

theorem getPaletteConvert_known {type : Nat} (hzero : type ≠ 0) (hknown : type < 6) :
    ∃ convert fn, getPaletteConvert type = some convert ∧ convert.toRgba = some fn := by
  match type, hzero, hknown with
  | 1, _, _ => exact ⟨_, _, rfl, rfl⟩
  | 2, _, _ => exact ⟨_, _, rfl, rfl⟩
  | 3, _, _ => exact ⟨_, _, rfl, rfl⟩
  | 4, _, _ => exact ⟨_, _, rfl, rfl⟩
  | 5, _, _ => exact ⟨_, _, rfl, rfl⟩

theorem getPaletteConvert_unknown {type : Nat} (h : 6 ≤ type) : getPaletteConvert type = none := by
  unfold getPaletteConvert
  split <;> first | omega | rfl

/-- Which palette the loop gets, and what it makes of it. -/
theorem choosePalette_apply (type : Nat) (start : Int) (m : Bytes) :
    ∃ reads, convertAll (choosePalette type start) m =
        (.ok (madePalette m (choose type start)), reads) ∧
      (choose type start ≠ .null → ∀ len : Nat,
        Traced.Inside 0 len reads ↔ PaletteFits len (choose type start)) := by
  by_cases hdefault : start = 0 ∨ 6 ≤ type
  · have hsource : choose type start = .default := if_pos hdefault
    have hchoice : choosePalette type start =
        (⟨some paletteType1ToRgba, 16⟩, fun j => return paletteType1Default.getD j 0) := by
      unfold choosePalette
      by_cases hknown : 6 ≤ type
      · rw [getPaletteConvert_unknown hknown]
      · have hstart : start = 0 := hdefault.resolve_right hknown
        split
        · rw [if_pos hstart]
        · rfl
    have hpal : ∀ j : Nat, (return paletteType1Default.getD j 0 : Read UInt8) m =
        (.ok (paletteType1Default.getD j 0), []) := fun j => rfl
    have hconvert : getPaletteConvert 1 = some ⟨some paletteType1ToRgba, 16⟩ := rfl
    have hall := convertAll_apply hpal hconvert rfl
    refine ⟨allBytes.flatMap fun b => (typeParts 1 b).flatMap fun _ => [], ?_, fun _ len => ?_⟩
    · rw [hchoice, hall, hsource]
      rfl
    · rw [hsource]
      simp [Traced.Inside, PaletteFits]
  · by_cases hzero : type = 0
    · have hsource : choose type start = .null := by rw [choose, if_neg hdefault, if_pos hzero]
      refine ⟨[], ?_, fun h => absurd hsource h⟩
      rw [hsource, hzero, choosePalette]
      simp only [getPaletteConvert, if_neg fun h => hdefault (.inl h)]
      rfl
    · have hsource : choose type start = .frame type start := by
        rw [choose, if_neg hdefault, if_neg hzero]
      have hknown : type < 6 := by omega
      obtain ⟨convert, fn, hconvert, hfn⟩ := getPaletteConvert_known hzero hknown
      have hchoice : choosePalette type start = (convert, fun j => Traced.byteAt (start + (j : Nat))) := by
        rw [choosePalette, hconvert]
        exact if_neg fun h => hdefault (.inl h)
      have hpal : ∀ j : Nat, (Traced.byteAt (start + j) : Read UInt8) m =
          (.ok (m (start + j)), [start + (j : Int)]) := fun j => rfl
      have hall := convertAll_apply hpal hconvert hfn
      refine ⟨allBytes.flatMap fun b => (typeParts type b).flatMap fun j : Nat => [start + (j : Int)],
        ?_, fun _ len => ?_⟩
      · rw [hchoice, hall, hsource]
        rfl
      · rw [hsource]
        exact palette_frame_inside hzero hknown start len

/-- `convert_palette` -/
theorem convertPalette_apply (m : Bytes) :
    ∃ reads, convertPalette m =
        (.ok (madePalette m (sourceOf m)), paletteFields ++ reads) ∧
      (sourceOf m ≠ .null → ∀ len : Nat, Traced.Inside 0 len reads ↔ PaletteFits len (sourceOf m)) := by
  obtain ⟨reads, hall, hinside⟩ := choosePalette_apply (uint32 (intOf m 12)) (intOf m 16) m
  refine ⟨reads, ?_, hinside⟩
  have hstart := Traced.bind_apply
    (f := fun start => convertAll (choosePalette (uint32 (intOf m 12)) start)) (intAt_apply 16 m) hall
  have htype := Traced.bind_apply (f := fun type => paletteDataStart >>= fun start =>
    convertAll (choosePalette (uint32 type) start)) (intAt_apply 12 m) hstart
  exact htype

theorem getD_allBytes (g : UInt8 → Pixel) (b : UInt8) : (allBytes.map g).getD b.toNat [] = g b := by
  have hb : b.toNat < 256 := b.toNat_lt
  simp [allBytes, List.getD_eq_getElem?_getD, hb]

end LivePalette
