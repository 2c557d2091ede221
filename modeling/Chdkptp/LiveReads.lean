import Chdkptp.LiveCalls

/-!
# Reads inside a frame

The checks of `liveimg.c` do not keep its conversions in the frame. What does, for every
header and every description, is stated here for each format, the palette and the
opacity.
-/

namespace LiveReads

open ByteMemory TracedRead LiveFrame LivePixel LiveImage LiveLoops LivePalette LiveFormats LiveCalls

variable {m : Bytes} {dataLen start : Int} {desc desc' : FbDesc} {reads : List Int}

/-! ## The checks -/

theorem getFbDesc_ok (h : getFbDesc dataLen start m = (.ok desc, reads)) :
    desc = fbDescOf m start ∧ reads = fbDescReads start ∧ 0 < start ∧
      (start + sizeofFbDesc) % 2 ^ 64 ≤ dataLen % 2 ^ 64 := by
  unfold getFbDesc at h
  split at h
  · cases h
  · split at h
    · cases h
    · rw [fbDescAt_apply] at h
      obtain ⟨hdesc, hreads⟩ := Prod.mk.inj h
      exact ⟨(Except.ok.inj hdesc).symm, hreads.symm, by omega, by omega⟩

theorem checkFbDesc_ok {bpp : Int} (h : checkFbDesc desc bpp dataLen m = (.ok desc', reads)) :
    desc' = desc ∧ reads = [] ∧ desc.visibleWidth ≤ desc.bufferWidth := by
  unfold checkFbDesc at h
  split at h
  · cases h
  · split at h
    · cases h
    · cases h
      exact ⟨rfl, rfl, by omega⟩

theorem intAt_inside {o : Int} (hlow : 0 ≤ o) {len : Nat} (hhigh : o + 4 ≤ len) :
    Traced.Inside 0 len [o, o + 1, o + 2, o + 3] := by
  simp only [Traced.inside_cons, Traced.inside_nil, and_true]
  omega

theorem lvProtoCompatible_apply (reqMajor reqMinor : Int) (m : Bytes) :
    ∃ compatible fields, lvProtoCompatible reqMajor reqMinor m = (.ok compatible, fields) ∧
      Traced.Inside 0 (8 : Nat) fields := by
  by_cases hmajor : reqMajor ≠ intOf m 0
  · refine ⟨false, [0, 0 + 1, 0 + 2, 0 + 3] ++ [], ?_, ?_⟩
    · rw [lvProtoCompatible]
      refine Traced.bind_apply (intAt_apply 0 m) ?_
      rw [if_pos hmajor]
      rfl
    · exact intAt_inside (by decide) (by decide)
  · refine ⟨!(reqMinor < intOf m 4), [0, 0 + 1, 0 + 2, 0 + 3] ++ ([4, 4 + 1, 4 + 2, 4 + 3] ++ []),
      ?_, ?_⟩
    · rw [lvProtoCompatible]
      refine Traced.bind_apply (intAt_apply 0 m) ?_
      rw [if_neg hmajor]
      exact Traced.bind_apply (intAt_apply 4 m) rfl
    · rw [Traced.inside_append]
      exact ⟨intAt_inside (by decide) (by decide), intAt_inside (by decide) (by decide)⟩

theorem inside_mono {lo hi hi' : Int} (h : Traced.Inside lo hi reads) (hle : hi ≤ hi') :
    Traced.Inside lo hi' reads := fun o ho => by
  have := h o ho
  omega

theorem fbDescReads_inside (hstart : 0 < start) (len : Nat) :
    Traced.Inside 0 len (fbDescReads start) ↔ start + 20 ≤ len := by
  have hmem : ∀ o, o ∈ fbDescReads start ↔ ∃ k < 20, start + (k : Nat) = o := by
    intro o
    simp [fbDescReads]
  constructor
  · intro h
    have hlast := h _ ((hmem _).mpr ⟨19, by decide, rfl⟩)
    omega
  · rintro h o ho
    obtain ⟨k, hk, rfl⟩ := (hmem o).mp ho
    omega

/-- A check after `get_fb_desc` that changes nothing and reads the header only. -/
def Checks (check : Read FbDesc) (desc : FbDesc) (m : Bytes) : Prop :=
  ∀ desc' reads, check m = (.ok desc', reads) →
    desc' = desc ∧ desc.visibleWidth ≤ desc.bufferWidth ∧ Traced.Inside 0 (8 : Nat) reads

theorem checkFbDesc_checks (desc : FbDesc) (bpp dataLen : Int) (m : Bytes) :
    Checks (checkFbDesc desc bpp dataLen) desc m := by
  intro desc' reads h
  obtain ⟨hdesc, rfl, hwidth⟩ := checkFbDesc_ok h
  exact ⟨hdesc, hwidth, Traced.inside_nil _ _⟩

theorem throw_checks (message : String) (desc : FbDesc) (m : Bytes) :
    Checks (Traced.throw message) desc m := by
  intro desc' reads h
  cases h

/-- The check for formats that protocol 2.2 has brought. -/
theorem compatible_checks {check : Read FbDesc} (hcheck : Checks check desc m) (message : String) :
    Checks (do
      let compatible ← lvProtoCompatible 2 2
      if compatible then check else Traced.throw message) desc m := by
  intro desc' reads h
  obtain ⟨compatible, fields, happly, hinside⟩ := lvProtoCompatible_apply 2 2 m
  obtain ⟨compatible', first, rest, hfirst, hrest, rfl⟩ := Traced.of_bind_ok h
  rw [happly] at hfirst
  cases hfirst
  cases compatible with
  | false => cases hrest
  | true =>
    obtain ⟨hdesc, hwidth, hreads⟩ := hcheck desc' rest hrest
    exact ⟨hdesc, hwidth, Traced.inside_append.mpr ⟨hinside, hreads⟩⟩

/-- A description has been accepted: it is the one at `start`, and of the bytes that
were read only its fields may lie outside of the frame. -/
structure Accepted (m : Bytes) (dataLen start : Int) (desc : FbDesc) (reads : List Int) : Prop where
  desc_eq : desc = fbDescOf m start
  start_pos : 0 < start
  start_le : (start + sizeofFbDesc) % 2 ^ 64 ≤ dataLen % 2 ^ 64
  width_le : desc.visibleWidth ≤ desc.bufferWidth
  inside : ∀ len : Nat, 32 ≤ len → (Traced.Inside 0 len reads ↔ start + 20 ≤ len)

/-- The start is read from the header, then the description from there. -/
theorem accepted_of {check : FbDesc → Read FbDesc} (hcheck : ∀ desc, Checks (check desc) desc m)
    {o : Int} (hlow : 0 ≤ o) (hhigh : o ≤ 28)
    (h : (do let start ← intAt o; let desc ← getFbDesc dataLen start; check desc) m =
      (.ok desc, reads)) : Accepted m dataLen (intOf m o) desc reads := by
  obtain ⟨start, first, rest, hfirst, hrest, rfl⟩ := Traced.of_bind_ok h
  rw [intAt_apply] at hfirst
  obtain ⟨hstart, rfl⟩ := Prod.mk.inj hfirst
  obtain rfl : intOf m o = start := Except.ok.inj hstart
  obtain ⟨desc', fields, last, hdesc', hdesc, rfl⟩ := Traced.of_bind_ok hrest
  obtain ⟨rfl, rfl, hpos, hle⟩ := getFbDesc_ok hdesc'
  obtain ⟨rfl, hwidth, hinside⟩ := hcheck _ _ _ hdesc
  refine ⟨rfl, hpos, hle, hwidth, fun len hlen => ?_⟩
  rw [Traced.inside_append, Traced.inside_append, fbDescReads_inside hpos]
  refine ⟨fun h => h.2.1, fun h => ⟨intAt_inside hlow (by omega), h, ?_⟩⟩
  exact inside_mono hinside (by omega)

theorem getVpDesc_accepted (h : getVpDesc dataLen m = (.ok desc, reads)) :
    Accepted m dataLen (intOf m 20) desc reads := by
  refine accepted_of (o := 20) (fun desc => ?_) (by decide) (by decide) h
  split
  · exact checkFbDesc_checks _ _ _ _
  · split
    · exact compatible_checks (checkFbDesc_checks _ _ _ _) _
    · exact throw_checks _ _ _

theorem getBmDesc_accepted (h : getBmDesc dataLen m = (.ok desc, reads)) :
    Accepted m dataLen (intOf m 24) desc reads := by
  refine accepted_of (o := 24) (fun desc => ?_) (by decide) (by decide) h
  split
  · exact checkFbDesc_checks _ _ _ _
  · split
    · exact compatible_checks (checkFbDesc_checks _ _ _ _) _
    · exact throw_checks _ _ _

theorem getBmoDesc_accepted (h : getBmoDesc dataLen m = (.ok desc, reads)) :
    Accepted m dataLen (intOf m 28) desc reads := by
  obtain ⟨compatible, fields, happly, hinside⟩ := lvProtoCompatible_apply 2 2 m
  obtain ⟨compatible', first, rest, hfirst, hrest, rfl⟩ := Traced.of_bind_ok h
  rw [happly] at hfirst
  cases hfirst
  cases compatible with
  | false => cases hrest
  | true =>
    have haccepted : Accepted m dataLen (intOf m 28) desc rest := by
      refine accepted_of (o := 28) (fun desc => ?_) (by decide) (by decide) hrest
      split
      · exact checkFbDesc_checks _ _ _ _
      · exact throw_checks _ _ _
    refine { haccepted with inside := fun len hlen => ?_ }
    rw [Traced.inside_append, haccepted.inside len hlen]
    exact and_iff_right (inside_mono hinside (by omega))

/-- The opacity that has been checked before a bitmap is converted. -/
theorem checkBitmap_some {len : Nat} {bm bmo : FbDesc}
    (h : checkBitmap len bm m = (.ok (some bmo), reads)) :
    Accepted m (int32 len) (intOf m 28) bmo reads ∧
      bm.visibleWidth = bmo.visibleWidth ∧ bm.visibleHeight = bmo.visibleHeight := by
  unfold checkBitmap at h
  split at h
  · obtain ⟨bmo', first, rest, hfirst, hrest, rfl⟩ := Traced.of_bind_ok h
    split at hrest
    · cases hrest
    · rename_i hdims
      rw [not_or, not_not, not_not] at hdims
      cases hrest
      rw [List.append_nil]
      exact ⟨getBmoDesc_accepted hfirst, hdims⟩
  · obtain ⟨type, first, rest, -, hrest, -⟩ := Traced.of_bind_ok h
    obtain ⟨start, second, last, -, hlast, -⟩ := Traced.of_bind_ok hrest
    split at hlast <;> cases hlast

/-- A paletted bitmap has no opacity. -/
theorem checkBitmap_none {len : Nat} {bm : FbDesc} (h : checkBitmap len bm m = (.ok none, reads)) :
    reads = paletteFields := by
  unfold checkBitmap at h
  split at h
  · obtain ⟨bmo', first, rest, -, hrest, -⟩ := Traced.of_bind_ok h
    split at hrest <;> cases hrest
  · obtain ⟨type, first, rest, hfirst, hrest, rfl⟩ := Traced.of_bind_ok h
    obtain ⟨start, second, last, hsecond, hlast, rfl⟩ := Traced.of_bind_ok hrest
    obtain ⟨-, rfl⟩ := Prod.mk.inj hfirst
    obtain ⟨-, rfl⟩ := Prod.mk.inj hsecond
    split at hlast <;> cases hlast
    rfl

/-! ## Accepted descriptions -/

theorem intOf_range (m : Bytes) (o : Int) : -2 ^ 31 ≤ intOf m o ∧ intOf m o < 2 ^ 31 := by
  unfold intOf
  exact int32_range _

/-- A frame of which a description has been accepted has a header. -/
theorem Accepted.len_ge {len : Nat} {o : Int}
    (h : Accepted m (int32 len) (intOf m o) desc reads) : 32 ≤ len := by
  have hpos := h.start_pos
  have hle := h.start_le
  rw [sizeofFbDesc] at hle
  have hstart := intOf_range m o
  have hmod := int32_emod len
  have hrange := int32_range len
  omega

theorem uint32_ne_zero {n : Int} (hrange : -2 ^ 31 ≤ n ∧ n < 2 ^ 31) (h : n ≠ 0) :
    uint32 n ≠ 0 := by
  rw [uint32]
  omega

theorem Accepted.width_range (h : Accepted m dataLen start desc reads) :
    -2 ^ 31 ≤ desc.visibleWidth ∧ desc.visibleWidth < 2 ^ 31 := by
  simp only [h.desc_eq, fbDescOf]
  exact intOf_range m (start + 12)

theorem Accepted.height_range (h : Accepted m dataLen start desc reads) :
    -2 ^ 31 ≤ desc.visibleHeight ∧ desc.visibleHeight < 2 ^ 31 := by
  simp only [h.desc_eq, fbDescOf]
  exact intOf_range m (start + 16)

/-- A framebuffer with pixels has rows and columns. -/
theorem Accepted.dims (h : Accepted m dataLen start desc reads) {skip : Bool}
    (hsize : dispsizeOf desc skip ≠ 0) :
    uint32 desc.visibleWidth ≠ 0 ∧ uint32 desc.visibleHeight ≠ 0 := by
  have hzero : uint32 0 = 0 := rfl
  constructor
  · refine uint32_ne_zero h.width_range fun hwidth => hsize ?_
    rw [dispsizeOf, vwidthOf, hwidth, Int.zero_tdiv, hzero, Nat.zero_mul, Nat.zero_mod]
  · intro hheight
    rw [dispsizeOf, hheight, Nat.mul_zero, Nat.zero_mod] at hsize
    exact hsize rfl

/-! ## Calls -/

/-- The call returns nil, or raises an error, or reads bytes of the frame only. -/
def Safe (len : Nat) (call : Except String Outcome × List Int) : Prop :=
  Stops call.1 ∨ (call.1 ≠ .ok .crash ∧ Traced.Inside 0 len call.2)

theorem fill_not_stops (im : Pimg) (pixels : List Pixel) (again : Option (List UInt8))
    (ended : Bool) : ¬Stops (.ok (fill im pixels again ended)) := by
  rintro (⟨message, h⟩ | h)
  · cases h
  · have hfill := Except.ok.inj h
    unfold fill at hfill
    split at hfill
    · cases hfill
    · split at hfill
      · split at hfill <;> cases hfill
      · cases hfill

theorem fill_ne_crash {im : Pimg} {pixels : List Pixel}
    (h : im.alpha = true ∨ ∀ px ∈ pixels, px.length = 3) (again : Option (List UInt8))
    (ended : Bool) : fill im pixels again ended ≠ .crash := by
  unfold fill
  rw [if_neg (no_null_plane h)]
  split
  · split <;> intro heq <;> cases heq
  · intro heq
    cases heq

theorem yuvSamples_length (skip : Bool) (m : Bytes) (p : Int) :
    ∀ px ∈ yuvSamples skip m p, px.length = 3 := by
  cases skip <;> simp [yuvSamples, yuvToRgb]

theorem uyvySamples_length (bias : UInt8) (skip : Bool) (m : Bytes) (p : Int) :
    ∀ px ∈ uyvySamples bias skip m p, px.length = 3 := by
  cases skip <;> simp [uyvySamples, yuvToRgb]

theorem viewport_length (fbType : Int) (skip : Bool) (m : Bytes) (vp : FbDesc) (limit : Nat) :
    ∀ px ∈ (viewport fbType skip).made m vp limit, px.length = 3 := by
  intro px hpx
  obtain ⟨p, -, hpx⟩ := List.mem_flatMap.mp hpx
  unfold viewport at hpx
  split at hpx
  · exact yuvSamples_length skip m p px hpx
  · split at hpx
    · exact uyvySamples_length 0x80 skip m p px hpx
    · exact uyvySamples_length 0 skip m p px hpx

/-- A viewport that is converted: its description and its rows lie in the frame. -/
theorem viewport_converts_safe_iff {malloc : Nat → Option Memory} {im : Option Pimg} {len : Nat}
    (hlen : len < 2 ^ 32) {skip : Bool} {vp : FbDesc} {target : Pimg}
    (h : VpConverts malloc im len skip m vp target) :
    (∀ limit, Safe len (getViewportPimg malloc limit im len skip m)) ↔
      intOf m 20 + 20 ≤ len ∧ (viewport vp.fbType skip).Fits vp len := by
  obtain ⟨reads, hdesc⟩ := Traced.eq_of_fst h.desc
  have haccepted := getVpDesc_accepted hdesc
  obtain ⟨hwidth, hheight⟩ := haccepted.dims h.size
  have hcall : ∀ limit, Safe len (getViewportPimg malloc limit im len skip m) ↔
      intOf m 20 + 20 ≤ len ∧ (viewport vp.fbType skip).Inside vp limit len := by
    intro limit
    obtain ⟨reads', hconvert, hinside⟩ := convertViewport_apply limit vp skip target m
    have hlength := viewport_length vp.fbType skip m vp limit
    have hcrash : ∀ ended, (.ok (fill target ((viewport vp.fbType skip).made m vp limit) none ended) :
        Except String Outcome) ≠ .ok .crash := fun ended heq =>
      fill_ne_crash (.inr hlength) none ended (Except.ok.inj heq)
    rw [getViewportPimg_converts h hdesc hconvert, Safe, or_iff_right (fill_not_stops _ _ _ _),
      and_iff_right (hcrash _), Traced.inside_append, haccepted.inside len haccepted.len_ge, hinside]
  have hfits := (viewport vp.fbType skip).inside_iff hlen h.start hwidth hheight 0
  simp only [hcall, forall_and, forall_const]
  rw [← hfits]
  exact and_congr_right fun _ => ⟨fun hinside limit _ => hinside limit, fun hinside limit =>
    hinside limit (Nat.zero_le _)⟩

/-! ### Bitmaps -/

/-- The bytes of a bitmap lie in the frame, with its opacity or its palette. -/
def BmFits (len : Nat) (skip : Bool) (m : Bytes) (bm : FbDesc) : Option FbDesc → Prop
  | some bmo => (uyvyAlpha skip).Fits bm len ∧ intOf m 28 + 20 ≤ len ∧
      (bmo.dataStart ≠ 0 → (opacity skip).Fits bmo len)
  | none => PaletteFits len (sourceOf m) ∧ PalRowsFit bm skip len

/-- A conversion does not crash and stays in the frame, with the check before it. -/
def Harmless (len : Nat) (checked : List Int) (conversion : Except String Outcome × List Int) :
    Prop :=
  conversion.1 ≠ .ok .crash ∧ Traced.Inside 0 len (checked ++ conversion.2)

theorem yuvBitmap_harmless_iff {len : Nat} (hlen : len < 2 ^ 32) {bm bmo : FbDesc} {skip : Bool}
    {target : Pimg} {checked : List Int} (haccepted : Accepted m (int32 len) start bm reads)
    (hstart : bm.dataStart ≠ 0) (hsize : dispsizeOf bm skip ≠ 0) (halpha : target.alpha = true)
    (hcheck : checkBitmap len bm m = (.ok (some bmo), checked)) :
    (∀ limit, Harmless len checked (convertYuvBitmap limit bm bmo skip target m)) ↔
      BmFits len skip m bm (some bmo) := by
  obtain ⟨hbmo, hwidths, hheights⟩ := checkBitmap_some hcheck
  obtain ⟨hwidth, hheight⟩ := haccepted.dims hsize
  have hfit : ∀ least, (∀ limit ≥ least, (uyvyAlpha skip).Inside bm limit len) ↔
      (uyvyAlpha skip).Fits bm len := (uyvyAlpha skip).inside_iff hlen hstart hwidth hheight
  have hfit' : bmo.dataStart ≠ 0 → ∀ least, (∀ limit ≥ least, (opacity skip).Inside bmo limit len) ↔
      (opacity skip).Fits bmo len := fun hopacity =>
    (opacity skip).inside_iff hlen hopacity (hwidths ▸ hwidth) (hheights ▸ hheight)
  constructor
  · intro hharmless
    have hinside : ∀ limit, intOf m 28 + 20 ≤ len ∧ (uyvyAlpha skip).Inside bm limit len ∧
        (bmo.dataStart ≠ 0 ∧ ((uyvyAlpha skip).pointers bm limit).2 →
          (opacity skip).Inside bmo limit len) := by
      intro limit
      obtain ⟨reads', hconvert, hinside⟩ := convertYuvBitmap_apply limit bm bmo skip target m
      have hlimit := hharmless limit
      rw [hconvert] at hlimit
      have hreads := hlimit.2
      rwa [Traced.inside_append, hbmo.inside len hbmo.len_ge, hinside] at hreads
    have hrows := (hfit 0).mp fun limit _ => (hinside limit).2.1
    obtain ⟨least, hended⟩ := (uyvyAlpha skip).ended_of_fits hlen hstart hheight hrows
    exact ⟨hrows, (hinside 0).1, fun hopacity => (hfit' hopacity least).mp fun limit hlimit =>
      (hinside limit).2.2 ⟨hopacity, hended limit hlimit⟩⟩
  · rintro ⟨hrows, hfields, hrows'⟩ limit
    obtain ⟨reads', hconvert, hinside⟩ := convertYuvBitmap_apply limit bm bmo skip target m
    rw [hconvert]
    refine ⟨fun hcrash => ?_, ?_⟩
    · have hfill := Except.ok.inj hcrash
      split at hfill <;> exact fill_ne_crash (.inl halpha) _ _ hfill
    · rw [Traced.inside_append, hbmo.inside len hbmo.len_ge, hinside]
      exact ⟨hfields, (hfit 0).mpr hrows limit (Nat.zero_le _), fun hopacity =>
        (hfit' hopacity.1 0).mpr (hrows' hopacity.1) limit (Nat.zero_le _)⟩

theorem palBitmap_harmless_iff {len : Nat} {bm : FbDesc} {skip : Bool} {target : Pimg}
    {checked : List Int} {o : Int} (haccepted : Accepted m (int32 len) (intOf m o) bm reads)
    (halpha : target.alpha = true) (hcheck : checkBitmap len bm m = (.ok none, checked)) :
    (∀ limit, Harmless len checked (convertPalBitmap limit bm skip target m)) ↔
      BmFits len skip m bm none := by
  obtain rfl := checkBitmap_none hcheck
  have hlen := haccepted.len_ge
  have hfields : Traced.Inside 0 len paletteFields := by
    simp only [paletteFields, Traced.inside_cons, Traced.inside_nil, and_true]
    omega
  have hrows : (∀ limit, ∀ p ∈ (bitmapPointers bm skip limit).1, 0 ≤ p ∧ p < len) ↔
      PalRowsFit bm skip len :=
    bitmapPointers_inside_iff skip haccepted.height_range.2 haccepted.width_range.2
      haccepted.width_le
  by_cases hnull : sourceOf m = .null
  · refine iff_of_false (fun hharmless => ?_) fun hfits => ?_
    · obtain ⟨reads', hconvert⟩ := convertPalBitmap_null hnull 0 bm skip target
      have hlimit := hharmless 0
      rw [hconvert] at hlimit
      exact hlimit.1 rfl
    · have hpalette := hfits.1
      rw [hnull] at hpalette
      exact hpalette
  · constructor
    · intro hharmless
      have hinside : ∀ limit, PaletteFits len (sourceOf m) ∧
          ∀ p ∈ (bitmapPointers bm skip limit).1, 0 ≤ p ∧ p < len := by
        intro limit
        obtain ⟨reads', hconvert, hinside⟩ := convertPalBitmap_apply hnull limit bm skip target
        have hlimit := hharmless limit
        rw [hconvert] at hlimit
        have hreads := hlimit.2
        rw [Traced.inside_append, hinside len (by omega)] at hreads
        exact hreads.2
      exact ⟨(hinside 0).1, hrows.mp fun limit => (hinside limit).2⟩
    · rintro ⟨hpalette, hpixels⟩ limit
      obtain ⟨reads', hconvert, hinside⟩ := convertPalBitmap_apply hnull limit bm skip target
      rw [hconvert]
      refine ⟨fun hcrash => fill_ne_crash (.inl halpha) _ _ (Except.ok.inj hcrash), ?_⟩
      rw [Traced.inside_append, hinside len (by omega)]
      exact ⟨hfields, hpalette, hrows.mpr hpixels limit⟩

theorem convertBitmap_harmless_iff {malloc : Nat → Option Memory} {im : Option Pimg} {len : Nat}
    (hlen : len < 2 ^ 32) {bm : FbDesc} {bmo : Option FbDesc} {skip : Bool} {target : Pimg}
    {checked : List Int} {o : Int} (haccepted : Accepted m (int32 len) (intOf m o) bm reads)
    (h : BmConverts malloc im len skip m bm bmo target) (halpha : target.alpha = true)
    (hcheck : checkBitmap len bm m = (.ok bmo, checked)) :
    (∀ limit, Harmless len checked (convertBitmap limit bm bmo skip target m)) ↔
      BmFits len skip m bm bmo := by
  cases bmo with
  | some bmo => exact yuvBitmap_harmless_iff hlen haccepted h.start h.size halpha hcheck
  | none => exact palBitmap_harmless_iff haccepted halpha hcheck

theorem convertBitmap_not_stops {limit : Nat} {bm : FbDesc} {bmo : Option FbDesc} {skip : Bool}
    {target : Pimg} {r : Except String Outcome}
    (h : convertBitmap limit bm bmo skip target m = (r, reads)) : ¬Stops r := by
  rcases convertBitmap_fill h with ⟨-, -, rfl⟩ | rfl
  · rintro (⟨message, h⟩ | h) <;> cases h
  · exact fill_not_stops _ _ _ _

/-- A bitmap that is converted: its description and its pixels lie in the frame, and its
opacity or its palette. -/
theorem bitmap_converts_safe_iff {malloc : Nat → Option Memory} {im : Option Pimg} {len : Nat}
    (hlen : len < 2 ^ 32) (him : ∀ i, im = some i → i.alpha = true) {skip : Bool} {bm : FbDesc}
    {bmo : Option FbDesc} {target : Pimg} (h : BmConverts malloc im len skip m bm bmo target) :
    (∀ limit, Safe len (getBitmapPimg malloc limit im len skip m)) ↔
      intOf m 24 + 20 ≤ len ∧ BmFits len skip m bm bmo := by
  obtain ⟨reads, hdesc⟩ := Traced.eq_of_fst h.desc
  obtain ⟨checked, hcheck⟩ := Traced.eq_of_fst h.check
  have haccepted := getBmDesc_accepted hdesc
  have hcall : ∀ limit, Safe len (getBitmapPimg malloc limit im len skip m) ↔
      intOf m 24 + 20 ≤ len ∧ Harmless len checked (convertBitmap limit bm bmo skip target m) := by
    intro limit
    rcases hconvert : convertBitmap limit bm bmo skip target m with ⟨r, reads'⟩
    rw [getBitmapPimg_converts h hdesc hcheck hconvert, Safe, Harmless,
      or_iff_right (convertBitmap_not_stops hconvert), Traced.inside_append,
      haccepted.inside len haccepted.len_ge]
    exact and_left_comm
  simp only [hcall, forall_and, forall_const]
  rw [convertBitmap_harmless_iff hlen haccepted h (bmTarget_alpha him h.target) hcheck]

/-- Both functions stay in the frame exactly when what they convert lies in it. -/
theorem reads_inside_iff (malloc : Nat → Option Memory) {len : Nat} (hlen : len < 2 ^ 32)
    (skip : Bool) (m : Bytes) :
    (∀ im, (∀ limit, Safe len (getViewportPimg malloc limit im len skip m)) ↔
      ∀ vp target, VpConverts malloc im len skip m vp target →
        intOf m 20 + 20 ≤ len ∧ (viewport vp.fbType skip).Fits vp len) ∧
    ∀ im, (∀ i, im = some i → i.alpha = true) →
      ((∀ limit, Safe len (getBitmapPimg malloc limit im len skip m)) ↔
        ∀ bm bmo target, BmConverts malloc im len skip m bm bmo target →
          intOf m 24 + 20 ≤ len ∧ BmFits len skip m bm bmo) := by
  refine ⟨fun im => ⟨fun hsafe vp target h => ?_, fun hfits => ?_⟩, fun im him =>
    ⟨fun hsafe bm bmo target h => ?_, fun hfits => ?_⟩⟩
  · exact (viewport_converts_safe_iff hlen h).mp hsafe
  · by_cases hsome : ∃ vp target, VpConverts malloc im len skip m vp target
    · obtain ⟨vp, target, h⟩ := hsome
      exact (viewport_converts_safe_iff hlen h).mpr (hfits vp target h)
    · intro limit
      obtain ⟨r, reads, hcall, hstops⟩ :=
        getViewportPimg_stops (fun vp target h => hsome ⟨vp, target, h⟩) limit
      rw [hcall]
      exact .inl hstops
  · exact (bitmap_converts_safe_iff hlen him h).mp hsafe
  · by_cases hsome : ∃ bm bmo target, BmConverts malloc im len skip m bm bmo target
    · obtain ⟨bm, bmo, target, h⟩ := hsome
      exact (bitmap_converts_safe_iff hlen him h).mpr (hfits bm bmo target h)
    · intro limit
      obtain ⟨r, reads, hcall, hstops⟩ :=
        getBitmapPimg_stops (fun bm bmo target h => hsome ⟨bm, bmo, target, h⟩) limit
      rw [hcall]
      exact .inl hstops

/-! ## The palette of a paletted bitmap -/

/-- `liveimg_get_bitmap_pimg` gets to the conversion of a paletted bitmap, if there is memory. -/
structure AcceptsPal8 (len : Nat) (skip : Bool) (m : Bytes) (bm : FbDesc) : Prop where
  desc : (getBmDesc (int32 len) m).1 = .ok bm
  fbType : bm.fbType = LV_FB_PAL8
  start : bm.dataStart ≠ 0
  size : dispsizeOf bm skip ≠ 0
  check : (checkBitmap len bm m).1 = .ok none

/-- `convert_palette` calls a function for all 256 bytes, and what is read of the frame for
it lies inside. -/
def PaletteServed (len : Nat) (m : Bytes) : Prop :=
  ∃ pixels reads, convertPalette m = (.ok (some pixels), reads) ∧ pixels.length = 256 ∧
    Traced.Inside 0 len reads

/-- The default palette is taken, or the type has a function and the first entry that it
uses does not lie before the frame. -/
def PaletteUsable (m : Bytes) : Prop :=
  intOf m 16 = 0 ∨ 6 ≤ uint32 (intOf m 12) ∨
    uint32 (intOf m 12) ≠ 0 ∧ 0 ≤ intOf m 16 + paletteSkip (uint32 (intOf m 12))

theorem checkBitmap_palette {len : Nat} {bm : FbDesc} (hpal : bm.fbType = LV_FB_PAL8)
    (h : (checkBitmap len bm m).1 = .ok none) :
    (getPaletteSize (uint32 (intOf m 12)) + uint32 (intOf m 16)) % 2 ^ 32 ≤ len := by
  obtain ⟨reads, h⟩ := Traced.eq_of_fst h
  rw [checkBitmap, if_neg (by rw [hpal]; decide)] at h
  obtain ⟨type, first, rest, htype, hrest, -⟩ := Traced.of_bind_ok h
  obtain ⟨start, second, last, hstart, hlast, -⟩ := Traced.of_bind_ok hrest
  rw [paletteType, intAt_apply] at htype
  rw [paletteDataStart, intAt_apply] at hstart
  obtain ⟨htype, -⟩ := Prod.mk.inj htype
  obtain ⟨hstart, -⟩ := Prod.mk.inj hstart
  obtain rfl : intOf m 12 = type := Except.ok.inj htype
  obtain rfl : intOf m 16 = start := Except.ok.inj hstart
  split at hlast
  · cases hlast
  · omega

/-- The check keeps a palette inside at its end. -/
theorem paletteFits_iff {len type : Nat} {start : Int} (hzero : type ≠ 0) (hknown : type < 6)
    (hrange : -2 ^ 31 ≤ start ∧ start < 2 ^ 31)
    (hcheck : (getPaletteSize type + uint32 start) % 2 ^ 32 ≤ len) :
    PaletteFits len (.frame type start) ↔ 0 ≤ start + paletteSkip type := by
  have hsizes : ∀ t < 6, t ≠ 0 → paletteSkip t ≤ 4 ∧ 4 ≤ getPaletteSize t ∧
      getPaletteSize t ≤ 1024 := by decide
  have hsize := hsizes type hknown hzero
  rw [uint32] at hcheck
  constructor
  · exact And.left
  · intro hlow
    exact ⟨hlow, by omega⟩

theorem madePalette_length {pixels : List Pixel} {source : Source}
    (h : madePalette m source = some pixels) : source ≠ .null ∧ pixels.length = 256 := by
  cases source with
  | null => cases h
  | frame type start =>
    obtain rfl := Option.some.inj h
    exact ⟨Source.noConfusion, by simp [allBytes]⟩
  | default =>
    obtain rfl := Option.some.inj h
    exact ⟨Source.noConfusion, by simp [allBytes]⟩

theorem madePalette_some {source : Source} (h : source ≠ .null) :
    ∃ pixels, madePalette m source = some pixels := by
  cases source with
  | null => exact absurd rfl h
  | frame type start => exact ⟨_, rfl⟩
  | default => exact ⟨_, rfl⟩

theorem paletteServed_source {len : Nat} (hlen : 32 ≤ len) (m : Bytes) :
    PaletteServed len m ↔ sourceOf m ≠ .null ∧ PaletteFits len (sourceOf m) := by
  obtain ⟨read, hconvert, hinside⟩ := convertPalette_apply m
  constructor
  · rintro ⟨pixels, reads, hpixels, -, hreads⟩
    rw [hconvert] at hpixels
    obtain ⟨hmade, rfl⟩ := Prod.mk.inj hpixels
    have hsource := (madePalette_length (Except.ok.inj hmade)).1
    exact ⟨hsource, (hinside hsource len).mp (Traced.inside_append.mp hreads).2⟩
  · rintro ⟨hsource, hfits⟩
    obtain ⟨pixels, hmade⟩ := madePalette_some (m := m) hsource
    refine ⟨pixels, paletteFields ++ read, by rw [hconvert, hmade], (madePalette_length hmade).2, ?_⟩
    rw [Traced.inside_append]
    refine ⟨?_, (hinside hsource len).mpr hfits⟩
    simp only [paletteFields, Traced.inside_cons, Traced.inside_nil, and_true]
    omega

/-- An accepted paletted bitmap gets its palette exactly when the palette is usable. -/
theorem paletteServed_iff {len : Nat} {bm : FbDesc} {skip : Bool} (h : AcceptsPal8 len skip m bm) :
    PaletteServed len m ↔ PaletteUsable m := by
  obtain ⟨reads, hdesc⟩ := Traced.eq_of_fst h.desc
  have hcheck := checkBitmap_palette h.fbType h.check
  rw [paletteServed_source (getBmDesc_accepted hdesc).len_ge, PaletteUsable, sourceOf, choose]
  by_cases hdefault : intOf m 16 = 0 ∨ 6 ≤ uint32 (intOf m 12)
  · rw [if_pos hdefault, ← or_assoc]
    exact iff_of_true ⟨Source.noConfusion, trivial⟩ (.inl hdefault)
  · rw [if_neg hdefault, ← or_assoc, or_iff_right hdefault]
    rw [not_or] at hdefault
    by_cases hzero : uint32 (intOf m 12) = 0
    · rw [if_pos hzero]
      exact iff_of_false (fun hnull => hnull.1 rfl) fun husable => husable.1 hzero
    · rw [if_neg hzero, paletteFits_iff hzero (by omega) (intOf_range m 16) hcheck]
      exact and_congr_left fun _ => iff_of_true Source.noConfusion hzero

/-! ### Frames -/

/-- The memory around a frame is zero. -/
def around (frame : List UInt8) : Bytes := fun o => if o < 0 then 0 else frame.getD o.toNat 0

/-- A frame of 74 bytes with a viewport of four columns and one row. -/
def fourPixels (dataStart : List UInt8) : Bytes :=
  around ([2, 0, 0, 0, 2, 0, 0, 0, 0, 0, 0, 0, 0, 0, 0, 0, 0, 0, 0, 0, 32, 0, 0, 0] ++
    [0, 0, 0, 0, 0, 0, 0, 0] ++
    [0, 0, 0, 0] ++ dataStart ++ [4, 0, 0, 0, 4, 0, 0, 0, 1, 0, 0, 0] ++
    [0, 0, 0, 0, 0, 0, 0, 0, 0, 0, 0, 0, 0, 0, 0, 0] ++ [0, 1, 0, 2, 3, 4])

/-- A frame of 69 bytes with a paletted bitmap of one pixel. -/
def onePal8 (type start : List UInt8) : Bytes :=
  around ([2, 0, 0, 0, 2, 0, 0, 0, 0, 0, 0, 0] ++ type ++ start ++ [0, 0, 0, 0] ++ [32, 0, 0, 0] ++
    [0, 0, 0, 0] ++
    [1, 0, 0, 0] ++ [68, 0, 0, 0] ++ [1, 0, 0, 0, 1, 0, 0, 0, 1, 0, 0, 0] ++
    [0, 0, 0, 0, 0, 0, 0, 0, 0, 0, 0, 0, 0, 0, 0, 0] ++ [7])

theorem palette_default : AcceptsPal8 69 false (onePal8 [0, 0, 0, 0] [0, 0, 0, 0]) ⟨1, 68, 1, 1, 1⟩ ∧
    PaletteServed 69 (onePal8 [0, 0, 0, 0] [0, 0, 0, 0]) := by
  have haccepts : AcceptsPal8 69 false (onePal8 [0, 0, 0, 0] [0, 0, 0, 0]) ⟨1, 68, 1, 1, 1⟩ := by
    constructor <;> decide +kernel
  exact ⟨haccepts, (paletteServed_iff haccepts).mpr (.inl (by decide +kernel))⟩

/-- Type 0 with a palette, and a palette that starts before the frame. -/
theorem palette_not_served :
    (AcceptsPal8 69 false (onePal8 [0, 0, 0, 0] [1, 0, 0, 0]) ⟨1, 68, 1, 1, 1⟩ ∧
      ¬PaletteServed 69 (onePal8 [0, 0, 0, 0] [1, 0, 0, 0])) ∧
    AcceptsPal8 69 false (onePal8 [1, 0, 0, 0] [240, 255, 255, 255]) ⟨1, 68, 1, 1, 1⟩ ∧
      ¬PaletteServed 69 (onePal8 [1, 0, 0, 0] [240, 255, 255, 255]) := by
  refine ⟨⟨?_, fun hserved => ?_⟩, ?_, fun hserved => ?_⟩
  · constructor <;> decide +kernel
  · have hsource := ((paletteServed_source (by decide) _).mp hserved).1
    exact hsource (by decide +kernel)
  · constructor <;> decide +kernel
  · have hfits := ((paletteServed_source (by decide) _).mp hserved).2
    have hsource : sourceOf (onePal8 [1, 0, 0, 0] [240, 255, 255, 255]) = .frame 1 (-16) := by
      decide +kernel
    rw [hsource] at hfits
    exact absurd hfits.1 (by decide)

def newMemory : Nat → Option Memory := fun _ => some fun _ => 0

theorem reads_inside_witness :
    (∀ limit, Safe 74 (getViewportPimg newMemory limit none 74 false (fourPixels [68, 0, 0, 0]))) ∧
      ∀ limit, Safe 74 (getBitmapPimg newMemory limit none 74 false (fourPixels [68, 0, 0, 0])) := by
  have hboth := reads_inside_iff newMemory (show 74 < 2 ^ 32 by decide) false
    (fourPixels [68, 0, 0, 0])
  refine ⟨(hboth.1 none).mpr fun vp target h => ?_, (hboth.2 none fun i hi => (by cases hi)).mpr
    fun bm bmo target h => ?_⟩
  · have hdesc : (getVpDesc (int32 74) (fourPixels [68, 0, 0, 0])).1 = .ok ⟨0, 68, 4, 4, 1⟩ := by
      decide +kernel
    obtain rfl := Except.ok.inj (hdesc.symm.trans h.desc)
    refine ⟨by decide +kernel, ?_⟩
    unfold Format.Fits RowsFit
    decide +kernel
  · have hdesc : (getBmDesc (int32 74) (fourPixels [68, 0, 0, 0])).1 = .error "no desc" := by
      decide +kernel
    cases hdesc.symm.trans h.desc

def isImage : Except String Outcome → Bool
  | .ok (.image _ _ _) => true
  | _ => false

/-- A framebuffer that starts before the frame is accepted, and read. -/
theorem read_before_frame :
    ¬Safe 74 (getViewportPimg newMemory 2 none 74 false (fourPixels [255, 255, 255, 255])) := by
  have hread : (-1 : Int) ∈
      (getViewportPimg newMemory 2 none 74 false (fourPixels [255, 255, 255, 255])).2 := by
    decide +kernel
  have himage : isImage (getViewportPimg newMemory 2 none 74 false
      (fourPixels [255, 255, 255, 255])).1 = true := by decide +kernel
  rintro (hstops | ⟨-, hinside⟩)
  · rcases hstops with ⟨message, h⟩ | h <;> rw [h] at himage <;> cases himage
  · have := hinside _ hread
    omega

end LiveReads
