import Chdkptp.LbufAccess

/-!
# The live view wrapper

`chdku.live_wrapper` gives names to the fields of a live view frame. Which names there
are and which framebuffers the frame describes is worked out when the version
changes; the version before is read through the buffer of the frame before, which
`live_get_frame` has overwritten by then.
-/

namespace LiveWrapper

open Lbuf

inductive Field where
  | versionMajor | versionMinor | lcdAspectRatio | paletteType | paletteDataStart
  | vpDescStart | bmDescStart | bmoDescStart
  deriving DecidableEq, Repr

inductive FbField where
  | fbType | dataStart | bufferWidth | visibleWidth | visibleHeight
  | marginLeft | marginTop | marginRight | marginBot
  deriving DecidableEq, Repr

inductive Fb where
  | vp | bm | bmo
  deriving DecidableEq, Repr

def liveFieldsV21 : List Field :=
  [.versionMajor, .versionMinor, .lcdAspectRatio, .paletteType, .paletteDataStart,
    .vpDescStart, .bmDescStart]

def liveFields : List Field :=
  [.versionMajor, .versionMinor, .lcdAspectRatio, .paletteType, .paletteDataStart,
    .vpDescStart, .bmDescStart, .bmoDescStart]

def liveFbDescFields : List FbField :=
  [.fbType, .dataStart, .bufferWidth, .visibleWidth, .visibleHeight,
    .marginLeft, .marginTop, .marginRight, .marginBot]

def liveFbNamesV21 : List Fb := [.vp, .bm]

def liveFbNames : List Fb := [.vp, .bm, .bmo]

/-- The field maps of `live_init_maps`. -/
def offset {α : Type} [DecidableEq α] (names : List α) (key : α) : Option Nat :=
  (names.idxOf? key).map fun i => i * 4

/-- `fb..'_desc_start'` -/
def Fb.descStart : Fb → Field
  | .vp => .vpDescStart
  | .bm => .bmDescStart
  | .bmo => .bmoDescStart

/-- Each list of names stands for itself and the map made from it. -/
structure Wrapper where
  frame : Option Nat
  fieldNames : Option (List Field)
  fbFieldNames : Option (List FbField)
  fbNames : Option (List Fb)
  fbs : Fb → Bool

/-- `chdku.live_wrapper`. -/
def liveWrapper : Wrapper where
  frame := none
  fieldNames := none
  fbFieldNames := none
  fbNames := none
  fbs := fun _ => false

/-- The Lua buffers, which a wrapper refers to. -/
abbrev Lbufs := Nat → LBuf

/-- `__index` of the wrapper. -/
def Wrapper.index (lbufs : Lbufs) (w : Wrapper) (key : Field) : Got Int :=
  match w.frame with
  | none => .nil
  | some frame =>
    match w.fieldNames with
    | none => .raised
    | some names =>
      match offset names key with
      | none => .nil
      | some off => lbufGetI32 (lbufs frame) off

/-- `__index` of the description of a framebuffer. -/
def Wrapper.fbIndex (lbufs : Lbufs) (w : Wrapper) (fb : Fb) (key : FbField) : Got Int :=
  match w.fbFieldNames with
  | none => .raised
  | some names =>
    match w.frame, offset names key with
    | some frame, some off =>
      match w.index lbufs fb.descStart with
      | .value start => lbufGetI32 (lbufs frame) (start + off)
      | _ => .raised
    | _, _ => .nil

def clearFrame (_ : Wrapper) : Wrapper where
  frame := none
  fieldNames := none
  fbFieldNames := none
  fbNames := none
  fbs := fun _ => false

/-- The end of `set_frame`, when the names for the version are chosen. Reading a start
does not raise: a frame with a version has four bytes. -/
def setNames (lbufs : Lbufs) (w : Wrapper) (fields : List Field) (fbs : List Fb) : Wrapper :=
  let w := { w with
    fieldNames := some fields, fbNames := some fbs, fbFieldNames := some liveFbDescFields }
  { w with fbs := fun fb => fbs.contains fb && decide (w.index lbufs fb.descStart ≠ .value 0) }

/-- `set_frame` when the version has changed. -/
def rebuild (lbufs : Lbufs) (w : Wrapper) (frame : Nat) (major : Int) (minor : Got Int) :
    Wrapper × Bool :=
  let w := { clearFrame w with frame := some frame }
  if major = 2 then
    match minor with
    | .value minor =>
      if minor < 2 then (setNames lbufs w liveFieldsV21 liveFbNamesV21, true)
      else (setNames lbufs w liveFields liveFbNames, true)
    | _ => (w, false)
  else (setNames lbufs w liveFields liveFbNames, true)

/-- `set_frame` of a frame, and whether it returns; otherwise it throws. -/
def setFrame (lbufs : Lbufs) (w : Wrapper) (frame : Nat) : Wrapper × Bool :=
  match lbufGetI32 (lbufs frame) 0, lbufGetI32 (lbufs frame) 4 with
  | .raised, _ => (w, false)
  | _, .raised => (w, false)
  | .nil, _ => (w, false)
  | .value newMajor, newMinor =>
    if newMajor < 2 then (clearFrame w, false)
    else
      match w.index lbufs .versionMajor with
      | .raised => (w, false)
      | major =>
        if major = .value newMajor then
          match w.index lbufs .versionMinor with
          | .raised => (w, false)
          | minor =>
            if minor = newMinor then ({ w with frame := some frame }, true)
            else rebuild lbufs w frame newMajor newMinor
        else rebuild lbufs w frame newMajor newMinor

/-! ## What a wrapper shows -/

/-- All that can be seen of a wrapper. -/
structure View where
  fieldNames : Option (List Field)
  fbFieldNames : Option (List FbField)
  fbNames : Option (List Fb)
  fbs : Fb → Bool
  field : Field → Got Int
  fbField : Fb → FbField → Option (Got Int)

def view (lbufs : Lbufs) (w : Wrapper) : View where
  fieldNames := w.fieldNames
  fbFieldNames := w.fbFieldNames
  fbNames := w.fbNames
  fbs := w.fbs
  field := w.index lbufs
  fbField := fun fb key => if w.fbs fb then some (w.fbIndex lbufs fb key) else none

/-- A frame that comes: fetched by `live_get_frame` into the buffer of the frame before,
if there is one, or given to `set_frame` in a buffer of the caller. -/
inductive Delivery where
  | getFrame (new : Nat) (data : LBuf)
  | setFrame (ref : Nat) (data : LBuf)

def Delivery.data : Delivery → LBuf
  | .getFrame _ data => data
  | .setFrame _ data => data

/-- The buffer the frame comes in. -/
def Delivery.ref (held : Option Nat) : Delivery → Nat
  | .getFrame new _ => held.getD new
  | .setFrame ref _ => ref

def fill (lbufs : Lbufs) (ref : Nat) (data : LBuf) : Lbufs :=
  fun r => if r = ref then data else lbufs r

@[simp] theorem fill_same (lbufs : Lbufs) (ref : Nat) (data : LBuf) :
    fill lbufs ref data ref = data := by simp [fill]

@[simp] theorem fill_other (lbufs : Lbufs) (ref r : Nat) (data : LBuf) (h : r ≠ ref) :
    fill lbufs ref data r = lbufs r := by simp [fill, h]

structure State where
  lbufs : Lbufs
  wrapper : Wrapper

/-- The buffer is filled and `set_frame` is called. -/
def deliver (s : State) (d : Delivery) : State :=
  let ref := d.ref s.wrapper.frame
  let lbufs := fill s.lbufs ref d.data
  ⟨lbufs, (setFrame lbufs s.wrapper ref).1⟩

def deliverAll (s : State) (deliveries : List Delivery) : State := deliveries.foldl deliver s

/-- A frame of version 2 or later. -/
def Supported (frame : LBuf) : Prop :=
  lbufGetI32 frame 4 ≠ .raised ∧
    ∃ major, lbufGetI32 frame 0 = .value major ∧ 2 ≤ major ∧
      (major = 2 → ∃ minor, lbufGetI32 frame 4 = .value minor)

/-! ## The layout of a frame -/

/-- The names a new wrapper chooses for a frame and the framebuffers it finds in it. -/
structure Layout where
  fieldNames : List Field
  fbNames : List Fb
  fbs : Fb → Bool

def hasV21Fields (frame : LBuf) : Bool :=
  match lbufGetI32 frame 0, lbufGetI32 frame 4 with
  | .value major, .value minor => decide (major = 2 ∧ minor < 2)
  | _, _ => false

def layoutFields (frame : LBuf) : List Field :=
  if hasV21Fields frame then liveFieldsV21 else liveFields

def layoutFbs (frame : LBuf) : List Fb :=
  if hasV21Fields frame then liveFbNamesV21 else liveFbNames

/-- The framebuffers whose description starts somewhere else than at 0. -/
def layoutOf (frame : LBuf) : Layout where
  fieldNames := layoutFields frame
  fbNames := layoutFbs frame
  fbs := fun fb => (layoutFbs frame).contains fb &&
    decide (((offset (layoutFields frame) fb.descStart).elim .nil fun off =>
      lbufGetI32 frame off) ≠ .value 0)

/-- A wrapper made for one layout that holds a frame. -/
def ofLayout (l : Layout) (frame : Nat) : Wrapper where
  frame := some frame
  fieldNames := some l.fieldNames
  fbFieldNames := some liveFbDescFields
  fbNames := some l.fbNames
  fbs := l.fbs

@[simp] theorem ofLayout_frame (l : Layout) (frame : Nat) :
    (ofLayout l frame).frame = some frame := rfl

@[simp] theorem liveWrapper_frame : liveWrapper.frame = none := rfl

def version (frame : LBuf) : Got Int × Got Int := (lbufGetI32 frame 0, lbufGetI32 frame 4)

theorem setNames_layout (lbufs : Lbufs) (w : Wrapper) (frame : Nat) (hw : w.frame = some frame) :
    setNames lbufs w (layoutFields (lbufs frame)) (layoutFbs (lbufs frame)) =
      ofLayout (layoutOf (lbufs frame)) frame := by
  simp only [setNames, ofLayout, layoutOf, Wrapper.index, hw, Wrapper.mk.injEq, true_and]
  funext fb
  cases offset (layoutFields (lbufs frame)) fb.descStart <;> rfl

theorem rebuild_supported (lbufs : Lbufs) (w : Wrapper) (frame : Nat) (major : Int)
    (hmajor : lbufGetI32 (lbufs frame) 0 = .value major)
    (hminor : major = 2 → ∃ minor, lbufGetI32 (lbufs frame) 4 = .value minor) :
    (rebuild lbufs w frame major (lbufGetI32 (lbufs frame) 4)).1 =
      ofLayout (layoutOf (lbufs frame)) frame := by
  rw [← setNames_layout lbufs { clearFrame w with frame := some frame } frame rfl]
  unfold rebuild layoutFields layoutFbs hasV21Fields
  by_cases htwo : major = 2
  · obtain ⟨minor, hm⟩ := hminor htwo
    simp only [hmajor, hm, htwo, ↓reduceIte, true_and]
    by_cases hlt : minor < 2 <;> simp [hlt]
  · simp only [hmajor, htwo, ↓reduceIte]
    cases lbufGetI32 (lbufs frame) 4 <;> simp [htwo]

theorem getI32_first (buf : LBuf) : lbufGetI32 buf 0 ≠ .raised := by
  unfold lbufGetI32 getVals32
  rw [if_neg (by decide), if_neg (by simp)]
  split_ifs with hlen hcount
  · simp [Got.map]
  · simp only [Int.toNat_zero, UInt32.reduceOfNat, UInt32.sub_zero] at hlen hcount
    omega
  · simp [Got.map]

theorem index_ofLayout (lbufs : Lbufs) (l : Layout) (frame : Nat)
    (hl : l.fieldNames = liveFieldsV21 ∨ l.fieldNames = liveFields) :
    (ofLayout l frame).index lbufs .versionMajor = lbufGetI32 (lbufs frame) 0 ∧
      (ofLayout l frame).index lbufs .versionMinor = lbufGetI32 (lbufs frame) 4 := by
  rcases hl with hl | hl <;> simp only [Wrapper.index, ofLayout, hl] <;> exact ⟨rfl, rfl⟩

theorem layoutFields_cases (frame : LBuf) :
    (layoutOf frame).fieldNames = liveFieldsV21 ∨ (layoutOf frame).fieldNames = liveFields := by
  unfold layoutOf layoutFields
  cases hasV21Fields frame
  · exact .inr rfl
  · exact .inl rfl

/-- A new wrapper is made for the frame. -/
theorem setFrame_new (lbufs : Lbufs) (frame : Nat) (h : Supported (lbufs frame)) :
    (setFrame lbufs liveWrapper frame).1 = ofLayout (layoutOf (lbufs frame)) frame := by
  obtain ⟨hraised, major, hmajor, hge, hminor⟩ := h
  have hnil : liveWrapper.index lbufs .versionMajor = .nil := rfl
  rw [← rebuild_supported lbufs liveWrapper frame major hmajor hminor]
  unfold setFrame
  rw [hmajor, hnil]
  cases hm : lbufGetI32 (lbufs frame) 4 with
  | raised => exact absurd hm hraised
  | nil => simp [show ¬major < 2 by omega]
  | value minor => simp [show ¬major < 2 by omega]

/-- A wrapper with a frame is made anew when the version in its buffer is another one. -/
theorem setFrame_held (lbufs : Lbufs) (l : Layout) (held frame : Nat)
    (hl : l.fieldNames = liveFieldsV21 ∨ l.fieldNames = liveFields)
    (hheld : lbufGetI32 (lbufs held) 4 ≠ .raised) (h : Supported (lbufs frame)) :
    (setFrame lbufs (ofLayout l held) frame).1 =
      if version (lbufs held) = version (lbufs frame) then ofLayout l frame
      else ofLayout (layoutOf (lbufs frame)) frame := by
  obtain ⟨hraised, major, hmajor, hge, hminor⟩ := h
  obtain ⟨hindex0, hindex4⟩ := index_ofLayout lbufs l held hl
  have hnew := rebuild_supported lbufs (ofLayout l held) frame major hmajor hminor
  have hfirst := getI32_first (lbufs held)
  have hlt : ¬major < 2 := by omega
  unfold setFrame version
  rw [hmajor, hindex0, hindex4]
  cases hm : lbufGetI32 (lbufs frame) 4 with
  | raised => exact absurd hm hraised
  | nil =>
    rw [hm] at hnew
    simp only [hlt, ↓reduceIte, Prod.mk.injEq]
    by_cases h0 : lbufGetI32 (lbufs held) 0 = .value major
    · by_cases h4 : lbufGetI32 (lbufs held) 4 = .nil
      · simp [h0, h4, ofLayout]
      · simp [h0, h4, hnew]
    · simp [h0, hnew]
  | value minor =>
    rw [hm] at hnew
    simp only [hlt, ↓reduceIte, Prod.mk.injEq]
    by_cases h0 : lbufGetI32 (lbufs held) 0 = .value major
    · by_cases h4 : lbufGetI32 (lbufs held) 4 = .value minor
      · simp [h0, h4, ofLayout]
      · simp [h0, h4, hnew]
    · simp [h0, hnew]

/-! ## Runs -/

/-- The buffer that is held, the frame it came with and the frame the wrapper was made for. -/
structure Held where
  ref : Nat
  data : LBuf
  built : LBuf

/-- The wrapper is made for a frame that is the first, or comes in another buffer than the
one before and with another version. -/
def hold : Option Held → Delivery → Held
  | none, d => ⟨d.ref none, d.data, d.data⟩
  | some h, d =>
    ⟨d.ref (some h.ref), d.data,
      if d.ref (some h.ref) = h.ref ∨ version h.data = version d.data then h.built else d.data⟩

def holdAll (deliveries : List Delivery) : Option Held :=
  deliveries.foldl (fun h d => some (hold h d)) none

def Holds (s : State) : Option Held → Prop
  | none => s.wrapper = liveWrapper
  | some h => s.wrapper = ofLayout (layoutOf h.built) h.ref ∧ s.lbufs h.ref = h.data ∧
      Supported h.data

theorem Holds.deliver {s : State} {h : Option Held} (hs : Holds s h) {d : Delivery}
    (hd : Supported d.data) : Holds (deliver s d) (some (hold h d)) := by
  cases h with
  | none =>
    have hw : s.wrapper = liveWrapper := hs
    refine ⟨?_, by simp [LiveWrapper.deliver, hold, hw], hd⟩
    have hnew := setFrame_new (fill s.lbufs (d.ref none) d.data) (d.ref none) (by simpa using hd)
    simpa [LiveWrapper.deliver, hold, hw] using hnew
  | some h =>
    obtain ⟨hw, hdata, hsupported⟩ := hs
    refine ⟨?_, by simp [LiveWrapper.deliver, hold, hw], hd⟩
    by_cases hsame : d.ref (some h.ref) = h.ref
    · have hset := setFrame_held (fill s.lbufs h.ref d.data) (layoutOf h.built) h.ref h.ref
        (layoutFields_cases h.built) (by simpa using hd.1) (by simpa using hd)
      simpa [LiveWrapper.deliver, hold, hw, hsame] using hset
    · have hother : h.ref ≠ d.ref (some h.ref) := fun he => hsame he.symm
      have hset := setFrame_held (fill s.lbufs (d.ref (some h.ref)) d.data) (layoutOf h.built) h.ref
        (d.ref (some h.ref)) (layoutFields_cases h.built)
        (by simpa [hother, hdata] using hsupported.1) (by simpa using hd)
      simp only [fill_other _ _ _ _ hother, fill_same, hdata] at hset
      simp only [LiveWrapper.deliver, hold, hw, ofLayout_frame, hsame, false_or, hset]
      split_ifs <;> rfl

theorem deliverAll_holds (s : State) (h : Option Held) (hs : Holds s h)
    (deliveries : List Delivery) (hd : ∀ d ∈ deliveries, Supported d.data) :
    Holds (deliverAll s deliveries) (deliveries.foldl (fun h d => some (hold h d)) h) := by
  induction deliveries generalizing s h with
  | nil => exact hs
  | cons d deliveries ih =>
    exact ih (deliver s d) (some (hold h d)) (hs.deliver (hd d (by simp)))
      fun d' hd' => hd d' (List.mem_cons_of_mem d hd')

theorem hold_data (h : Option Held) (d : Delivery) : (hold h d).data = d.data := by
  cases h <;> rfl

theorem view_ofLayout {lbufs lbufs' : Lbufs} {frame frame' : Nat} (l : Layout)
    (h : lbufs frame = lbufs' frame') :
    view lbufs (ofLayout l frame) = view lbufs' (ofLayout l frame') := by
  have hindex : (ofLayout l frame).index lbufs = (ofLayout l frame').index lbufs' := by
    funext key
    simp only [Wrapper.index, ofLayout, h]
  have hfb : (ofLayout l frame).fbIndex lbufs = (ofLayout l frame').fbIndex lbufs' := by
    funext fb key
    unfold Wrapper.fbIndex
    rw [hindex]
    generalize (ofLayout l frame').index lbufs' fb.descStart = start
    cases hoff : offset liveFbDescFields key <;> cases start <;> simp [ofLayout, hoff, h]
  simp only [view, hindex, hfb]
  rfl

theorem layout_of_view {lbufs lbufs' : Lbufs} {frame frame' : Nat} {l l' : Layout}
    (h : view lbufs (ofLayout l frame) = view lbufs' (ofLayout l' frame')) : l = l' := by
  obtain ⟨fields, fbNames, fbs⟩ := l
  obtain ⟨fields', fbNames', fbs'⟩ := l'
  simp only [view, ofLayout, View.mk.injEq, Option.some.injEq] at h
  obtain ⟨rfl, -, rfl, rfl, -⟩ := h
  rfl

/-- After any frames the wrapper shows what a new one shows of the last frame exactly if
it was made for a frame of the same layout. -/
theorem wrapper_fresh_iff (lbufs lbufs' : Lbufs) (before : List Delivery) (last : Delivery)
    (ref : Nat) (h : ∀ d ∈ before ++ [last], Supported d.data) :
    view (deliverAll ⟨lbufs, liveWrapper⟩ (before ++ [last])).lbufs
          (deliverAll ⟨lbufs, liveWrapper⟩ (before ++ [last])).wrapper =
        view (deliver ⟨lbufs', liveWrapper⟩ (.setFrame ref last.data)).lbufs
          (deliver ⟨lbufs', liveWrapper⟩ (.setFrame ref last.data)).wrapper ↔
      layoutOf (hold (holdAll before) last).built = layoutOf last.data := by
  have hlast : Supported last.data := h last (by simp)
  have hrun := deliverAll_holds ⟨lbufs, liveWrapper⟩ none rfl (before ++ [last]) h
  rw [List.foldl_append] at hrun
  obtain ⟨hw, hdata, -⟩ : Holds (deliverAll ⟨lbufs, liveWrapper⟩ (before ++ [last]))
    (some (hold (holdAll before) last)) := hrun
  obtain ⟨hw', hdata', -⟩ := Holds.deliver (s := ⟨lbufs', liveWrapper⟩) (h := none) rfl
    (d := .setFrame ref last.data) hlast
  rw [hw, hw', show (hold none (.setFrame ref last.data)).built = last.data from rfl]
  constructor
  · intro hview
    exact layout_of_view hview
  · intro hlayout
    rw [hlayout]
    refine view_ofLayout _ ?_
    rw [hdata', hdata, hold_data, hold_data]
    rfl

/-- A frame header of version 2.2 with a viewport, and a bitmap if it has a start. -/
def frame22 (bmDescStart : UInt8) : LBuf :=
  .ofList ([2, 2, 0, 0, 0, 32, bmDescStart, 0].flatMap fun word => [word, 0, 0, 0])

/-- The bitmap of the second frame is not seen. -/
theorem stale_framebuffers :
    view (deliverAll ⟨fun _ => frame22 0, liveWrapper⟩
            [.getFrame 0 (frame22 0), .getFrame 0 (frame22 68)]).lbufs
          (deliverAll ⟨fun _ => frame22 0, liveWrapper⟩
            [.getFrame 0 (frame22 0), .getFrame 0 (frame22 68)]).wrapper ≠
      view (deliver ⟨fun _ => frame22 0, liveWrapper⟩ (.setFrame 0 (frame22 68))).lbufs
        (deliver ⟨fun _ => frame22 0, liveWrapper⟩ (.setFrame 0 (frame22 68))).wrapper := by
  intro h
  have hbm := congrArg (fun v => v.fbs .bm) h
  revert hbm
  decide

theorem frame22_supported (bmDescStart : UInt8) : Supported (frame22 bmDescStart) :=
  ⟨by simp [frame22, LBuf.ofList, lbufGetI32, getVals32, Got.map], 2, rfl, by decide,
    fun _ => ⟨2, by
      simp [frame22, LBuf.ofList, lbufGetI32, getVals32, Got.map, PtpUsb.dtoh32, toInt32]⟩⟩

theorem wrapper_fresh_witness :
    view (deliverAll ⟨fun _ => frame22 0, liveWrapper⟩
            ([.getFrame 0 (frame22 68)] ++ [.getFrame 0 (frame22 72)])).lbufs
          (deliverAll ⟨fun _ => frame22 0, liveWrapper⟩
            ([.getFrame 0 (frame22 68)] ++ [.getFrame 0 (frame22 72)])).wrapper =
        view (deliver ⟨fun _ => frame22 0, liveWrapper⟩ (.setFrame 0 (frame22 72))).lbufs
          (deliver ⟨fun _ => frame22 0, liveWrapper⟩ (.setFrame 0 (frame22 72))).wrapper ↔
      layoutOf (hold (holdAll [.getFrame 0 (frame22 68)]) (.getFrame 0 (frame22 72))).built =
        layoutOf (frame22 72) :=
  wrapper_fresh_iff (fun _ => frame22 0) (fun _ => frame22 0) [.getFrame 0 (frame22 68)]
    (.getFrame 0 (frame22 72)) 0 (by
      intro d hd
      obtain rfl | rfl : d = .getFrame 0 (frame22 68) ∨ d = .getFrame 0 (frame22 72) := by
        simpa using hd
      · exact frame22_supported 68
      · exact frame22_supported 72)

end LiveWrapper
