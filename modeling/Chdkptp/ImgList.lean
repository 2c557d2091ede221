import Chdkptp.CamClock
import Chdkptp.CamFind

/-!
# The list of images

`ff_imglist` sends the files that `find_files` finds if the numbers in their names and in the
names of their directories are in the ranges that are asked for. The number of the directory is
found with a pattern that is made of the name of the file.
-/

namespace ImgList

open LuaValue (LuaString)
open LuaText (bytes)
open FileTree FsCam CamFind Contracts TreeWalk LuaPattern
open CamClock (tonumber longGroup leads_long matchItems_long_some)

structure Range where
  min : Option Int
  max : Option Int

def Range.given (r : Range) : Bool := r.min.isSome || r.max.isSome

def Range.has (r : Range) (n : Int) : Bool := r.min.all (fun m => m ≤ n) && r.max.all fun m => n ≤ m

/-- `opts.lastimg` that is true, or a number. -/
inductive LastImg where
  | on
  | count (n : Int)

/-- The options of `ff_imglist`: those of `find_files`, `imgnum_min` and `imgnum_max`,
`dirnum_min` and `dirnum_max`, and others. -/
structure ImgOpts where
  find : FindOpts
  imgnum : Range
  dirnum : Range
  lastimg : Option LastImg
  startPaths : Option (List LuaString)

/-- What `get_exp_count` and `get_image_dir` return. -/
structure ImgCam where
  expCount : Int
  imageDir : LuaString

def imgPattern : Bytes := bytes "%a%a%a_(%d%d%d%d)%.%w%w%w$".toList

def dirPattern : Bytes := bytes "/(%d%d%d)[^/]*/".toList

def dcim : LuaString := bytes "A/DCIM".toList

def noConcat : String := "attempt to concatenate field 'name' (a nil value)"

def noCompare : String := "attempt to compare nil with number"

def nilMatch : String := "bad argument #1 to 'match' (string expected, got nil)"

def imgnumMatch (cur : Cur) : Except String (Option (List Value)) :=
  match cur.name with
  | none => .error nilMatch
  | some name => stringMatch name imgPattern

def dirnumMatch (cur : Cur) : Except String (Option (List Value)) :=
  match cur.name with
  | none => .error noConcat
  | some name => stringMatch cur.full (dirPattern ++ name)

/-- A test for one of the ranges, if it is given, with what `string.match` finds. -/
def inRange (r : Range) (found : Except String (Option (List Value))) : Except String Bool :=
  if r.given then
    match found with
    | .error msg => .error msg
    | .ok none => .ok false
    | .ok (some vs) =>
      match vs.head?.bind tonumber with
      | some n => .ok (r.has n)
      | none => .error noCompare
  else .ok true

/-- Whether `ff_imglist_fn` comes to its end. -/
def keeps (opts : ImgOpts) (cur : Cur) : Except String Bool :=
  match inRange opts.imgnum (imgnumMatch cur) with
  | .error msg => .error msg
  | .ok false => .ok false
  | .ok true => inRange opts.dirnum (dirnumMatch cur)

section List

variable {σ : Type}

/-- `ff_imglist_fn`, where `bwrite` is `ff_bwrite`. -/
def ffImglistFn (opts : ImgOpts) (bwrite : Cur → EStateM Fault σ PUnit) : Func σ := fun it =>
  if it.rpath.length = 0 ∧ it.cur.st = .directory then pure ⟨⟩
  else
    match keeps opts it.cur with
    | .error msg => throw (.raised (bytes msg.toList))
    | .ok keep => doIf keep (bwrite it.cur)

/-- What `opts.lastimg` sets. -/
def lastOpts (cam : ImgCam) (opts : ImgOpts) : ImgOpts :=
  match opts.lastimg with
  | none => opts
  | some last =>
    let n := match last with
      | .on => 1
      | .count n => n
    { opts with
      imgnum := ⟨some (if n < cam.expCount then cam.expCount - n + 1 else 1), some cam.expCount⟩
      startPaths := some [cam.imageDir] }

def startPaths (opts : ImgOpts) : List LuaString := opts.startPaths.getD [dcim]

/-- `ff_imglist` -/
def ffImglist (cam : ImgCam) (fs : CamFs) (opts : ImgOpts) (bwrite : Cur → EStateM Fault σ PUnit)
    (bflush : EStateM Fault σ PUnit) : EStateM Fault σ PUnit :=
  findFiles (lastOpts cam opts).find (ffImglistFn (lastOpts cam opts) bwrite) fs bflush
    (startPaths (lastOpts cam opts))

end List

/-! ## What is asked for -/

/-- The four digits at the end of a name with three letters before them. -/
def imageNumber (name : LuaString) : Option Int :=
  let t := name.drop (name.length - 12)
  if t.length = 12 ∧ (t.take 3).all isAlpha ∧ t[3]? = some 95 ∧
      ((t.drop 4).take 4).all isDigit ∧ t[8]? = some 46 ∧ (t.drop 9).all isAlnum then
    tonumber (.str ((t.drop 4).take 4))
  else none

/-- The three digits with which the name of a directory begins. -/
def directoryNumber (name : LuaString) : Option Int :=
  if 3 ≤ name.length ∧ (name.take 3).all isDigit then tonumber (.str (name.take 3)) else none

/-- The number of the directory that a path is in. -/
def parentNumber (full : LuaString) : Option Int :=
  (RlibPaths.basename (RlibPaths.dirname (some full)) none).bind directoryNumber

def Range.fits (r : Range) (n : Option Int) : Bool := !r.given || n.any r.has

/-! ## The number of an image -/

section Image

variable {src t ls ds es : Bytes} {s depth : Nat} {caps : List Capture} {r : Found}
  {its : List LuaPattern.Item}

/-- Three letters, a line below, four digits, a dot and an extension of three. -/
structure ImageName (t ls ds es : Bytes) : Prop where
  split : t = ls ++ 95 :: (ds ++ 46 :: es)
  letters : ls.length = 3 ∧ ∀ b ∈ ls, isAlpha b = true
  digits : ds.length = 4 ∧ ∀ b ∈ ds, isDigit b = true
  ext : es.length = 3 ∧ ∀ b ∈ es, isAlnum b = true

theorem ImageName.length (h : ImageName t ls ds es) : t.length = 12 := by
  simp [h.split, h.letters.1, h.digits.1, h.ext.1]

theorem imgPattern_read : imgPattern.head? ≠ some 94 ∧ items imgPattern =
    List.replicate 3 (.single (.escape 97) .one) ++ (.single (.lit 95) .one ::
      longGroup 4 (.single (.escape 46) .one ::
        (List.replicate 3 (.single (.escape 119) .one) ++ [.eos]))) := by
  decide +kernel

theorem leads_eos (h : s = src.length) : Leads src [.eos] s caps (s, caps) := by
  intro depth _
  rw [matchItems, if_pos h]

theorem matchItems_eos_some (h : matchItems src (.eos :: its) depth s caps = .ok (some r)) :
    s = src.length := by
  rw [matchItems] at h
  split at h
  · assumption
  · cases h

theorem leads_count {n : Nat} {c : Single} {l text : Bytes} (hn : l.length = n)
    (h : src.drop s = l ++ text) (hl : ∀ b ∈ l, c.test b = true)
    (hrest : Leads src its (s + n) caps r) :
    Leads src (List.replicate n (.single c .one) ++ its) s caps r := by
  subst hn
  exact leads_ones h hl hrest

/-- What is found in the name. -/
def imageFound (s : Nat) : Found := (s + 12, [⟨s + 4, .len 4⟩])

theorem leads_img (h : ImageName (src.drop s) ls ds es) :
    Leads src (items imgPattern) s [] (imageFound s) := by
  have hlength := h.length
  have hend : s + 12 = src.length := by
    rw [List.length_drop] at hlength
    omega
  have hline : src.drop (s + 3) = 95 :: (ds ++ 46 :: es) := by
    rw [← h.letters.1]
    exact drop_append h.split
  have hdot : src.drop (s + 8) = 46 :: es := by
    have hdrop := drop_append (drop_succ hline)
    rw [h.digits.1] at hdrop
    exact hdrop
  have hext : src.drop (s + 9) = es ++ [] := by
    rw [List.append_nil]
    exact drop_succ hdot
  rw [imgPattern_read.2]
  refine leads_count h.letters.1 h.split h.letters.2 ?_
  refine leads_one hline rfl ?_
  refine leads_long h.digits.1 h.digits.2 (drop_succ hline) (by decide) ?_
  refine leads_one hdot rfl ?_
  exact leads_count h.ext.1 hext h.ext.2 (leads_eos hend)

theorem imageName_of_some (h : matchItems src (items imgPattern) depth s [] = .ok (some r)) :
    ∃ ls ds es, ImageName (src.drop s) ls ds es := by
  rw [imgPattern_read.2] at h
  obtain ⟨ls, hls, hletters, hsplit, h⟩ := matchItems_ones_some 3 h
  obtain ⟨u, t, hu, hline, ht, h⟩ := matchItems_one_some h
  obtain ⟨ds, hds, hdigits, hsplit', d, caps, h⟩ := matchItems_long_some h
  obtain ⟨p, t', hp, hdot, ht', h⟩ := matchItems_one_some h
  obtain ⟨es, hes, halnum, hsplit'', h⟩ := matchItems_ones_some 3 h
  have hend := matchItems_eos_some h
  have hu' : 95 = u := by simpa [Single.test] using hline
  have hp' : 46 = p := by
    have htest : Single.test p (.escape 46) = decide (46 = p) := rfl
    rwa [htest, decide_eq_true_eq] at hdot
  refine ⟨ls, ds, es, ?_, ⟨hls, hletters⟩, ⟨hds, hdigits⟩, hes, halnum⟩
  rw [hsplit, hu, ← hu', ← ht, hsplit', hp, ← hp', ← ht', hsplit'', hend, List.drop_length,
    List.append_nil]

theorem imageName_place (h : ImageName (src.drop s) ls ds es) : s = src.length - 12 := by
  have hlength := h.length
  rw [List.length_drop] at hlength
  omega

theorem search_img (src : Bytes) :
    (search src imgPattern 0 = .ok none ∧ ∀ s ls ds es, ¬ImageName (src.drop s) ls ds es) ∨
      ∃ s r ls ds es, search src imgPattern 0 = .ok (some (s, r)) ∧
        Leads src (items imgPattern) s [] r ∧ ImageName (src.drop s) ls ds es := by
  have hkind := @search_kind src imgPattern (fun s => ∃ ls ds es, ImageName (src.drop s) ls ds es)
    imgPattern_read.1 (by rw [imgPattern_read.2]; decide) (by rw [imgPattern_read.2]; decide)
    (fun s ⟨ls, ds, es, h⟩ => ⟨_, leads_img h⟩) (fun s r h => imageName_of_some h) ?_
  · rcases hkind with ⟨hnone, hnot⟩ | ⟨s, r, hsearch, hleads, ⟨ls, ds, es, h⟩, -⟩
    · exact .inl ⟨hnone, fun s ls ds es h => hnot s ⟨ls, ds, es, h⟩⟩
    · exact .inr ⟨s, r, ls, ds, es, hsearch, hleads, h⟩
  · rintro s ⟨ls, ds, es, h⟩
    have hlength := h.length
    rw [List.length_drop] at hlength
    omega

/-- Where the name ends in this way, `string.match` finds the digits. -/
theorem ImageName.stringMatch (h : ImageName (src.drop s) ls ds es) :
    LuaPattern.stringMatch src imgPattern = .ok (some [.str ds]) := by
  rcases search_img src with ⟨-, hnot⟩ | ⟨s', r, ls', ds', es', hsearch, hleads, h'⟩
  · exact absurd h (hnot s ls ds es)
  · obtain rfl : s' = s := (imageName_place h').trans (imageName_place h).symm
    have hr : r = imageFound s' := hleads.unique (leads_img h)
    have hdigits : src.drop (s' + 4) = ds ++ 46 :: es := by
      have hline : src.drop (s' + 3) = 95 :: (ds ++ 46 :: es) := by
        rw [← h.letters.1]
        exact drop_append h.split
      exact drop_succ hline
    rw [LuaPattern.stringMatch, hsearch, hr]
    simp only [imageFound, captureValues, captureValue_len hdigits h.digits.1, Except.map]

theorem imageNumber_of_name (h : ImageName (src.drop s) ls ds es) :
    imageNumber src = tonumber (.str ds) := by
  have ht : src.drop (src.length - 12) = ls ++ 95 :: (ds ++ 46 :: es) := by
    rw [← imageName_place h]
    exact h.split
  obtain ⟨-, ⟨hls, hletters⟩, ⟨hds, hdigits⟩, hes, hext⟩ := h
  match ls, ds, es, hls, hds, hes with
  | [a, b, c], [d₁, d₂, d₃, d₄], [e₁, e₂, e₃], _, _, _ =>
    simp only [imageNumber, ht]
    refine if_pos ⟨rfl, ?_, rfl, ?_, rfl, ?_⟩
    · exact List.all_eq_true.mpr hletters
    · exact List.all_eq_true.mpr hdigits
    · exact List.all_eq_true.mpr hext

/-- A name with a number ends in this way. -/
theorem imageName_of_number {name : LuaString} (h : imageNumber name ≠ none) :
    ∃ ls ds es, ImageName (name.drop (name.length - 12)) ls ds es := by
  generalize ht : name.drop (name.length - 12) = t
  simp only [imageNumber, ht] at h
  obtain ⟨hlength, hletters, hline, hdigits, hdot, hext⟩ := of_not_not fun hc => h (if_neg hc)
  refine ⟨t.take 3, (t.drop 4).take 4, t.drop 9, ?_, ⟨by simp [hlength], ?_⟩,
    ⟨by simp [hlength], ?_⟩, by simp [hlength], ?_⟩
  · have hthree : t.drop 3 = 95 :: t.drop 4 := by
      rw [List.drop_eq_getElem_cons (by omega)]
      rw [List.getElem?_eq_getElem (by omega), Option.some.injEq] at hline
      rw [hline]
    have height : t.drop 8 = 46 :: t.drop 9 := by
      rw [List.drop_eq_getElem_cons (by omega)]
      rw [List.getElem?_eq_getElem (by omega), Option.some.injEq] at hdot
      rw [hdot]
    have hfour : t.drop 4 = (t.drop 4).take 4 ++ t.drop 8 := by
      have hsplit := (List.take_append_drop 4 (t.drop 4)).symm
      rwa [List.drop_drop] at hsplit
    rw [← height, ← hfour, ← hthree, List.take_append_drop]
  · exact List.all_eq_true.mp hletters
  · exact List.all_eq_true.mp hdigits
  · exact List.all_eq_true.mp hext

/-- The number that `string.match` finds in a name, if any. -/
theorem stringMatch_img (name : LuaString) :
    (LuaPattern.stringMatch name imgPattern = .ok none ∧ imageNumber name = none) ∨
      ∃ ds, LuaPattern.stringMatch name imgPattern = .ok (some [.str ds]) ∧
        imageNumber name = tonumber (.str ds) ∧ (tonumber (.str ds)).isSome := by
  by_cases hnumber : imageNumber name = none
  · refine .inl ⟨?_, hnumber⟩
    rcases search_img name with ⟨hsearch, -⟩ | ⟨s, r, ls, ds, es, -, -, h⟩
    · simp only [LuaPattern.stringMatch, hsearch]
    · have hsome := imageNumber_of_name h
      rw [CamClock.tonumber_of_length h.digits.1 h.digits.2, hnumber] at hsome
      cases hsome
  · obtain ⟨ls, ds, es, h⟩ := imageName_of_number hnumber
    refine .inr ⟨ds, h.stringMatch, imageNumber_of_name h, ?_⟩
    rw [CamClock.tonumber_of_length h.digits.1 h.digits.2]
    rfl

end Image

/-! ## What is kept -/

section Keeps

variable {opts : ImgOpts} {cur : Cur}

/-- The pattern that is made of the name finds this number in the full path, or none. -/
def Finds (name full : LuaString) (number : Option Int) : Prop :=
  stringMatch full (dirPattern ++ name) = .ok none ∧ number = none ∨
    ∃ vs n, stringMatch full (dirPattern ++ name) = .ok (some vs) ∧
      vs.head?.bind tonumber = some n ∧ number = some n

/-- The numbers of an item are read as they are meant, and what is no file does not have them. -/
def Right (opts : ImgOpts) (cur : Cur) : Prop :=
  match cur.name with
  | none => opts.imgnum.given = false ∧ opts.dirnum.given = false ∧ cur.st = .file
  | some name => opts.imgnum.fits (imageNumber name) = true →
    if opts.dirnum.given then
      ∃ number, Finds name cur.full number ∧ (opts.dirnum.fits number = true ↔
        cur.st = .file ∧ opts.dirnum.fits (parentNumber cur.full) = true)
    else cur.st = .file

theorem fits_of_not_given {r : Range} (h : r.given = false) (n : Option Int) :
    r.fits n = true := by
  rw [Range.fits, h]
  rfl

theorem fits_some {r : Range} (h : r.given = true) (n : Int) : r.fits (some n) = r.has n := by
  rw [Range.fits, h]
  rfl

theorem fits_none {r : Range} (h : r.given = true) : r.fits none = false := by
  rw [Range.fits, h]
  rfl

theorem inRange_of_not_given {r : Range} (h : r.given = false)
    (found : Except String (Option (List Value))) : inRange r found = .ok true := by
  rw [inRange.eq_def, if_neg (by simp [h])]

/-- The image number is read as it is meant. -/
theorem inRange_img (r : Range) {name : LuaString} (hname : cur.name = some name) :
    inRange r (imgnumMatch cur) = .ok (r.fits (imageNumber name)) := by
  cases hgiven : r.given with
  | false => rw [inRange_of_not_given hgiven, fits_of_not_given hgiven]
  | true =>
    rw [inRange.eq_def, if_pos hgiven, imgnumMatch, hname]
    dsimp only
    rcases stringMatch_img name with ⟨hmatch, hnumber⟩ | ⟨ds, hmatch, hnumber, hsome⟩
    · rw [hmatch, hnumber, fits_none hgiven]
    · obtain ⟨n, hn⟩ := Option.isSome_iff_exists.mp hsome
      rw [hmatch, hnumber, hn, fits_some hgiven]
      simp only [List.head?_cons, Option.bind_some, hn]

/-- The directory's number is what the pattern finds. -/
theorem inRange_dir {r : Range} (hgiven : r.given = true) {name : LuaString}
    (hname : cur.name = some name) (keep : Bool) :
    inRange r (dirnumMatch cur) = .ok keep ↔
      ∃ number, Finds name cur.full number ∧ r.fits number = keep := by
  rw [inRange.eq_def, if_pos hgiven, dirnumMatch, hname]
  dsimp only
  cases hmatch : stringMatch cur.full (dirPattern ++ name) with
  | error msg =>
    refine iff_of_false (fun h => by cases h) ?_
    rintro ⟨number, ⟨hnone, -⟩ | ⟨vs, n, hsome, -⟩, -⟩
    · rw [hmatch] at hnone
      cases hnone
    · rw [hmatch] at hsome
      cases hsome
  | ok found =>
    cases found with
    | none =>
      constructor
      · rintro h
        exact ⟨none, .inl ⟨hmatch, rfl⟩, (fits_none hgiven).trans (Except.ok.inj h)⟩
      · rintro ⟨number, ⟨-, rfl⟩ | ⟨vs, n, hsome, -⟩, hkeep⟩
        · rw [← hkeep, fits_none hgiven]
        · rw [hmatch] at hsome
          cases hsome
    | some vs =>
      dsimp only
      constructor
      · intro h
        split at h
        · next n hn =>
          exact ⟨some n, .inr ⟨vs, n, hmatch, hn, rfl⟩, (fits_some hgiven n).trans
            (Except.ok.inj h)⟩
        · cases h
      · rintro ⟨number, ⟨hnone, -⟩ | ⟨vs', n, hsome, hn, rfl⟩, hkeep⟩
        · rw [hmatch] at hnone
          cases hnone
        · rw [hmatch] at hsome
          cases hsome
          rw [hn, ← hkeep, fits_some hgiven]

/-- The numbers of a file that are asked for. -/
def numbersFit (opts : ImgOpts) (cur : Cur) : Bool :=
  cur.st = .file ∧ opts.imgnum.fits (cur.name.bind imageNumber) ∧
    opts.dirnum.fits (parentNumber cur.full)

/-- What is kept is what is asked for, exactly where the numbers are read as they are meant. -/
theorem keeps_iff (opts : ImgOpts) (cur : Cur) :
    keeps opts cur = .ok (numbersFit opts cur) ↔ Right opts cur := by
  rw [keeps, Right, numbersFit]
  cases hname : cur.name with
  | none =>
    have himg : imgnumMatch cur = .error nilMatch := by rw [imgnumMatch, hname]
    have hdir : dirnumMatch cur = .error noConcat := by rw [dirnumMatch, hname]
    cases himgGiven : opts.imgnum.given with
    | true => simp [inRange, himg, himgGiven]
    | false =>
      rw [inRange_of_not_given himgGiven]
      cases hdirGiven : opts.dirnum.given with
      | true => simp [inRange, hdir, hdirGiven]
      | false =>
        simp [inRange_of_not_given hdirGiven, fits_of_not_given himgGiven,
          fits_of_not_given hdirGiven]
  | some name =>
    rw [inRange_img opts.imgnum hname, Option.bind_some]
    cases hfits : opts.imgnum.fits (imageNumber name) with
    | false => simp [hfits]
    | true =>
      dsimp only
      cases hgiven : opts.dirnum.given with
      | false => simp [inRange_of_not_given hgiven, fits_of_not_given hgiven, hfits]
      | true =>
        rw [inRange_dir hgiven hname]
        simp only [hfits, if_true, forall_const]
        refine exists_congr fun number => and_congr_right fun _ => ?_
        rw [Bool.eq_iff_iff, decide_eq_true_iff]
        simp

end Keeps

/-! ## What is sent -/

section Sent

/-- All that there is below a start path. -/
def everything (fs : CamFs) (opts : FindOpts) (start : LuaString) : Walk LuaString :=
  { walkFrom fs opts start with
    enters := fun names => kindAt fs start names = .directory }

/-- At and below a start path a directory can be listed, and what is listed are different names
that can be found. -/
structure Whole (fs : CamFs) (opts : FindOpts) (start : LuaString) : Prop where
  listed : ∀ names, (everything fs opts start).Reaches [] names →
    fs.stat (fullOf start names) = .ok .directory →
    ∃ inside, entries fs opts (fullOf start names) = .ok inside ∧ inside.Nodup ∧
      ∀ n ∈ inside, FsUtil.isName false n = true ∧
        ∃ st, fs.stat (fullOf start (names ++ [n])) = .ok st

/-- A file that is asked for. -/
def wanted (opts : ImgOpts) (cur : Cur) : Bool :=
  checkMatch opts.find cur && numbersFit opts cur

/-- What is sent is kept. -/
def keepSent (cur : Cur) : EStateM Fault (List Cur) PUnit := fun sent => .ok ⟨⟩ (sent ++ [cur])

/-- These are the files that are asked for below the start paths, and nothing else. -/
def Exactly (fs : CamFs) (opts : ImgOpts) (sent : List Cur) : Prop :=
  ∀ cur, cur ∈ sent ↔ ∃ start ∈ startPaths opts, ∃ names,
    (everything fs opts.find start).Reaches [] names ∧ cur = curAt fs start names ∧
      wanted opts cur = true

/-- What is sent are the files that are asked for. -/
def SendsExactly (cam : ImgCam) (fs : CamFs) (opts : ImgOpts) : Prop :=
  ∃ sent, ffImglist cam fs opts keepSent (pure ⟨⟩) [] = .ok ⟨⟩ sent ∧
    Exactly fs (lastOpts cam opts) sent

variable {fs : CamFs} {opts : ImgOpts} {start : LuaString} {names : List LuaString} {cur : Cur}

theorem reaches_everything {find : FindOpts} (h : (walkFrom fs find start).Reaches [] names) :
    (everything fs find start).Reaches [] names := by
  induction h with
  | here => exact .here
  | @step above n _ henters hn ih =>
    have hdir : (everything fs find start).enters above = true := by
      refine decide_eq_true ?_
      rw [kindAt, enters_directory henters]
    exact .step ih hdir hn

theorem Whole.present {find : FindOpts} (h : Whole fs find start)
    (hfound : ∃ st, fs.stat start = .ok st) : Present fs find start where
  found := hfound
  listed names hreach := h.listed names (reaches_everything hreach)

theorem Whole.isName {find : FindOpts} (h : Whole fs find start)
    (hreach : (everything fs find start).Reaches [] names) :
    ∀ n ∈ names, FsUtil.isName false n = true := by
  induction hreach with
  | here => exact fun n hn => absurd hn List.not_mem_nil
  | @step above n hup henters hn ih =>
    have hkind : kindAt fs start above = .directory := of_decide_eq_true henters
    have hdir : fs.stat (fullOf start above) = .ok .directory := by
      rw [kindAt] at hkind
      split at hkind
      · next st hst => rw [hst, hkind]
      · cases hkind
    obtain ⟨inside, hinside, -, hchildren⟩ := h.listed above hup hdir
    obtain hn : n ∈ namesAt fs find start above := hn
    rw [namesAt, hinside] at hn
    intro m hm
    rcases List.mem_append.mp hm with hm | hm
    · exact ih m hm
    · rw [List.mem_singleton.mp hm]
      exact (hchildren n hn).1

/-- Whether an item is kept, where start paths that are directories are not. -/
def itemKeeps (opts : ImgOpts) (cur : Cur) : Except String Bool :=
  if cur.path.length ≤ 1 ∧ cur.st = .directory then .ok false else keeps opts cur

def isKept (opts : ImgOpts) (cur : Cur) : Bool :=
  match itemKeeps opts cur with
  | .ok keep => keep
  | .error _ => false

theorem ffImglistFn_eq (opts : ImgOpts) (cur : Cur) (sent : List Cur) :
    ffImglistFn opts keepSent ⟨cur, cur.path.dropLast⟩ sent =
      match itemKeeps opts cur with
      | .error msg => .error (.raised (bytes msg.toList)) sent
      | .ok keep => .ok ⟨⟩ (if keep then sent ++ [cur] else sent) := by
  have hdepth : cur.path.dropLast.length = 0 ↔ cur.path.length ≤ 1 := by
    rw [List.length_dropLast]
    omega
  rw [ffImglistFn, itemKeeps]
  by_cases hstart : cur.path.length ≤ 1 ∧ cur.st = .directory
  · rw [if_pos hstart, if_pos ⟨hdepth.mpr hstart.1, hstart.2⟩]
    rfl
  · rw [if_neg hstart, if_neg fun h => hstart ⟨hdepth.mp h.1, h.2⟩]
    cases keeps opts cur with
    | error msg => rfl
    | ok keep => cases keep <;> rfl

theorem onItems_sent (opts : ImgOpts) (items sent sent' : List Cur) :
    onItems (ffImglistFn opts keepSent) items sent = .ok ⟨⟩ sent' ↔
      (∀ cur ∈ items, ∃ keep, itemKeeps opts cur = .ok keep) ∧
        sent' = sent ++ items.filter (isKept opts) := by
  induction items generalizing sent with
  | nil =>
    constructor
    · intro h
      cases h
      exact ⟨fun cur hcur => absurd hcur List.not_mem_nil, (List.append_nil _).symm⟩
    · rintro ⟨-, rfl⟩
      rw [List.filter_nil, List.append_nil]
      rfl
  | cons cur items ih =>
    have hcons : onItems (ffImglistFn opts keepSent) (cur :: items) sent =
        (ffImglistFn opts keepSent ⟨cur, cur.path.dropLast⟩ >>= fun _ =>
          onItems (ffImglistFn opts keepSent) items) sent := rfl
    rw [hcons, run_bind, ffImglistFn_eq, List.forall_mem_cons, List.filter_cons, isKept]
    cases itemKeeps opts cur with
    | error msg =>
      refine iff_of_false (fun h => by cases h) ?_
      rintro ⟨⟨⟨keep, hkeep⟩, -⟩, -⟩
      cases hkeep
    | ok keep =>
      dsimp only
      rw [ih]
      cases keep <;> simp

theorem endCallback_pure {walk : EStateM Fault (List Cur) PUnit} {sent sent' : List Cur} :
    endCallback (pure ⟨⟩) walk sent = .ok ⟨⟩ sent' ↔ walk sent = .ok ⟨⟩ sent' := by
  constructor
  · intro h
    cases hwalk : walk sent with
    | ok u d =>
      rw [endCallback, hwalk] at h
      exact h
    | error e d => exact absurd h (endCallback_error hwalk sent')
  · intro h
    rw [endCallback, h]
    rfl

/-- A file that is asked for is none of the directories that are passed over. -/
theorem itemKeeps_eq (hstart : names ≠ [] ∨ kindAt fs start names ≠ .directory)
    (hpath : (curAt fs start names).path = start :: names) :
    itemKeeps opts (curAt fs start names) = keeps opts (curAt fs start names) := by
  refine if_neg fun hskip => ?_
  rw [hpath, List.length_cons] at hskip
  rcases hstart with hne | hkind
  · exact hne (List.eq_nil_of_length_eq_zero (by omega))
  · exact hkind hskip.2

theorem numbersFit_file (h : numbersFit opts cur = true) : cur.st = .file := by
  rw [numbersFit, decide_eq_true_eq] at h
  exact h.1

/-- A file that is asked for and can be reached is an item. -/
theorem wanted_item (hwanted : wanted opts (curAt fs start names) = true)
    (hreach : (walkFrom fs opts.find start).Reaches [] names) :
    names ∈ itemsFrom fs opts.find start := by
  rw [wanted, Bool.and_eq_true] at hwanted
  have hfile := numbersFit_file hwanted.2
  rw [curAt_st] at hfile
  refine mem_itemsFrom.mpr ⟨hreach, takes_iff.mpr ⟨hwanted.1, fun hdir => ?_⟩⟩
  rw [hfile] at hdir
  cases hdir

theorem mem_itemsOf {find : FindOpts} {paths : List LuaString} :
    cur ∈ itemsOf fs find paths ↔
      ∃ start ∈ paths, ∃ names ∈ itemsFrom fs find start, curAt fs start names = cur := by
  simp only [itemsOf, List.mem_flatMap, List.mem_map]

/-- A start path is there, and from it: a directory without a name is not to match, the numbers of
all items are read as they are meant, and all that is asked for can be reached. -/
def Clear (fs : CamFs) (opts : ImgOpts) (start : LuaString) : Prop :=
  (∃ st, fs.stat start = .ok st) ∧ Nameable fs opts.find start ∧
    (∀ names ∈ itemsFrom fs opts.find start,
      names ≠ [] ∨ kindAt fs start names ≠ .directory → Right opts (curAt fs start names)) ∧
    ∀ names, (everything fs opts.find start).Reaches [] names →
      wanted opts (curAt fs start names) = true → (walkFrom fs opts.find start).Reaches [] names

theorem whole_path (hwhole : Whole fs opts.find start)
    (hreach : (everything fs opts.find start).Reaches [] names) :
    (curAt fs start names).path = start :: names :=
  curAt_path (hwhole.isName hreach)

theorem clear_of_sent (hwhole : ∀ start ∈ startPaths opts, Whole fs opts.find start)
    {sent : List Cur} (hexact : Exactly fs opts sent)
    (hsent : findFiles opts.find (ffImglistFn opts keepSent) fs (pure ⟨⟩) (startPaths opts) [] =
      .ok ⟨⟩ sent) : ∀ start ∈ startPaths opts, Clear fs opts start := by
  have hfound : ∀ start ∈ startPaths opts, ∃ st, fs.stat start = .ok st := by
    intro start hmem
    by_contra hnot
    exact findFiles_absent (pure ⟨⟩) ⟨start, hmem, hnot⟩ [] sent hsent
  have hname : ∀ start ∈ startPaths opts, Nameable fs opts.find start := by
    intro start hmem
    by_contra hnot
    exact findFiles_nameless (pure ⟨⟩) ⟨start, hmem, hnot⟩ [] sent hsent
  have hpresent : ∀ start ∈ startPaths opts, Present fs opts.find start := fun start hmem =>
    (hwhole start hmem).present (hfound start hmem)
  rw [findFiles_eq (pure ⟨⟩) hpresent hname, endCallback_pure, onItems_sent,
    List.nil_append] at hsent
  obtain ⟨hkeeps, rfl⟩ := hsent
  intro start hmem
  refine ⟨hfound start hmem, hname start hmem, fun names hnames hstart => ?_,
    fun names hreach hwanted => ?_⟩
  · obtain ⟨hreach, htakes⟩ := mem_itemsFrom.mp hnames
    have hall := reaches_everything hreach
    have hitem : curAt fs start names ∈ itemsOf fs opts.find (startPaths opts) :=
      mem_itemsOf.mpr ⟨start, hmem, names, hnames, rfl⟩
    obtain ⟨keep, hkeep⟩ := hkeeps _ hitem
    have hkeeps := (itemKeeps_eq hstart (whole_path (hwhole start hmem) hall)).symm.trans hkeep
    refine (keeps_iff opts _).mp (hkeeps.trans (congrArg _ ?_))
    rw [Bool.eq_iff_iff]
    constructor
    · rintro rfl
      have hin : curAt fs start names ∈
          (itemsOf fs opts.find (startPaths opts)).filter (isKept opts) :=
        List.mem_filter.mpr ⟨hitem, by rw [isKept, hkeep]⟩
      obtain ⟨_, -, _, -, heq, hwanted⟩ := (hexact _).mp hin
      rw [wanted, Bool.and_eq_true] at hwanted
      exact hwanted.2
    · intro hfit
      have hwanted : wanted opts (curAt fs start names) = true := by
        rw [wanted, Bool.and_eq_true]
        exact ⟨(takes_iff.mp htakes).1, hfit⟩
      have hin := (hexact _).mpr ⟨start, hmem, names, hall, rfl, hwanted⟩
      have hkept := (List.mem_filter.mp hin).2
      rwa [isKept, hkeep] at hkept
  · have hin := (hexact _).mpr ⟨start, hmem, names, hreach, rfl, hwanted⟩
    obtain ⟨start', hmem', names', hnames', heq⟩ := mem_itemsOf.mp (List.mem_filter.mp hin).1
    have hreach' := (mem_itemsFrom.mp hnames').1
    have hpath := congrArg Cur.path heq
    rw [whole_path (hwhole start' hmem') (reaches_everything hreach'),
      whole_path (hwhole start hmem) hreach] at hpath
    obtain ⟨rfl, rfl⟩ := List.cons.inj hpath
    exact hreach'

theorem sent_of_clear (hwhole : ∀ start ∈ startPaths opts, Whole fs opts.find start)
    (hall : ∀ start ∈ startPaths opts, Clear fs opts start) :
    ∃ sent, findFiles opts.find (ffImglistFn opts keepSent) fs (pure ⟨⟩) (startPaths opts) [] =
      .ok ⟨⟩ sent ∧ Exactly fs opts sent := by
  have hpresent : ∀ start ∈ startPaths opts, Present fs opts.find start := fun start hmem =>
    (hwhole start hmem).present (hall start hmem).1
  have hname : ∀ start ∈ startPaths opts, Nameable fs opts.find start := fun start hmem =>
    (hall start hmem).2.1
  have hkeeps : ∀ cur ∈ itemsOf fs opts.find (startPaths opts),
      itemKeeps opts cur = .ok (numbersFit opts cur) := by
    intro cur hcur
    obtain ⟨start, hmem, names, hnames, rfl⟩ := mem_itemsOf.mp hcur
    have hpath := whole_path (hwhole start hmem) (reaches_everything (mem_itemsFrom.mp hnames).1)
    by_cases hstart : names ≠ [] ∨ kindAt fs start names ≠ .directory
    · rw [itemKeeps_eq hstart hpath]
      exact (keeps_iff opts _).mpr ((hall start hmem).2.2.1 names hnames hstart)
    · rw [not_or, not_not, not_not] at hstart
      obtain ⟨rfl, hdir⟩ := hstart
      have hfit : numbersFit opts (curAt fs start []) = false := by
        rw [numbersFit, curAt_st, hdir]
        simp
      rw [hfit]
      exact if_pos ⟨by rw [hpath]; exact Nat.le_refl 1, hdir⟩
  refine ⟨(itemsOf fs opts.find (startPaths opts)).filter (isKept opts), ?_, fun cur => ?_⟩
  · rw [findFiles_eq (pure ⟨⟩) hpresent hname, endCallback_pure, onItems_sent]
    exact ⟨fun cur hcur => ⟨_, hkeeps cur hcur⟩, rfl⟩
  · rw [List.mem_filter]
    constructor
    · rintro ⟨hcur, hkept⟩
      rw [isKept, hkeeps cur hcur] at hkept
      obtain ⟨start, hmem, names, hnames, rfl⟩ := mem_itemsOf.mp hcur
      obtain ⟨hreach, htakes⟩ := mem_itemsFrom.mp hnames
      refine ⟨start, hmem, names, reaches_everything hreach, rfl, ?_⟩
      rw [wanted, Bool.and_eq_true]
      exact ⟨(takes_iff.mp htakes).1, hkept⟩
    · rintro ⟨start, hmem, names, hreach, rfl, hwanted⟩
      have hcur : curAt fs start names ∈ itemsOf fs opts.find (startPaths opts) :=
        mem_itemsOf.mpr ⟨start, hmem, names,
          wanted_item hwanted ((hall start hmem).2.2.2 names hreach hwanted), rfl⟩
      refine ⟨hcur, ?_⟩
      rw [isKept, hkeeps _ hcur]
      rw [wanted, Bool.and_eq_true] at hwanted
      exact hwanted.2

end Sent

/-! ## A name with a hyphen -/

/-- `A/100C` -/
def start100 : LuaString := bytes "A/100C".toList

/-- `A-B.JPG` -/
def hyphenName : LuaString := bytes "A-B.JPG".toList

/-- A card with the file `A/100C/A-B.JPG`. -/
def hyphenCard : CamFs where
  stat path :=
    if path = start100 then .ok .directory
    else if path = FsUtil.joinPart false start100 hyphenName then .ok .file
    else .error []
  listdir path := .ok (if path = start100 then [hyphenName] else [])
  idir := none

/-- All images in directories from this number on. -/
def fromDir (n : Int) : ImgOpts where
  find := { findDefaults with dirs := false }
  imgnum := ⟨none, none⟩
  dirnum := ⟨some n, none⟩
  lastimg := none
  startPaths := some [start100]

def imgCam : ImgCam := ⟨0, start100⟩

theorem whole_hyphenCard (find : FindOpts) : Whole hyphenCard find start100 where
  listed names _ hdir := by
    have hpath : fullOf start100 names = start100 := by
      by_contra hne
      simp only [hyphenCard, if_neg hne] at hdir
      split at hdir
      · cases hdir
      · cases hdir
    have hinside : entries hyphenCard find (fullOf start100 names) = .ok [hyphenName] := by
      rw [hpath]
      rfl
    refine ⟨_, hinside, List.nodup_singleton _, fun n hn => ?_⟩
    rw [List.mem_singleton.mp hn, fullOf_append, hpath]
    exact ⟨rfl, _, rfl⟩

theorem hyphen_reached :
    (walkFrom hyphenCard (fromDir 100).find start100).Reaches [] [hyphenName] :=
  .step .here rfl List.mem_cons_self

end ImgList
