import Chdkptp.LuaPattern
import Chdkptp.RemoteCapture

/-!
# Dates and times of the camera clock

`parse_simple_datetime` reads a date and a time out of two strings. Its patterns are not
anchored: they find the first date and the first time of day in the strings.
-/

namespace CamClock

open LuaPattern RemoteCapture
open LuaText (bytes digitsValue)

/-! ## The functions -/

def badArg (what : String) (arg : Bytes) : LuaError :=
  .thrown (bytes "bad_arg".toList) (bytes what.toList ++ arg)

/-- `{str:match(pattern)}`, where no match leaves the table empty. -/
def captureTable (str pattern : Bytes) : Except LuaError (List Value) :=
  match stringMatch str pattern with
  | .error msg => .error (.text (bytes msg.toList))
  | .ok none => .ok []
  | .ok (some vs) => .ok vs

/-- `tonumber` of a capture, whose text is digits. -/
def tonumber : Value → Option ℤ
  | .str b => (digitsValue 10 b).map fun n => (n : ℤ)
  | .pos n => some n

structure Date where
  year : ℤ
  month : ℤ
  day : ℤ
  deriving DecidableEq

structure Time where
  hour : ℤ
  min : ℤ
  sec : ℤ
  deriving DecidableEq

def datePattern : Bytes := bytes "(%d%d%d%d)[-/](%d%d?)[-/](%d%d?)".toList

def timePattern : Bytes := bytes "(%d%d?):(%d%d):(%d%d)(.*)".toList

def ampmPattern : Bytes := bytes "^[AP]M$".toList

def am : Bytes := bytes "AM".toList

def pm : Bytes := bytes "PM".toList

def parse_simple_date (dstr : Bytes) : Except LuaError Date := do
  let d ← captureTable dstr datePattern
  match d.mapM tonumber with
  | some [year, month, day] =>
    if year < 1970 ∨ year > 2038 then .error (badArg "unsupported year " dstr)
    else if month < 1 ∨ month > 12 then .error (badArg "invalid month " dstr)
    else if day < 1 ∨ day > 31 then .error (badArg "invalid day " dstr)
    else .ok ⟨year, month, day⟩
  | _ => .error (badArg "invalid date " dstr)

/-- The check of what follows the time, which is made upper case unless it is empty. -/
def checkAmpm (tstr : Bytes) : Option Value → Except LuaError (Option Bytes)
  | some (.str (c :: rest)) =>
    match stringMatch (upper (c :: rest)) ampmPattern with
    | .ok (some _) => .ok (some (upper (c :: rest)))
    | _ => .error (badArg "invalid AM/PM spec " tstr)
  | some (.str []) => .ok (some [])
  | _ => .ok none

/-- The hour that goes into the table. -/
def hourOf (ampm : Option Bytes) (hour : ℤ) : ℤ :=
  if ampm = some pm then if hour ≠ 12 then hour + 12 else hour
  else if ampm = some am ∧ hour = 12 then 0
  else hour

def parse_simple_time (tstr : Bytes) : Except LuaError Time := do
  let t ← captureTable tstr timePattern
  let ampm ← checkAmpm tstr t[3]?
  match (t.take 3).mapM tonumber with
  | some [hour, min, sec] =>
    let hour := hourOf ampm hour
    if hour < 0 ∨ hour > 23 then .error (badArg "invalid hour " tstr)
    -- the second comparison is made with the hour
    else if min < 0 ∨ hour > 59 then .error (badArg "invalid minute " tstr)
    else if sec < 0 ∨ sec > 59 then .error (badArg "invalid second " tstr)
    else .ok ⟨hour, min, sec⟩
  | _ => .error (badArg "invalid time " tstr)

/-- The two tables have no key in common. -/
def parse_simple_datetime (dstr tstr : Bytes) : Except LuaError (Date × Time) := do
  let date ← parse_simple_date dstr
  let time ← parse_simple_time tstr
  return (date, time)

example : parse_simple_datetime (bytes "2020/02/03".toList) (bytes "12:34:56PM".toList) =
    .ok (⟨2020, 2, 3⟩, ⟨12, 34, 56⟩) := by decide +kernel

/-! ## Dates and times in a text -/

def digit : Single := .escape 100

def separator : Single := .set false [45, 47]

def colon : Single := .lit 58

/-- `%d%d?` with its group. -/
def shortGroup (its : List Item) : List Item :=
  .openCapture :: .single digit .one :: .single digit .optional :: .closeCapture :: its

/-- So many digits with their group. -/
def longGroup (n : Nat) (its : List Item) : List Item :=
  .openCapture :: (List.replicate n (.single digit .one) ++ .closeCapture :: its)

theorem items_date : items datePattern =
    longGroup 4 (.single separator .one :: shortGroup (.single separator .one :: shortGroup [])) := by
  decide +kernel

theorem items_time : items timePattern =
    shortGroup (.single colon .one :: longGroup 2 (.single colon .one :: longGroup 2
      [.openCapture, .single .any .star, .closeCapture])) := by
  decide +kernel

theorem items_ampm : items ampmPattern.tail =
    [.single (.set false [65, 80]) .one, .single (.lit 77) .one, .eos] := by
  decide +kernel

theorem test_digit (c : UInt8) : Single.test c digit = isDigit c := rfl

/-- One digit or two. -/
structure Short (l : Bytes) : Prop where
  length : l.length = 1 ∨ l.length = 2
  digits : ∀ b ∈ l, isDigit b = true

/-- A text that begins with a date; of two digits for the day both are taken. -/
structure DateText (text ys ms ds post : Bytes) : Prop where
  year : ys.length = 4
  digits : ∀ b ∈ ys, isDigit b = true
  month : Short ms
  day : Short ds
  split : ∃ a b, Single.test a separator = true ∧ Single.test b separator = true ∧
    text = ys ++ a :: (ms ++ b :: (ds ++ post))
  greedy : ds.length = 2 ∨ ∀ b rest, post = b :: rest → isDigit b = false

/-- A text that begins with a time, and what follows it. -/
structure TimeText (text hs ms ss post : Bytes) : Prop where
  hour : Short hs
  min : ms.length = 2
  minDigits : ∀ b ∈ ms, isDigit b = true
  sec : ss.length = 2
  secDigits : ∀ b ∈ ss, isDigit b = true
  split : text = hs ++ 58 :: (ms ++ 58 :: (ss ++ post))

section Groups

variable {src : Bytes} {its : List Item} {depth s : Nat} {caps : List Capture} {r : Found}
  {l text : Bytes}

theorem leads_short (hl : Short l) (h : src.drop s = l ++ text)
    (hnext : l.length = 2 ∨ ∀ b rest, text = b :: rest → isDigit b = false)
    (hroom : caps.length < maxCaptures)
    (hrest : Leads src its (s + l.length) (caps ++ [⟨s, .len l.length⟩]) r) :
    Leads src (shortGroup its) s caps r := by
  apply leads_open hroom
  have hclose : Leads src (.closeCapture :: its) (s + l.length) (caps ++ [⟨s, .unfinished⟩]) r := by
    apply leads_close
    rwa [Nat.add_sub_cancel_left]
  match l with
  | [] => exact absurd hl.length (by decide)
  | [a] =>
    apply leads_one h ((test_digit a).trans (hl.digits a List.mem_cons_self))
    apply leads_skip _ hclose
    intro b rest hb
    have htext := (drop_succ h).symm.trans hb
    obtain hlen | hnot := hnext
    · cases hlen
    · exact (test_digit b).trans (hnot b rest htext)
  | [a, b] =>
    apply leads_one h ((test_digit a).trans (hl.digits a List.mem_cons_self))
    exact leads_take (drop_succ h) ((test_digit b).trans (hl.digits b (by simp))) hclose
  | a :: b :: c :: l =>
    have hlen := hl.length
    simp at hlen

/-- What a group for one or two digits takes; at the end of the pattern it takes two if it
can. -/
theorem matchItems_short_some (h : matchItems src (shortGroup its) depth s caps = .ok (some r)) :
    ∃ l, Short l ∧ src.drop s = l ++ src.drop (s + l.length) ∧
      (∃ depth' caps', matchItems src its depth' (s + l.length) caps' = .ok (some r)) ∧
      (its = [] → l.length = 2 ∨
        ∀ b rest, src.drop (s + l.length) = b :: rest → isDigit b = false) := by
  obtain ⟨d1, caps1, h⟩ := matchItems_open_some h
  obtain ⟨a, text, ha, hdigit, htext, h⟩ := matchItems_one_some h
  rw [test_digit] at hdigit
  obtain ⟨b, text', hb, hdigit', htext', d2, h⟩ | ⟨h, hgreedy⟩ := matchItems_optional_some h
  · rw [test_digit] at hdigit'
    obtain ⟨d3, caps3, h⟩ := matchItems_close_some h
    refine ⟨[a, b], ⟨Or.inr rfl, by simpa using ⟨hdigit, hdigit'⟩⟩, ?_, ⟨d3, caps3, h⟩,
      fun _ => Or.inl rfl⟩
    rw [ha, ← htext, hb, ← htext']
    rfl
  · obtain ⟨d3, caps3, h⟩ := matchItems_close_some h
    refine ⟨[a], ⟨Or.inl rfl, by simpa using hdigit⟩, ?_, ⟨d3, caps3, h⟩, ?_⟩
    · rw [ha, ← htext]
      rfl
    · rintro rfl
      refine Or.inr fun b rest hb => ?_
      by_contra hdigit'
      obtain ⟨d4, hnone⟩ := hgreedy b rest hb ((test_digit b).trans (by simpa using hdigit'))
      rw [matchItems] at hnone
      split at hnone
      · cases hnone
      · cases d4 with
        | zero => cases hnone
        | succ d4 => cases hnone

theorem leads_long {n : Nat} (hn : l.length = n) (hl : ∀ b ∈ l, isDigit b = true)
    (h : src.drop s = l ++ text) (hroom : caps.length < maxCaptures)
    (hrest : Leads src its (s + n) (caps ++ [⟨s, .len n⟩]) r) :
    Leads src (longGroup n its) s caps r := by
  subst hn
  apply leads_open hroom
  apply leads_ones h fun b hb => (test_digit b).trans (hl b hb)
  apply leads_close
  rwa [Nat.add_sub_cancel_left]

theorem matchItems_long_some {n : Nat}
    (h : matchItems src (longGroup n its) depth s caps = .ok (some r)) :
    ∃ l, l.length = n ∧ (∀ b ∈ l, isDigit b = true) ∧ src.drop s = l ++ src.drop (s + n) ∧
      ∃ depth' caps', matchItems src its depth' (s + n) caps' = .ok (some r) := by
  obtain ⟨d1, caps1, h⟩ := matchItems_open_some h
  obtain ⟨l, hlen, hl, hsplit, h⟩ := matchItems_ones_some n h
  exact ⟨l, hlen, fun b hb => (test_digit b).symm.trans (hl b hb), hsplit, matchItems_close_some h⟩

end Groups

/-! ## What the patterns find -/

section Patterns

variable {src ys hs ms ds ss post : Bytes} {s depth : Nat} {caps : List Capture} {r : Found}

theorem separator_not_digit {b : UInt8} (h : Single.test b separator = true) :
    isDigit b = false := by
  have hb : 45 = b ∨ 47 = b := by simpa [Single.test, separator, matchSet] using h
  obtain rfl | rfl := hb <;> decide

/-- Where the parts of a date are. -/
def dateFound (s : Nat) (ms ds : Bytes) : Found :=
  (s + 4 + 1 + ms.length + 1 + ds.length,
    [⟨s, .len 4⟩, ⟨s + 4 + 1, .len ms.length⟩, ⟨s + 4 + 1 + ms.length + 1, .len ds.length⟩])

theorem leads_date (h : DateText (src.drop s) ys ms ds post) :
    Leads src (items datePattern) s [] (dateFound s ms ds) := by
  obtain ⟨a, b, ha, hb, hsplit⟩ := h.split
  have hms := drop_append hsplit
  rw [h.year] at hms
  have hds := drop_append (drop_succ hms)
  have hpost := drop_succ hds
  rw [items_date]
  apply leads_long h.year h.digits hsplit (by decide)
  apply leads_one hms ha
  apply leads_short h.month (drop_succ hms) _ (by simp [maxCaptures])
  · apply leads_one hds hb
    exact leads_short h.day hpost h.greedy (by simp [maxCaptures]) leads_nil
  · refine Or.inr fun c rest hc => ?_
    cases hc
    exact separator_not_digit hb

theorem dateText_of_some (h : matchItems src (items datePattern) depth s caps = .ok (some r)) :
    ∃ ys ms ds post, DateText (src.drop s) ys ms ds post := by
  rw [items_date] at h
  obtain ⟨ys, hyear, hys, hsplit, d1, caps1, h⟩ := matchItems_long_some h
  obtain ⟨a, text, ha, hsep, htext, h⟩ := matchItems_one_some h
  obtain ⟨ms, hms, hsplit', ⟨d2, caps2, h⟩, -⟩ := matchItems_short_some h
  obtain ⟨b, text', hb, hsep', htext', h⟩ := matchItems_one_some h
  obtain ⟨ds, hds, hsplit'', -, hgreedy⟩ := matchItems_short_some h
  refine ⟨ys, ms, ds, _, hyear, hys, hms, hds, ⟨a, b, hsep, hsep', ?_⟩, hgreedy rfl⟩
  rw [hsplit, ha, ← htext, hsplit', hb, ← htext', hsplit'']

/-- Where the parts of a time are. -/
def timeFound (s : Nat) (hs post : Bytes) : Found :=
  (s + hs.length + 1 + 2 + 1 + 2 + post.length,
    [⟨s, .len hs.length⟩, ⟨s + hs.length + 1, .len 2⟩, ⟨s + hs.length + 1 + 2 + 1, .len 2⟩,
      ⟨s + hs.length + 1 + 2 + 1 + 2, .len post.length⟩])

theorem leads_rest {its : List Item} (h : src.drop s = post) (hroom : caps.length < maxCaptures)
    (hrest : Leads src its (s + post.length) (caps ++ [⟨s, .len post.length⟩]) r) :
    Leads src (.openCapture :: .single .any .star :: .closeCapture :: its) s caps r := by
  have hrun : Run (fun b => Single.test b .any) (src.drop s) post [] :=
    ⟨h.trans (List.append_nil post).symm, fun _ _ => rfl, by simp⟩
  exact leads_run (Or.inl rfl) hrun hroom hrest

theorem leads_time (h : TimeText (src.drop s) hs ms ss post) :
    Leads src (items timePattern) s [] (timeFound s hs post) := by
  have hmin := drop_append h.split
  have hsec := drop_append (drop_succ hmin)
  rw [h.min] at hsec
  have hpost := drop_append (drop_succ hsec)
  rw [h.sec] at hpost
  rw [items_time]
  apply leads_short h.hour h.split _ (by decide)
  · apply leads_one hmin rfl
    apply leads_long h.min h.minDigits (drop_succ hmin) (by simp [maxCaptures])
    apply leads_one hsec rfl
    apply leads_long h.sec h.secDigits (drop_succ hsec) (by simp [maxCaptures])
    exact leads_rest hpost (by simp [maxCaptures]) leads_nil
  · refine Or.inr fun c rest hc => ?_
    cases hc
    rfl

theorem timeText_of_some (h : matchItems src (items timePattern) depth s caps = .ok (some r)) :
    ∃ hs ms ss post, TimeText (src.drop s) hs ms ss post := by
  rw [items_time] at h
  obtain ⟨hs, hhour, hsplit, ⟨d1, caps1, h⟩, -⟩ := matchItems_short_some h
  obtain ⟨a, text, ha, hcolon, htext, h⟩ := matchItems_one_some h
  obtain ⟨ms, hmin, hms, hsplit', d2, caps2, h⟩ := matchItems_long_some h
  obtain ⟨b, text', hb, hcolon', htext', h⟩ := matchItems_one_some h
  obtain ⟨ss, hsec, hss, hsplit'', -⟩ := matchItems_long_some h
  obtain rfl : 58 = a := by simpa [Single.test, colon] using hcolon
  obtain rfl : 58 = b := by simpa [Single.test, colon] using hcolon'
  refine ⟨hs, ms, ss, src.drop (s + hs.length + 1 + 2 + 1 + 2), hhour, hmin, hms, hsec, hss, ?_⟩
  rw [hsplit, ha, ← htext, hsplit', hb, ← htext', hsplit'']

end Patterns

/-! ## The first date and the first time -/

/-- The first date in a string, with its place. -/
structure DateAt (str : Bytes) (s : Nat) (ys ms ds post : Bytes) : Prop where
  here : DateText (str.drop s) ys ms ds post
  first : ∀ k, k < s → ¬∃ ys ms ds post, DateText (str.drop k) ys ms ds post

/-- The first time in a string, with its place. -/
structure TimeAt (str : Bytes) (s : Nat) (hs ms ss post : Bytes) : Prop where
  here : TimeText (str.drop s) hs ms ss post
  first : ∀ k, k < s → ¬∃ hs ms ss post, TimeText (str.drop k) hs ms ss post

section First

variable {str : Bytes}

theorem DateText.ne_nil {text ys ms ds post : Bytes} (h : DateText text ys ms ds post) :
    text ≠ [] := by
  obtain ⟨a, b, -, -, hsplit⟩ := h.split
  rw [hsplit]
  simp

theorem TimeText.ne_nil {text hs ms ss post : Bytes} (h : TimeText text hs ms ss post) :
    text ≠ [] := by
  rw [h.split]
  simp

theorem date_captures {s : Nat} {ys ms ds post : Bytes} (h : DateText (str.drop s) ys ms ds post) :
    captureValues str (dateFound s ms ds).2 = .ok [.str ys, .str ms, .str ds] := by
  obtain ⟨a, b, -, -, hsplit⟩ := h.split
  have hms := drop_append hsplit
  rw [h.year] at hms
  have hds := drop_append (drop_succ hms)
  simp only [dateFound, captureValues, captureValue_len hsplit h.year,
    captureValue_len (drop_succ hms) rfl, captureValue_len (drop_succ hds) rfl, Except.map]

theorem time_captures {s : Nat} {hs ms ss post : Bytes} (h : TimeText (str.drop s) hs ms ss post) :
    captureValues str (timeFound s hs post).2 = .ok [.str hs, .str ms, .str ss, .str post] := by
  have hmin := drop_append h.split
  have hsec := drop_append (drop_succ hmin)
  rw [h.min] at hsec
  have hpost := drop_append (drop_succ hsec)
  rw [h.sec] at hpost
  have hpost' : str.drop (s + hs.length + 1 + 2 + 1 + 2) = post ++ [] := by
    rw [hpost, List.append_nil]
  simp only [timeFound, captureValues, captureValue_len h.split rfl,
    captureValue_len (drop_succ hmin) h.min, captureValue_len (drop_succ hsec) h.sec,
    captureValue_len hpost' rfl, Except.map]

/-- What the match for a date gives. -/
theorem captureTable_date (str : Bytes) :
    (captureTable str datePattern = .ok [] ∧ ∀ s ys ms ds post, ¬DateAt str s ys ms ds post) ∨
      ∃ s ys ms ds post, DateAt str s ys ms ds post ∧
        captureTable str datePattern = .ok [.str ys, .str ms, .str ds] := by
  have hkind := @search_kind str datePattern
    (fun s => ∃ ys ms ds post, DateText (str.drop s) ys ms ds post) (by decide +kernel)
    (by rw [items_date]; simp [Grouped, longGroup, shortGroup])
    (by rw [items_date]; decide)
    (fun s => by
      rintro ⟨ys, ms, ds, post, h⟩
      exact ⟨_, leads_date h⟩)
    (fun s r h => dateText_of_some h)
    (fun s => by
      rintro ⟨ys, ms, ds, post, h⟩
      by_contra hlt
      exact h.ne_nil (List.drop_eq_nil_of_le (by omega)))
  obtain ⟨hsearch, hnone⟩ | ⟨s, r, hsearch, hr, ⟨ys, ms, ds, post, h⟩, hfirst⟩ := hkind
  · refine Or.inl ⟨?_, fun s ys ms ds post h => hnone s ⟨ys, ms, ds, post, h.here⟩⟩
    simp only [captureTable, stringMatch, hsearch]
  · refine Or.inr ⟨s, ys, ms, ds, post, ⟨h, hfirst⟩, ?_⟩
    have hcaps := date_captures h
    obtain rfl := hr.unique (leads_date h)
    simp only [captureTable, stringMatch, hsearch, dateFound] at hcaps ⊢
    rw [hcaps]
    rfl

/-- What the match for a time gives. -/
theorem captureTable_time (str : Bytes) :
    (captureTable str timePattern = .ok [] ∧ ∀ s hs ms ss post, ¬TimeAt str s hs ms ss post) ∨
      ∃ s hs ms ss post, TimeAt str s hs ms ss post ∧
        captureTable str timePattern = .ok [.str hs, .str ms, .str ss, .str post] := by
  have hkind := @search_kind str timePattern
    (fun s => ∃ hs ms ss post, TimeText (str.drop s) hs ms ss post) (by decide +kernel)
    (by rw [items_time]; simp [Grouped, longGroup, shortGroup])
    (by rw [items_time]; decide)
    (fun s => by
      rintro ⟨hs, ms, ss, post, h⟩
      exact ⟨_, leads_time h⟩)
    (fun s r h => timeText_of_some h)
    (fun s => by
      rintro ⟨hs, ms, ss, post, h⟩
      by_contra hlt
      exact h.ne_nil (List.drop_eq_nil_of_le (by omega)))
  obtain ⟨hsearch, hnone⟩ | ⟨s, r, hsearch, hr, ⟨hs, ms, ss, post, h⟩, hfirst⟩ := hkind
  · refine Or.inl ⟨?_, fun s hs ms ss post h => hnone s ⟨hs, ms, ss, post, h.here⟩⟩
    simp only [captureTable, stringMatch, hsearch]
  · refine Or.inr ⟨s, hs, ms, ss, post, ⟨h, hfirst⟩, ?_⟩
    have hcaps := time_captures h
    obtain rfl := hr.unique (leads_time h)
    simp only [captureTable, stringMatch, hsearch, timeFound] at hcaps ⊢
    rw [hcaps]
    rfl

end First

/-! ## The parts are determined -/

section Unique

variable {text str ys ms ds post ys' ms' ds' post' : Bytes} {s s' : Nat}

theorem DateText.unique (h : DateText text ys ms ds post) (h' : DateText text ys' ms' ds' post') :
    ys = ys' ∧ ms = ms' ∧ ds = ds' ∧ post = post' := by
  have hfound := (@leads_date text _ _ _ _ 0 h).unique (@leads_date text _ _ _ _ 0 h')
  have hms : ms.length = ms'.length := by
    simp only [dateFound, Prod.mk.injEq, List.cons.injEq, Capture.mk.injEq, CapLen.len.injEq]
      at hfound
    exact hfound.2.2.1.2
  have hds : ds.length = ds'.length := by
    simp only [dateFound, Prod.mk.injEq, List.cons.injEq, Capture.mk.injEq, CapLen.len.injEq]
      at hfound
    exact hfound.2.2.2.1.2
  obtain ⟨a, b, -, -, hsplit⟩ := h.split
  obtain ⟨a', b', -, -, hsplit'⟩ := h'.split
  obtain ⟨hy, hrest⟩ := List.append_inj (hsplit.symm.trans hsplit') (h.year.trans h'.year.symm)
  obtain ⟨hm, hrest⟩ := List.append_inj (List.cons.inj hrest).2 hms
  obtain ⟨hd, hp⟩ := List.append_inj (List.cons.inj hrest).2 hds
  exact ⟨hy, hm, hd, hp⟩

theorem DateAt.unique (h : DateAt str s ys ms ds post) (h' : DateAt str s' ys' ms' ds' post') :
    s = s' ∧ ys = ys' ∧ ms = ms' ∧ ds = ds' ∧ post = post' := by
  obtain hlt | rfl | hlt := Nat.lt_trichotomy s s'
  · exact absurd ⟨ys, ms, ds, post, h.here⟩ (h'.first s hlt)
  · exact ⟨rfl, h.here.unique h'.here⟩
  · exact absurd ⟨ys', ms', ds', post', h'.here⟩ (h.first s' hlt)

variable {hs ss hs' ss' : Bytes}

theorem TimeText.unique (h : TimeText text hs ms ss post) (h' : TimeText text hs' ms' ss' post') :
    hs = hs' ∧ ms = ms' ∧ ss = ss' ∧ post = post' := by
  have hfound := (@leads_time text _ _ _ _ 0 h).unique (@leads_time text _ _ _ _ 0 h')
  have hhs : hs.length = hs'.length := by
    simp only [timeFound, Prod.mk.injEq, List.cons.injEq, Capture.mk.injEq, CapLen.len.injEq]
      at hfound
    exact hfound.2.1.2
  obtain ⟨hh, hrest⟩ := List.append_inj (h.split.symm.trans h'.split) hhs
  obtain ⟨hm, hrest⟩ := List.append_inj (List.cons.inj hrest).2 (h.min.trans h'.min.symm)
  obtain ⟨hsec, hp⟩ := List.append_inj (List.cons.inj hrest).2 (h.sec.trans h'.sec.symm)
  exact ⟨hh, hm, hsec, hp⟩

theorem TimeAt.unique (h : TimeAt str s hs ms ss post) (h' : TimeAt str s' hs' ms' ss' post') :
    s = s' ∧ hs = hs' ∧ ms = ms' ∧ ss = ss' ∧ post = post' := by
  obtain hlt | rfl | hlt := Nat.lt_trichotomy s s'
  · exact absurd ⟨hs, ms, ss, post, h.here⟩ (h'.first s hlt)
  · exact ⟨rfl, h.here.unique h'.here⟩
  · exact absurd ⟨hs', ms', ss', post', h'.here⟩ (h.first s' hlt)

end Unique

/-! ## What the functions return -/

/-- The number that digits stand for. -/
def number (l : Bytes) : ℤ := ((digitsValue 10 l).getD 0 : Nat)

theorem tonumber_digits {l : Bytes} (hne : l ≠ []) (hl : ∀ b ∈ l, isDigit b = true) :
    tonumber (.str l) = some (number l) := by
  obtain ⟨m, hm⟩ := foldlM_addDigit hl 0
  have hvalue : digitsValue 10 l = some m := by rw [digitsValue, if_neg hne, hm]
  rw [tonumber, number, hvalue]
  rfl

theorem number_nonneg (l : Bytes) : 0 ≤ number l := Int.natCast_nonneg _

theorem Short.tonumber {l : Bytes} (h : Short l) : tonumber (.str l) = some (number l) := by
  apply tonumber_digits _ h.digits
  rintro rfl
  exact absurd h.length (by decide)

theorem tonumber_of_length {l : Bytes} {n : Nat} (h : l.length = n + 1)
    (hl : ∀ b ∈ l, isDigit b = true) : tonumber (.str l) = some (number l) := by
  apply tonumber_digits _ hl
  rintro rfl
  cases h

/-- What the date may be. -/
def DateFits (year month day : ℤ) : Prop :=
  1970 ≤ year ∧ year ≤ 2038 ∧ 1 ≤ month ∧ month ≤ 12 ∧ 1 ≤ day ∧ day ≤ 31

theorem parse_simple_date_ok {dstr : Bytes} {f : Date} : parse_simple_date dstr = .ok f ↔
    ∃ s ys ms ds post, DateAt dstr s ys ms ds post ∧
      DateFits (number ys) (number ms) (number ds) ∧ f = ⟨number ys, number ms, number ds⟩ := by
  obtain ⟨htable, hnone⟩ | ⟨s, ys, ms, ds, post, h, htable⟩ := captureTable_date dstr
  · have herror : parse_simple_date dstr = .error (badArg "invalid date " dstr) := by
      rw [parse_simple_date, htable]
      rfl
    rw [herror]
    constructor
    · intro heq
      cases heq
    · rintro ⟨s, ys, ms, ds, post, h, -⟩
      exact absurd h (hnone s ys ms ds post)
  · have hnumbers : [Value.str ys, .str ms, .str ds].mapM tonumber =
        some [number ys, number ms, number ds] := by
      simp [List.mapM_cons, tonumber_of_length h.here.year h.here.digits, h.here.month.tonumber,
        h.here.day.tonumber]
    have hparse : parse_simple_date dstr =
        if number ys < 1970 ∨ number ys > 2038 then .error (badArg "unsupported year " dstr)
        else if number ms < 1 ∨ number ms > 12 then .error (badArg "invalid month " dstr)
        else if number ds < 1 ∨ number ds > 31 then .error (badArg "invalid day " dstr)
        else .ok ⟨number ys, number ms, number ds⟩ := by
      rw [parse_simple_date, htable]
      simp only [bind, Except.bind, hnumbers]
    rw [hparse]
    constructor
    · intro heq
      split_ifs at heq with hyear hmonth hday
      exact ⟨s, ys, ms, ds, post, h, ⟨by omega, by omega, by omega, by omega, by omega, by omega⟩,
        (Except.ok.inj heq).symm⟩
    · rintro ⟨s', ys', ms', ds', post', h', ⟨h1, h2, h3, h4, h5, h6⟩, rfl⟩
      obtain ⟨-, rfl, rfl, rfl, -⟩ := h.unique h'
      rw [if_neg (by omega), if_neg (by omega), if_neg (by omega)]

/-- What may follow a time. -/
def AmpmText (post : Bytes) : Prop := post = [] ∨ upper post = am ∨ upper post = pm

theorem stringMatch_ampm (str : Bytes) :
    (∃ vs, stringMatch str ampmPattern = .ok (some vs)) ↔ str = am ∨ str = pm := by
  constructor
  · rintro ⟨vs, hvs⟩
    obtain ⟨m, hm⟩ : ∃ m, search str ampmPattern 0 = .ok (some m) := by
      cases hsearch : search str ampmPattern 0 with
      | error msg => simp [stringMatch, hsearch] at hvs
      | ok o =>
        cases o with
        | none => simp [stringMatch, hsearch] at hvs
        | some m => exact ⟨m, rfl⟩
    rw [search, if_pos (by decide +kernel), items_ampm] at hm
    obtain ⟨hmatch, -⟩ := matchAt_ok_some.mp hm
    obtain ⟨a, text, ha, hletter, htext, hmatch⟩ := matchItems_one_some hmatch
    obtain ⟨b, text', hb, hm', htext', hmatch⟩ := matchItems_one_some hmatch
    have hend : 2 = str.length := by
      by_contra hne
      simp [matchItems, hne] at hmatch
    have hnil : text' = [] := by
      rw [← htext', List.drop_eq_nil_of_le (by omega)]
    have hletter' : 65 = a ∨ 80 = a := by simpa [Single.test, matchSet] using hletter
    obtain rfl : 77 = b := by simpa [Single.test] using hm'
    rw [List.drop_zero] at ha
    rw [ha, ← htext, hb, hnil]
    obtain rfl | rfl := hletter'
    · exact Or.inl (by decide +kernel)
    · exact Or.inr (by decide +kernel)
  · rintro (rfl | rfl)
    · exact ⟨[.str am], by decide +kernel⟩
    · exact ⟨[.str pm], by decide +kernel⟩

theorem checkAmpm_ok {tstr post : Bytes} {ampm : Option Bytes} :
    checkAmpm tstr (some (.str post)) = .ok ampm ↔ AmpmText post ∧ ampm = some (upper post) := by
  cases post with
  | nil => simp [checkAmpm, AmpmText, upper, eq_comm]
  | cons c rest =>
    rw [AmpmText, or_iff_right (List.cons_ne_nil c rest), ← stringMatch_ampm]
    rw [checkAmpm]
    split
    · rename_i vs hvs
      rw [and_iff_right ⟨vs, hvs⟩]
      simp [eq_comm]
    · rename_i hno
      constructor
      · intro heq
        cases heq
      · rintro ⟨⟨vs, hvs⟩, -⟩
        exact absurd hvs (hno vs)

/-- A time that is let through, and what becomes of its hour. -/
def TimeFits (hour : ℤ) (sec : ℤ) (post : Bytes) : Prop :=
  AmpmText post ∧ 0 ≤ hourOf (some (upper post)) hour ∧ hourOf (some (upper post)) hour ≤ 23 ∧
    sec ≤ 59

theorem parse_simple_time_ok {tstr : Bytes} {f : Time} : parse_simple_time tstr = .ok f ↔
    ∃ s hs ms ss post, TimeAt tstr s hs ms ss post ∧ TimeFits (number hs) (number ss) post ∧
      f = ⟨hourOf (some (upper post)) (number hs), number ms, number ss⟩ := by
  obtain ⟨htable, hnone⟩ | ⟨s, hs, ms, ss, post, h, htable⟩ := captureTable_time tstr
  · have herror : parse_simple_time tstr = .error (badArg "invalid time " tstr) := by
      rw [parse_simple_time, htable]
      rfl
    rw [herror]
    constructor
    · intro heq
      cases heq
    · rintro ⟨s, hs, ms, ss, post, h, -⟩
      exact absurd h (hnone s hs ms ss post)
  · have hnumbers : [Value.str hs, .str ms, .str ss].mapM tonumber =
        some [number hs, number ms, number ss] := by
      simp [List.mapM_cons, tonumber_of_length h.here.min h.here.minDigits,
        tonumber_of_length h.here.sec h.here.secDigits, h.here.hour.tonumber]
    have hparse : parse_simple_time tstr =
        (checkAmpm tstr (some (.str post))).bind fun ampm =>
          if hourOf ampm (number hs) < 0 ∨ hourOf ampm (number hs) > 23 then
            .error (badArg "invalid hour " tstr)
          else if number ms < 0 ∨ hourOf ampm (number hs) > 59 then
            .error (badArg "invalid minute " tstr)
          else if number ss < 0 ∨ number ss > 59 then .error (badArg "invalid second " tstr)
          else .ok ⟨hourOf ampm (number hs), number ms, number ss⟩ := by
      rw [parse_simple_time, htable]
      have htake : [Value.str hs, .str ms, .str ss, .str post].take 3 =
          [.str hs, .str ms, .str ss] := rfl
      simp only [bind, Except.bind, htake, hnumbers]
      rfl
    have hmin := number_nonneg ms
    have hsec := number_nonneg ss
    rw [hparse]
    constructor
    · intro heq
      cases hcheck : checkAmpm tstr (some (.str post)) with
      | error e => rw [hcheck] at heq; cases heq
      | ok ampm =>
        obtain ⟨hampm, rfl⟩ := checkAmpm_ok.mp hcheck
        simp only [hcheck, Except.bind] at heq
        split_ifs at heq with hhour hminute hsecond
        exact ⟨s, hs, ms, ss, post, h, ⟨hampm, by omega, by omega, by omega⟩,
          (Except.ok.inj heq).symm⟩
    · rintro ⟨s', hs', ms', ss', post', h', ⟨hampm, hlow, hhigh, hsixty⟩, rfl⟩
      obtain ⟨-, rfl, rfl, rfl, rfl⟩ := h.unique h'
      have hcheck := (@checkAmpm_ok tstr post _).mpr ⟨hampm, rfl⟩
      simp only [hcheck, Except.bind]
      rw [if_neg (by omega), if_neg (by omega), if_neg (by omega)]

/-! ## What is written in the strings -/

/-- The usual hour of the day. -/
def ClockHour (post : Bytes) (written hour : ℤ) : Prop :=
  post = [] ∧ hour = written ∨ 1 ≤ written ∧ written ≤ 12 ∧
    (upper post = am ∧ hour = written % 12 ∨ upper post = pm ∧ hour = written % 12 + 12)

/-- The strings are a date and a time, with nothing before or after, and these are theirs. -/
structure Written (dstr tstr : Bytes) (f : Date × Time) : Prop where
  date : ∃ ys ms ds, DateText dstr ys ms ds [] ∧ f.1 = ⟨number ys, number ms, number ds⟩
  time : ∃ hs ms ss post, TimeText tstr hs ms ss post ∧ f.2.min = number ms ∧
    f.2.sec = number ss ∧ ClockHour post (number hs) f.2.hour

theorem clockHour_of_hourOf {post : Bytes} {hour : ℤ} (h : AmpmText post)
    (hclock : post ≠ [] → 1 ≤ hour ∧ hour ≤ 12) :
    ClockHour post hour (hourOf (some (upper post)) hour) := by
  have hne : am ≠ pm := by decide +kernel
  by_cases hnil : post = []
  · subst hnil
    have hpm : some (upper []) ≠ some pm := by decide +kernel
    have ham : some (upper []) ≠ some am := by decide +kernel
    refine Or.inl ⟨rfl, ?_⟩
    rw [hourOf, if_neg hpm, if_neg fun hand => ham hand.1]
  · obtain ⟨hlow, hhigh⟩ := hclock hnil
    refine Or.inr ⟨hlow, hhigh, ?_⟩
    obtain hnil' | ham | hpm := h
    · exact absurd hnil' hnil
    · refine Or.inl ⟨ham, ?_⟩
      rw [ham, hourOf, if_neg fun heq => hne (Option.some.inj heq)]
      split_ifs with htwelve
      · omega
      · have hother : hour ≠ 12 := fun heq => htwelve ⟨rfl, heq⟩
        omega
    · refine Or.inr ⟨hpm, ?_⟩
      rw [hpm, hourOf, if_pos rfl]
      split_ifs with htwelve
      · omega
      · omega

structure InRange (f : Date × Time) : Prop where
  date : DateFits f.1.year f.1.month f.1.day
  hour : 0 ≤ f.2.hour ∧ f.2.hour ≤ 23
  min : 0 ≤ f.2.min ∧ f.2.min ≤ 59
  sec : 0 ≤ f.2.sec ∧ f.2.sec ≤ 59

/-- What is let through, and what is returned then. -/
theorem parse_simple_datetime_ok {dstr tstr : Bytes} {f : Date × Time} :
    parse_simple_datetime dstr tstr = .ok f ↔
      ∃ s ys ms ds post u hs mins ss ap, DateAt dstr s ys ms ds post ∧
        TimeAt tstr u hs mins ss ap ∧ DateFits (number ys) (number ms) (number ds) ∧
        TimeFits (number hs) (number ss) ap ∧ f = (⟨number ys, number ms, number ds⟩,
          ⟨hourOf (some (upper ap)) (number hs), number mins, number ss⟩) := by
  have hboth : parse_simple_datetime dstr tstr = .ok f ↔
      parse_simple_date dstr = .ok f.1 ∧ parse_simple_time tstr = .ok f.2 := by
    rw [parse_simple_datetime]
    cases parse_simple_date dstr with
    | error e => simp [bind, Except.bind]
    | ok date =>
      cases parse_simple_time tstr with
      | error e => simp [bind, Except.bind]
      | ok time => simp [bind, Except.bind, pure, Except.pure, Prod.ext_iff]
  rw [hboth, parse_simple_date_ok, parse_simple_time_ok]
  constructor
  · rintro ⟨⟨s, ys, ms, ds, post, hdate, hd, hf⟩, u, hs, mins, ss, ap, htime, ht, hf'⟩
    exact ⟨s, ys, ms, ds, post, u, hs, mins, ss, ap, hdate, htime, hd, ht, Prod.ext hf hf'⟩
  · rintro ⟨s, ys, ms, ds, post, u, hs, mins, ss, ap, hdate, htime, hd, ht, rfl⟩
    exact ⟨⟨s, ys, ms, ds, post, hdate, hd, rfl⟩, u, hs, mins, ss, ap, htime, ht, rfl⟩

/-- A date and a time that are let through are read as they are written if and only if nothing
stands before or behind the date or before the time, the minutes are less than 60, and an hour
with AM or PM is one of a 12-hour clock. -/
theorem parse_simple_datetime_iff (dstr tstr : Bytes) :
    (∀ f, parse_simple_datetime dstr tstr = .ok f → InRange f ∧ Written dstr tstr f) ↔
      ∀ s ys ms ds post u hs mins ss ap, DateAt dstr s ys ms ds post → TimeAt tstr u hs mins ss ap →
        DateFits (number ys) (number ms) (number ds) → TimeFits (number hs) (number ss) ap →
          s = 0 ∧ post = [] ∧ u = 0 ∧ number mins ≤ 59 ∧
            (ap ≠ [] → 1 ≤ number hs ∧ number hs ≤ 12) := by
  constructor
  · intro hlaw s ys ms ds post u hs mins ss ap hdate htime hd ht
    obtain ⟨hrange, hwritten⟩ := hlaw _ (parse_simple_datetime_ok.mpr
      ⟨s, ys, ms, ds, post, u, hs, mins, ss, ap, hdate, htime, hd, ht, rfl⟩)
    obtain ⟨ys', ms', ds', hdate', -⟩ := hwritten.date
    obtain ⟨hs', mins', ss', ap', htime', -, -, hhour⟩ := hwritten.time
    obtain ⟨rfl, -, -, -, rfl⟩ := hdate.unique
      (⟨hdate', fun k hk => absurd hk (Nat.not_lt_zero k)⟩ : DateAt dstr 0 ys' ms' ds' [])
    obtain ⟨rfl, rfl, rfl, rfl, rfl⟩ := htime.unique
      (⟨htime', fun k hk => absurd hk (Nat.not_lt_zero k)⟩ : TimeAt tstr 0 hs' mins' ss' ap')
    refine ⟨rfl, rfl, rfl, hrange.min.2, fun hne => ?_⟩
    obtain ⟨hnil, -⟩ | ⟨hlow, hhigh, -⟩ := hhour
    · exact absurd hnil hne
    · exact ⟨hlow, hhigh⟩
  · intro hcond f hf
    obtain ⟨s, ys, ms, ds, post, u, hs, mins, ss, ap, hdate, htime, hd, ht, rfl⟩ :=
      parse_simple_datetime_ok.mp hf
    obtain ⟨rfl, rfl, rfl, hmins, hap⟩ := hcond s ys ms ds post u hs mins ss ap hdate htime hd ht
    obtain ⟨hampm, hlow, hhigh, hsec⟩ := ht
    refine ⟨⟨hd, ⟨hlow, hhigh⟩, ⟨number_nonneg mins, hmins⟩, number_nonneg ss, hsec⟩, ?_, ?_⟩
    · exact ⟨ys, ms, ds, hdate.here, rfl⟩
    · refine ⟨hs, mins, ss, ap, htime.here, rfl, rfl, ?_⟩
      exact clockHour_of_hourOf hampm hap

/-- 75 minutes. -/
theorem not_inRange : ¬∀ f, parse_simple_datetime (bytes "2020/01/02".toList)
    (bytes "10:75:00".toList) = .ok f → InRange f ∧
      Written (bytes "2020/01/02".toList) (bytes "10:75:00".toList) f := by
  intro hlaw
  have hrun : parse_simple_datetime (bytes "2020/01/02".toList) (bytes "10:75:00".toList) =
      .ok (⟨2020, 1, 2⟩, ⟨10, 75, 0⟩) := by decide +kernel
  have hmin := (hlaw _ hrun).1.min.2
  exact absurd hmin (by decide)

end CamClock
