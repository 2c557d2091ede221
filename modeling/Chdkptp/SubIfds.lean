import Chdkptp.IfdTree

/-!
# The offsets in SubIFDs

A `SubIFDs` entry holds the offsets of chains of IFDs. `bind_ifds` takes the value of the entry,
and what is a multiple of the size behind it, for these offsets, and never reads them. This is
right for one offset, which stands in the entry itself.
-/

namespace SubIfds

open ByteMemory Lbuf LittleEndian LbufValues DngEntry BindIfds Fuelled IfdWalk IfdTree Relation

/-! ## What the file says -/

/-- The sizes of the types of offsets, BYTE, SHORT, LONG and IFD. -/
def offsetSize : Nat → Option Nat
  | 1 => some 1
  | 3 => some 2
  | 4 => some 4
  | 13 => some 4
  | _ => none

section File

variable (lb : LBuf)

/-- Where the values of an entry stand: few of them in the entry itself. -/
def dataAt (e : Entry) (size : Nat) : Nat :=
  if (headerAt lb.bytes e.off).count * size ≤ 4 then e.off + 8 else (headerAt lb.bytes e.off).valoff

def storedAt (e : Entry) (size i : Nat) : Nat :=
  natOf (slice lb.bytes (dataAt lb e size + i * size) size)

/-- The offsets that are stored in an entry, inside the file. -/
def storedOffsets (e : Entry) : Option (List Nat) :=
  (offsetSize (headerAt lb.bytes e.off).typeId).bind fun size =>
    if dataAt lb e size + (headerAt lb.bytes e.off).count * size ≤ lb.len.toNat then
      some ((List.range (headerAt lb.bytes e.off).count).map (storedAt lb e size))
    else none

/-- The offsets of the chains of an entry as the file has them. -/
def fileLeads (e : Entry) : Option (List Nat) :=
  if tagAt lb e = tagSubIfds then storedOffsets lb e
  else if tagAt lb e = tagExifIfd then
    if (headerAt lb.bytes e.off).count = 1 ∧
        ((headerAt lb.bytes e.off).typeId = 4 ∨ (headerAt lb.bytes e.off).typeId = 13) then
      some [(headerAt lb.bytes e.off).valoff]
    else none
  else some []

/-- Something holds of all IFDs of a chain and of its nested chains. -/
def Everywhere (P : Nat → Prop) : (depth : Nat) → Nat → Prop
  | 0, _ => True
  | depth + 1, off =>
    ∀ ifd, ReflTransGen (Next lb (2 ^ 32) (fileLeads lb) (Whole lb (2 ^ 32) (fileLeads lb) depth))
        off ifd →
      P ifd ∧ ∀ e ∈ entriesAt lb ifd, ∀ offs, fileLeads lb e = some offs →
        ∀ off ∈ offs, Everywhere P depth off

/-- A little endian TIFF file: all its chains end, nested ones so many levels deep at most, and
no tag stands twice in an IFD. -/
structure WellFormed (depth : Nat) : Prop where
  header : TiffHeader lb
  whole : Whole lb (2 ^ 32) (fileLeads lb) depth (ifd0At lb)
  tags : Everywhere lb (fun ifd => ((entriesAt lb ifd).map (tagAt lb)).Nodup) depth (ifd0At lb)

/-- The offsets that are stored are the places that are a multiple of the size behind the value
of the entry, in a type that is known. -/
def DirectEntry (e : Entry) : Prop :=
  (headerAt lb.bytes e.off).count ≠ 0 → (headerAt lb.bytes e.off).typeId ≠ 13 ∧
    ∀ size, offsetSize (headerAt lb.bytes e.off).typeId = some size →
      ∀ i, i < (headerAt lb.bytes e.off).count →
        storedAt lb e size i = (headerAt lb.bytes e.off).valoff + i * size

structure Direct (ifd : Nat) : Prop where
  low : endAt lb ifd < 2 ^ 31
  direct : ∀ e ∈ entriesAt lb ifd, tagAt lb e = tagSubIfds → DirectEntry lb e

end File

/-! ## One entry -/

section Entries

variable {lb : LBuf} {e : Entry} {ifd : Nat}

theorem entry_before_end (he : e ∈ entriesAt lb ifd) : e.off + 12 ≤ endAt lb ifd := by
  obtain ⟨i, hi, rfl⟩ := List.mem_map.mp he
  have hi := List.mem_range.mp hi
  unfold entryAt endAt
  dsimp only
  omega

theorem type_of_offsetSize {id size : Nat} (h : offsetSize id = some size) (hne : id ≠ 13) :
    ∃ t, Entry.typeOfId id = some t ∧ t.elsize = size := by
  unfold offsetSize at h
  split at h
  · exact ⟨_, rfl, Option.some.inj h⟩
  · exact ⟨_, rfl, Option.some.inj h⟩
  · exact ⟨_, rfl, Option.some.inj h⟩
  · exact absurd rfl hne
  · cases h

/-- The walk goes to the offsets that are stored if and only if they are direct. -/
theorem leadsTo_sub_iff (hend : e.off + 12 ≤ lb.len.toNat) (hlow : e.off + 12 < 2 ^ 31)
    (htag : tagAt lb e = tagSubIfds) {offs : List Nat} (hoffs : fileLeads lb e = some offs) :
    leadsTo lb e = some offs ↔ DirectEntry lb e := by
  unfold fileLeads storedOffsets at hoffs
  rw [if_pos htag] at hoffs
  obtain ⟨size, hsize, hoffs⟩ := Option.bind_eq_some_iff.mp hoffs
  split_ifs at hoffs
  cases hoffs
  unfold leadsTo DirectEntry
  rw [if_neg (not_not.mpr ⟨hend, by omega⟩), if_pos htag, if_neg (not_not.mpr (by omega))]
  by_cases hzero : (headerAt lb.bytes e.off).count = 0
  · rw [if_pos hzero, hzero]
    exact iff_of_true rfl fun hne => absurd rfl hne
  · rw [if_neg hzero, if_neg (not_not.mpr (by omega))]
    unfold subOffsets
    by_cases hifd : (headerAt lb.bytes e.off).typeId = 13
    · have hnone : Entry.typeOfId 13 = none := by decide
      rw [hifd, hnone]
      exact iff_of_false (by simp) fun hdirect => (hdirect hzero).1 rfl
    · obtain ⟨t, htype, rfl⟩ := type_of_offsetSize hsize hifd
      rw [htype, Option.map_some, Option.some.injEq, List.map_inj_left]
      constructor
      · intro hall _
        refine ⟨hifd, fun size hsize' i hi => ?_⟩
        cases hsize.symm.trans hsize'
        exact (hall i (List.mem_range.mpr hi)).symm
      · intro hdirect i hi
        exact ((hdirect hzero).2 _ hsize i (List.mem_range.mp hi)).symm

theorem leadsTo_other (hend : e.off + 12 ≤ lb.len.toNat) (hlow : e.off + 12 < 2 ^ 31)
    (htag : tagAt lb e ≠ tagSubIfds) {offs : List Nat} (hoffs : fileLeads lb e = some offs) :
    leadsTo lb e = some offs := by
  unfold fileLeads at hoffs
  rw [if_neg htag] at hoffs
  unfold leadsTo
  rw [if_neg (not_not.mpr ⟨hend, by omega⟩), if_neg htag]
  by_cases hexif : tagAt lb e = tagExifIfd
  · rw [if_pos hexif] at hoffs ⊢
    split_ifs at hoffs with hone
    rw [if_neg (not_not.mpr (by omega)), if_neg (not_not.mpr hone.1),
      if_neg (not_not.mpr (by omega))]
    exact hoffs
  · rw [if_neg hexif] at hoffs ⊢
    exact hoffs

/-- The walk of a whole IFD goes where the file says, if its entries are direct. -/
theorem leadsTo_of_direct {Whole : Nat → Prop}
    (hwhole : IfdWhole lb (2 ^ 32) (fileLeads lb) Whole ifd) (hdirect : Direct lb ifd)
    (he : e ∈ entriesAt lb ifd) {offs : List Nat} (hoffs : fileLeads lb e = some offs) :
    leadsTo lb e = some offs := by
  have hbefore := entry_before_end he
  have hcloses := hwhole.closes.1
  have hlow := hdirect.low
  by_cases htag : tagAt lb e = tagSubIfds
  · exact (leadsTo_sub_iff (by omega) (by omega) htag hoffs).mpr (hdirect.direct e he htag)
  · exact leadsTo_other (by omega) (by omega) htag hoffs

/-- The offsets that are stored are what `getel` returns of the entry. -/
theorem getel_storedAt {t : TagType} {el : Elem} {i : Nat} (h : Located lb e t el)
    (hplain : t.rational = false) (hunsigned : el.signed = false)
    (hi : i < (headerAt lb.bytes e.off).count) (hoff : e.off + 8 < 2 ^ 31)
    (hlow : dataAt lb e t.size + i * t.size < 2 ^ 31) :
    e.getel lb i = .ok [some (.number (storedAt lb e t.size i))] := by
  have hsize := (size_of_elem h.type h.elem).2
  rw [hplain, if_neg Bool.false_ne_true] at hsize
  have hplace : (headerAt lb.bytes e.off).place e.off t + t.size * i =
      dataAt lb e t.size + i * t.size := by
    rw [Nat.mul_comm]
    rfl
  rw [getel_inside h hi, hplace, if_pos ⟨hoff, hlow⟩]
  unfold elementAt valueAt storedAt
  rw [hplain, if_neg Bool.false_ne_true, hplace, hsize]
  simp [decode, hunsigned]

/-- A single LONG stands in the entry itself. -/
theorem directEntry_long (htype : (headerAt lb.bytes e.off).typeId = 4)
    (hone : (headerAt lb.bytes e.off).count = 1) : DirectEntry lb e := by
  intro _
  rw [htype, hone]
  refine ⟨by decide, fun size hsize i hi => ?_⟩
  cases hsize
  cases Nat.lt_one_iff.mp hi
  unfold storedAt dataAt
  rw [hone, if_pos (by decide), Nat.zero_mul, Nat.add_zero, Nat.add_zero]
  rfl

end Entries

/-! ## Chains -/

section Chains

variable {lb : LBuf} {limit off : Nat} {leads : Entry → Option (List Nat)} {Whole : Nat → Prop}

theorem mem_of_reaches {ifds : List Nat} (h : IsChain lb off ifds) {ifd : Nat}
    (hreach : ReflTransGen (Next lb limit leads Whole) off ifd) : ifd ∈ ifds := by
  induction hreach using ReflTransGen.head_induction_on generalizing ifds with
  | refl =>
    cases ifds with
    | nil => exact h.elim
    | cons a ifds =>
      rw [h.1]
      exact List.mem_cons_self
  | head hnext _ ih =>
    obtain ⟨-, hat, hne⟩ := hnext
    cases ifds with
    | nil => exact h.elim
    | cons a ifds =>
      have hrest := h.2
      rw [hat, if_neg hne] at hrest
      exact List.mem_cons_of_mem _ (ih hrest)

/-- The IFDs of a whole chain are reached, and whole. -/
theorem reaches_of_mem {ifds : List Nat} (h : IsChain lb off ifds) {last : Nat}
    (hreach : ReflTransGen (Next lb limit leads Whole) off last)
    (hlast : Last lb limit leads Whole last) {ifd : Nat} (hifd : ifd ∈ ifds) :
    ReflTransGen (Next lb limit leads Whole) off ifd ∧ IfdWhole lb limit leads Whole ifd := by
  induction hreach using ReflTransGen.head_induction_on generalizing ifds with
  | refl =>
    cases ifds with
    | nil => exact h.elim
    | cons a ifds =>
      obtain ⟨rfl, hrest⟩ := h
      rw [if_pos hlast.2] at hrest
      rw [hrest] at hifd
      cases List.mem_singleton.mp hifd
      exact ⟨.refl, hlast.1⟩
  | head hnext _ ih =>
    cases ifds with
    | nil => exact h.elim
    | cons a ifds =>
      obtain ⟨rfl, hrest⟩ := h
      have hat := hnext.2.1
      rw [hat, if_neg hnext.2.2] at hrest
      rcases List.mem_cons.mp hifd with rfl | hifd
      · exact ⟨.refl, hnext.1⟩
      · obtain ⟨hbehind, hwhole⟩ := ih hrest hifd
        exact ⟨hbehind.head hnext, hwhole⟩

theorem isChain_unique {ifds ifds' : List Nat} (h : IsChain lb off ifds)
    (h' : IsChain lb off ifds') : ifds = ifds' := by
  induction ifds generalizing off ifds' with
  | nil => exact h.elim
  | cons a ifds ih =>
    cases ifds' with
    | nil => exact h'.elim
    | cons b ifds' =>
      obtain ⟨rfl, hrest⟩ := h
      obtain ⟨rfl, hrest'⟩ := h'
      by_cases hlast : nextAt lb b = 0
      · rw [if_pos hlast] at hrest hrest'
        rw [hrest, hrest']
      · rw [if_neg hlast] at hrest hrest'
        rw [ih hrest hrest']

/-- Chains that give the same list start at the same offsets. -/
theorem chains_unique {Tree Tree' : Nat → List Ifd → Prop}
    (hTree : ∀ off l, Tree off l → IsChain lb off (l.map Ifd.off))
    (hTree' : ∀ off l, Tree' off l → IsChain lb off (l.map Ifd.off)) {offs offs' : List Nat}
    {chains chains' : List (List Ifd)} (h : List.Forall₂ Tree offs chains)
    (h' : List.Forall₂ Tree' offs' chains') (hflat : chains.flatten = chains'.flatten) :
    offs = offs' ∧ chains = chains' := by
  induction h generalizing offs' chains' with
  | nil =>
    cases h' with
    | nil => exact ⟨rfl, rfl⟩
    | cons htree' _ =>
      have hchain' := hTree' _ _ htree'
      rw [List.flatten_nil, List.flatten_cons] at hflat
      rw [(List.append_eq_nil_iff.mp hflat.symm).1] at hchain'
      exact hchain'.elim
  | @cons off chain offs chains htree _ ih =>
    have hchain := hTree _ _ htree
    cases h' with
    | nil =>
      rw [List.flatten_nil, List.flatten_cons] at hflat
      rw [(List.append_eq_nil_iff.mp hflat).1] at hchain
      exact hchain.elim
    | @cons off' chain' offs' chains' htree' hrest' =>
      have hchain' := hTree' _ _ htree'
      rw [List.flatten_cons, List.flatten_cons] at hflat
      -- the first IFD of the list tells the first offset, and this the first chain
      cases chain with
      | nil => exact hchain.elim
      | cons ifd l =>
        cases chain' with
        | nil => exact hchain'.elim
        | cons ifd' l' =>
          rw [List.cons_append, List.cons_append, List.cons.injEq] at hflat
          have hoff : off = off' := by
            rw [← hchain.1, ← hchain'.1, hflat.1]
          subst hoff
          have hmap := congrArg List.length (isChain_unique hchain hchain')
          rw [List.length_map, List.length_map, List.length_cons, List.length_cons] at hmap
          obtain ⟨hl, hrest⟩ := List.append_inj hflat.2 (Nat.succ.inj hmap)
          obtain ⟨rfl, rfl⟩ := ih hrest' hrest
          rw [hflat.1, hl]
          exact ⟨rfl, rfl⟩

end Chains

/-! ## The walk and the file -/

section Walk

variable {lb : LBuf}

/-- A whole file with direct entries only is walked as it is. -/
theorem whole_of_direct (depth : Nat) (off : Nat) (h : Whole lb (2 ^ 32) (fileLeads lb) depth off)
    (hdirect : Everywhere lb (Direct lb) depth off) :
    Whole lb (2 ^ 31) (leadsTo lb) depth off := by
  induction depth generalizing off with
  | zero => exact h.elim
  | succ depth ih =>
    obtain ⟨last, hreach, hlast, hzero⟩ := h
    have hifd : ∀ ifd,
        ReflTransGen (Next lb (2 ^ 32) (fileLeads lb) (Whole lb (2 ^ 32) (fileLeads lb) depth))
          off ifd →
        IfdWhole lb (2 ^ 32) (fileLeads lb) (Whole lb (2 ^ 32) (fileLeads lb) depth) ifd →
        IfdWhole lb (2 ^ 31) (leadsTo lb) (Whole lb (2 ^ 31) (leadsTo lb) depth) ifd := by
      intro ifd hifd hwhole
      obtain ⟨hhere, hnested⟩ := hdirect ifd hifd
      have hlow := hhere.low
      refine ⟨⟨hwhole.starts.1, ?_⟩, fun e he => ?_, ⟨hwhole.closes.1, hlow⟩⟩
      · unfold endAt at hlow
        omega
      · obtain ⟨offs, hoffs, hall⟩ := hwhole.entries e he
        exact ⟨offs, leadsTo_of_direct hwhole hhere he hoffs,
          fun o ho => ih o (hall o ho) (hnested e he offs hoffs o ho)⟩
    have hwalk : ∀ ifd,
        ReflTransGen (Next lb (2 ^ 32) (fileLeads lb) (Whole lb (2 ^ 32) (fileLeads lb) depth))
          off ifd →
        ReflTransGen (Next lb (2 ^ 31) (leadsTo lb) (Whole lb (2 ^ 31) (leadsTo lb) depth))
          off ifd := by
      intro ifd hreach
      induction hreach with
      | refl => exact .refl
      | tail hbefore hnext ih => exact ih.tail ⟨hifd _ hbefore hnext.1, hnext.2⟩
    exact ⟨last, hwalk last hreach, hifd last hreach hlast, hzero⟩

/-- Then what is bound is what the file says. -/
theorem tree_of_direct (depth : Nat) (off : Nat) (ifds : List Ifd)
    (h : Whole lb (2 ^ 32) (fileLeads lb) depth off)
    (hdirect : Everywhere lb (Direct lb) depth off)
    (htree : IsTree lb (leadsTo lb) depth off ifds) :
    IsTree lb (fileLeads lb) depth off ifds := by
  induction depth generalizing off ifds with
  | zero => exact htree.elim
  | succ depth ih =>
    obtain ⟨last, hreach, hlast⟩ := h
    obtain ⟨hchain, hifds⟩ := htree
    refine ⟨hchain, fun ifd hifd => ?_⟩
    obtain ⟨hwalk, hwhole⟩ := reaches_of_mem hchain hreach hlast (List.mem_map_of_mem hifd)
    obtain ⟨hhere, hnested⟩ := hdirect _ hwalk
    have hchains : ∀ tag l, Chains (leadsTo lb) (IsTree lb (leadsTo lb) depth)
          (lastOf lb tag (entriesAt lb ifd.off)) l →
        Chains (fileLeads lb) (IsTree lb (fileLeads lb) depth)
          (lastOf lb tag (entriesAt lb ifd.off)) l := by
      intro tag l hl
      cases hentry : lastOf lb tag (entriesAt lb ifd.off) with
      | none =>
        rw [hentry] at hl
        exact hl
      | some e =>
        rw [hentry] at hl
        obtain ⟨offs, chains, hoffs, rfl, hall⟩ := hl
        have he : e ∈ entriesAt lb ifd.off := List.mem_reverse.mp (List.mem_of_find?_eq_some hentry)
        obtain ⟨offs', hoffs', hwholes⟩ := hwhole.entries e he
        cases hoffs.symm.trans (leadsTo_of_direct hwhole hhere he hoffs')
        refine ⟨offs, chains, hoffs', rfl, ?_⟩
        have hboth := (List.forall₂_and_left _ _).mpr ⟨fun o (ho : o ∈ offs) => ho, hall⟩
        exact hboth.imp fun o l hol =>
          ih o l (hwholes o hol.1) (hnested e he offs hoffs' o hol.1) hol.2
    exact ⟨(hifds ifd hifd).entries, hchains _ _ (hifds ifd hifd).sub,
      hchains _ _ (hifds ifd hifd).exif⟩

theorem lastOf_nodup {entries : List Entry} (h : (entries.map (tagAt lb)).Nodup) {e : Entry}
    (he : e ∈ entries) : lastOf lb (tagAt lb e) entries = some e := by
  unfold lastOf
  cases hfind : entries.reverse.find? fun e' => decide (tagAt lb e' = tagAt lb e) with
  | none =>
    have hnone := List.find?_eq_none.mp hfind e (List.mem_reverse.mpr he)
    exact absurd (decide_eq_true rfl) hnone
  | some e' =>
    have hmem := List.mem_reverse.mp (List.mem_of_find?_eq_some hfind)
    have htag : tagAt lb e' = tagAt lb e := by simpa using List.find?_some hfind
    rw [List.inj_on_of_nodup_map h hmem he htag]

theorem IsTree.isChain {leads : Entry → Option (List Nat)} {depth off : Nat} {ifds : List Ifd}
    (h : IsTree lb leads depth off ifds) : IsChain lb off (ifds.map Ifd.off) := by
  cases depth with
  | zero => exact h.elim
  | succ depth => exact h.1

theorem forall₂_both {α β : Type} {R S : α → β → Prop} {l : List α} {m : List β}
    (h : List.Forall₂ R l m) (h' : List.Forall₂ S l m) {a : α} (ha : a ∈ l) :
    ∃ b, R a b ∧ S a b := by
  induction h with
  | nil => cases ha
  | cons hab _ ih =>
    cases h' with
    | cons hab' hrest' =>
      rcases List.mem_cons.mp ha with rfl | ha
      · exact ⟨_, hab, hab'⟩
      · exact ih hrest' ha

/-- Two descriptions of the chains of an entry agree in what the entry leads to. -/
theorem chains_agree {leads leads' : Entry → Option (List Nat)} {depth : Nat} {e : Entry}
    {ifds : Option (List Ifd)} (h : Chains leads (IsTree lb leads depth) (some e) ifds)
    (h' : Chains leads' (IsTree lb leads' depth) (some e) ifds) :
    ∃ offs, leads e = some offs ∧ leads' e = some offs ∧
      ∀ off ∈ offs, ∃ l, IsTree lb leads depth off l ∧ IsTree lb leads' depth off l := by
  obtain ⟨offs, chains, hoffs, rfl, hall⟩ := h
  obtain ⟨offs', chains', hoffs', hflat, hall'⟩ := h'
  obtain ⟨rfl, rfl⟩ := chains_unique (fun _ _ => IsTree.isChain) (fun _ _ => IsTree.isChain) hall
    hall' (Option.some.inj hflat)
  exact ⟨offs, hoffs, hoffs', fun off hoff => forall₂_both hall hall' hoff⟩

/-- A tree that is both what the walk and what the file leads to has direct entries only. -/
theorem direct_of_tree (depth : Nat) (off : Nat) (ifds : List Ifd)
    (h : Whole lb (2 ^ 32) (fileLeads lb) depth off)
    (htags : Everywhere lb (fun ifd => ((entriesAt lb ifd).map (tagAt lb)).Nodup) depth off)
    (hwalked : Whole lb (2 ^ 31) (leadsTo lb) depth off)
    (htree : IsTree lb (leadsTo lb) depth off ifds)
    (hfile : IsTree lb (fileLeads lb) depth off ifds) : Everywhere lb (Direct lb) depth off := by
  induction depth generalizing off ifds with
  | zero => exact trivial
  | succ depth ih =>
    obtain ⟨last, hreach, hlast⟩ := h
    obtain ⟨last', hreach', hlast'⟩ := hwalked
    intro place hplace
    obtain ⟨ifd, hifd, rfl⟩ := List.mem_map.mp (mem_of_reaches hfile.1 hplace)
    obtain ⟨hnodup, hnested⟩ := htags _ hplace
    have hwhole := (reaches_of_mem hfile.1 hreach hlast (List.mem_map_of_mem hifd)).2
    have hwhole' := (reaches_of_mem htree.1 hreach' hlast' (List.mem_map_of_mem hifd)).2
    -- an entry that leads to chains leads to the same ones on both ways
    have hagree : ∀ e ∈ entriesAt lb ifd.off, tagAt lb e = tagSubIfds ∨ tagAt lb e = tagExifIfd →
        ∃ offs, leadsTo lb e = some offs ∧ fileLeads lb e = some offs ∧
          ∀ off ∈ offs, ∃ l, IsTree lb (leadsTo lb) depth off l ∧
            IsTree lb (fileLeads lb) depth off l := by
      intro e he htag
      have hlastOf := lastOf_nodup hnodup he
      rcases htag with htag | htag
      · rw [htag] at hlastOf
        have hsub := (htree.2 ifd hifd).sub
        have hsub' := (hfile.2 ifd hifd).sub
        rw [hlastOf] at hsub hsub'
        exact chains_agree hsub hsub'
      · rw [htag] at hlastOf
        have hexif := (htree.2 ifd hifd).exif
        have hexif' := (hfile.2 ifd hifd).exif
        rw [hlastOf] at hexif hexif'
        exact chains_agree hexif hexif'
    refine ⟨⟨hwhole'.closes.2, fun e he htag => ?_⟩, fun e he offs hoffs o ho => ?_⟩
    · obtain ⟨offs, hwalk, hoffs, -⟩ := hagree e he (Or.inl htag)
      have hbefore := entry_before_end he
      have hend := hwhole.closes.1
      have hlow := hwhole'.closes.2
      exact (leadsTo_sub_iff (by omega) (by omega) htag hoffs).mp hwalk
    · by_cases htag : tagAt lb e = tagSubIfds ∨ tagAt lb e = tagExifIfd
      · obtain ⟨offs', hwalk, hoffs', htrees⟩ := hagree e he htag
        cases hoffs.symm.trans hoffs'
        obtain ⟨l, hl, hl'⟩ := htrees o ho
        obtain ⟨offs', hoffs', hwholes⟩ := hwhole.entries e he
        cases hoffs.symm.trans hoffs'
        obtain ⟨offs', hwalk', hwholes'⟩ := hwhole'.entries e he
        cases hwalk.symm.trans hwalk'
        exact ih o l (hwholes o ho) (hnested e he offs hoffs o ho) (hwholes' o ho) hl hl'
      · unfold fileLeads at hoffs
        rw [if_neg fun hsub => htag (Or.inl hsub), if_neg fun hexif => htag (Or.inr hexif)] at hoffs
        cases hoffs
        cases ho

/-- `get_ifd{k, i}` is the IFD at the offset number `i` of the `SubIFDs` of the IFD number `k`,
if these are chains of one. -/
def ByPath (lb : LBuf) (ifds : List Ifd) : Prop :=
  ∀ (k : Nat) (ifd : Ifd), ifds[k]? = some ifd → ∀ e ∈ entriesAt lb ifd.off,
    tagAt lb e = tagSubIfds → ∀ offs, fileLeads lb e = some offs → (∀ o ∈ offs, nextAt lb o = 0) →
      ∀ (i o : Nat), offs[i]? = some o →
        ∃ sub, getIfd ifds [.ifd k, .ifd i] = .ok (some sub) ∧ sub.off = o

/-- Chains of one stand in the list in their order. -/
theorem flatten_single {Tree : Nat → List Ifd → Prop}
    (hTree : ∀ off l, Tree off l → IsChain lb off (l.map Ifd.off)) {offs : List Nat}
    {chains : List (List Ifd)} (h : List.Forall₂ Tree offs chains)
    (hone : ∀ o ∈ offs, nextAt lb o = 0) : chains.flatten.map Ifd.off = offs := by
  induction h with
  | nil => rfl
  | @cons off chain offs chains htree _ ih =>
    have hchain := hTree _ _ htree
    have hsingle : chain.map Ifd.off = [off] := by
      apply isChain_unique hchain
      refine ⟨rfl, ?_⟩
      rw [if_pos (hone off List.mem_cons_self)]
    rw [List.flatten_cons, List.map_append, hsingle,
      ih fun o ho => hone o (List.mem_cons_of_mem _ ho)]
    rfl

theorem getIfd_sub {ifds subs : List Ifd} {ifd sub : Ifd} {k i : Nat} (hifd : ifds[k]? = some ifd)
    (hsubs : ifd.sub = some subs) (hsub : subs[i]? = some sub) :
    getIfd ifds [.ifd k, .ifd i] = .ok (some sub) := by
  unfold getIfd followPath
  rw [hifd]
  dsimp only
  rw [hsubs]
  unfold followPath
  rw [hsub]
  rfl

theorem byPath_of_tree {depth off : Nat} {ifds : List Ifd}
    (htags : Everywhere lb (fun ifd => ((entriesAt lb ifd).map (tagAt lb)).Nodup) depth off)
    (h : Whole lb (2 ^ 32) (fileLeads lb) depth off)
    (htree : IsTree lb (fileLeads lb) depth off ifds) : ByPath lb ifds := by
  cases depth with
  | zero => exact htree.elim
  | succ depth =>
    obtain ⟨last, hreach, hlast⟩ := h
    intro k ifd hifd e he htag offs hoffs hone i o ho
    have hmem := List.mem_of_getElem? hifd
    have hplace := (reaches_of_mem htree.1 hreach hlast (List.mem_map_of_mem hmem)).1
    have hlastOf := lastOf_nodup (htags _ hplace).1 he
    rw [htag] at hlastOf
    have hsub := (htree.2 ifd hmem).sub
    rw [hlastOf] at hsub
    obtain ⟨offs', chains, hoffs', hflat, hall⟩ := hsub
    cases hoffs.symm.trans hoffs'
    have hmap := flatten_single (fun _ _ => IsTree.isChain) hall hone
    rw [← hmap, List.getElem?_map] at ho
    obtain ⟨sub, hsub, rfl⟩ := Option.map_eq_some_iff.mp ho
    exact ⟨sub, getIfd_sub hifd hflat hsub, rfl⟩

end Walk

/-- What is bound is the tree of the file: the chains of each `SubIFDs` entry start with the IFDs
at the offsets that are stored in it. -/
structure BindsFile (lb : LBuf) (calls : Nat) (ifds : List Ifd) : Prop where
  yields : (bindIfds lb calls (ifd0At lb) []).Yields ifds
  tree : IsTree lb (fileLeads lb) calls (ifd0At lb) ifds
  byPath : ByPath lb ifds

theorem direct_of_binds {lb : LBuf} {calls : Nat} (h : WellFormed lb calls) {ifds : List Ifd}
    (hifds : BindsFile lb calls ifds) : Everywhere lb (Direct lb) calls (ifd0At lb) := by
  have hlen : 4 ≤ lb.len.toNat := Nat.le_trans (by decide) h.header.len
  have hwhole := ((bindIfds_binds hlen calls).behaves (ifd0At lb) []).yields.mp ⟨ifds, hifds.yields⟩
  obtain ⟨l, hl, htree⟩ := (bindIfds_grows_tree hlen calls).appends _ _ _ hifds.yields
  rw [List.nil_append] at hl
  rw [← hl] at htree
  exact direct_of_tree calls _ ifds h.whole h.tags hwhole htree hifds.tree

theorem binds_of_direct {lb : LBuf} {calls : Nat} (h : WellFormed lb calls)
    (hdirect : Everywhere lb (Direct lb) calls (ifd0At lb)) : ∃ ifds, BindsFile lb calls ifds := by
  have hlen : 4 ≤ lb.len.toNat := Nat.le_trans (by decide) h.header.len
  have hwhole := whole_of_direct calls _ h.whole hdirect
  obtain ⟨ifds, hifds⟩ := ((bindIfds_binds hlen calls).behaves (ifd0At lb) []).yields.mpr hwhole
  obtain ⟨l, hl, htree⟩ := (bindIfds_grows_tree hlen calls).appends _ _ _ hifds
  rw [List.nil_append] at hl
  rw [← hl] at htree
  have hfile := tree_of_direct calls _ ifds h.whole hdirect htree
  exact ⟨ifds, hifds, hfile, byPath_of_tree h.tags h.whole hfile⟩

/-- For every well formed file: what `bind_ifds` binds is the tree of the file if and only if
the entries of `SubIFDs` are direct and an `int` leads to the IFDs. -/
theorem subIfds_bound_iff (lb : LBuf) (calls : Nat) (h : WellFormed lb calls) :
    (∃ ifds, BindsFile lb calls ifds) ↔ Everywhere lb (Direct lb) calls (ifd0At lb) := by
  constructor
  · rintro ⟨ifds, hifds⟩
    exact direct_of_binds h hifds
  · exact binds_of_direct h

/-- A header, an IFD at 8 with an entry of `SubIFDs`, and an empty IFD at 26. -/
def oneSub : LBuf :=
  ⟨32, fun i => [0x49, 0x49, 42, 0, 8, 0, 0, 0,
    1, 0, 0x4a, 1, 4, 0, 1, 0, 0, 0, 26, 0, 0, 0, 0, 0, 0, 0,
    0, 0, 0, 0, 0, 0].getD i 0⟩

section OneEntry

variable {lb : LBuf} {depth off : Nat}

theorem whole_empty (hentries : entriesAt lb off = []) (hstarts : Readable lb (2 ^ 32) off 2)
    (hcloses : Readable lb (2 ^ 32) (endAt lb off) 4) (hnext : nextAt lb off = 0) :
    Whole lb (2 ^ 32) (fileLeads lb) (depth + 1) off := by
  refine ⟨off, .refl, ⟨hstarts, fun e he => ?_, hcloses⟩, hnext⟩
  rw [hentries] at he
  cases he

/-- A chain of one IFD. -/
theorem reaches_last {Whole : Nat → Prop} {ifd : Nat} (hnext : nextAt lb off = 0)
    (h : ReflTransGen (Next lb (2 ^ 32) (fileLeads lb) Whole) off ifd) : ifd = off := by
  obtain rfl | ⟨_, hstep, -⟩ := ReflTransGen.cases_head h
  · rfl
  · exact absurd hstep.2.1 (by rw [hnext]; exact hstep.2.2.symm)

theorem everywhere_last {P : Nat → Prop} (hnext : nextAt lb off = 0) (hP : P off)
    (hnested : ∀ e ∈ entriesAt lb off, ∀ offs, fileLeads lb e = some offs →
      ∀ off ∈ offs, Everywhere lb P depth off) : Everywhere lb P (depth + 1) off := by
  intro ifd hreach
  cases reaches_last hnext hreach
  exact ⟨hP, hnested⟩

theorem everywhere_empty {P : Nat → Prop} (hentries : entriesAt lb off = [])
    (hnext : nextAt lb off = 0) (hP : P off) : Everywhere lb P (depth + 1) off := by
  apply everywhere_last hnext hP
  intro e he
  rw [hentries] at he
  cases he

end OneEntry

theorem oneSub_entries : entriesAt oneSub 8 = [⟨10⟩] := by decide

theorem oneSub_leads : fileLeads oneSub ⟨10⟩ = some [26] := by decide

theorem oneSub_wellFormed : WellFormed oneSub 2 := by
  have hifd0 : ifd0At oneSub = 8 := by decide
  refine ⟨⟨by decide, by decide, by decide⟩, ?_, ?_⟩
  · rw [hifd0]
    refine ⟨8, .refl, ⟨⟨by decide, by decide⟩, fun e he => ?_, ⟨by decide, by decide⟩⟩, by decide⟩
    rw [oneSub_entries] at he
    cases List.mem_singleton.mp he
    refine ⟨[26], oneSub_leads, fun off hoff => ?_⟩
    cases List.mem_singleton.mp hoff
    exact whole_empty (by decide) ⟨by decide, by decide⟩ ⟨by decide, by decide⟩ (by decide)
  · rw [hifd0]
    apply everywhere_last (by decide) (by decide)
    intro e he offs hoffs off hoff
    rw [oneSub_entries] at he
    cases List.mem_singleton.mp he
    cases oneSub_leads.symm.trans hoffs
    cases List.mem_singleton.mp hoff
    exact everywhere_empty (by decide) (by decide) (by decide)

theorem subIfds_bound_iff_one : WellFormed oneSub 2 ∧ ∃ ifds, BindsFile oneSub 2 ifds := by
  have hifd0 : ifd0At oneSub = 8 := by decide
  refine ⟨oneSub_wellFormed, (subIfds_bound_iff oneSub 2 oneSub_wellFormed).mpr ?_⟩
  rw [hifd0]
  apply everywhere_last (by decide)
  · refine ⟨by decide, fun e he _ => ?_⟩
    rw [oneSub_entries] at he
    cases List.mem_singleton.mp he
    exact directEntry_long (by decide) (by decide)
  · intro e he offs hoffs off hoff
    rw [oneSub_entries] at he
    cases List.mem_singleton.mp he
    cases oneSub_leads.symm.trans hoffs
    cases List.mem_singleton.mp hoff
    refine everywhere_empty (by decide) (by decide) ⟨by decide, fun e he => ?_⟩
    have hempty : entriesAt oneSub 26 = [] := by decide
    rw [hempty] at he
    cases he

/-- The same with two offsets, which stand behind the IFD, and two empty IFDs at 34 and 40. -/
def twoSubs : LBuf :=
  ⟨46, fun i => [0x49, 0x49, 42, 0, 8, 0, 0, 0,
    1, 0, 0x4a, 1, 4, 0, 2, 0, 0, 0, 26, 0, 0, 0, 0, 0, 0, 0,
    34, 0, 0, 0, 40, 0, 0, 0, 0, 0, 0, 0, 0, 0, 0, 0, 0, 0, 0, 0].getD i 0⟩

theorem twoSubs_entries : entriesAt twoSubs 8 = [⟨10⟩] := by decide

theorem twoSubs_leads : fileLeads twoSubs ⟨10⟩ = some [34, 40] := by decide

theorem twoSubs_wellFormed : WellFormed twoSubs 2 := by
  have hifd0 : ifd0At twoSubs = 8 := by decide
  have hsubs : ∀ off ∈ [34, 40], entriesAt twoSubs off = [] ∧ Readable twoSubs (2 ^ 32) off 2 ∧
      Readable twoSubs (2 ^ 32) (endAt twoSubs off) 4 ∧ nextAt twoSubs off = 0 := by
    unfold Readable
    decide
  refine ⟨⟨by decide, by decide, by decide⟩, ?_, ?_⟩
  · rw [hifd0]
    refine ⟨8, .refl, ⟨⟨by decide, by decide⟩, fun e he => ?_, ⟨by decide, by decide⟩⟩, by decide⟩
    rw [twoSubs_entries] at he
    cases List.mem_singleton.mp he
    refine ⟨[34, 40], twoSubs_leads, fun off hoff => ?_⟩
    obtain ⟨hentries, hstarts, hcloses, hnext⟩ := hsubs off hoff
    exact whole_empty hentries hstarts hcloses hnext
  · rw [hifd0]
    apply everywhere_last (by decide) (by decide)
    intro e he offs hoffs off hoff
    rw [twoSubs_entries] at he
    cases List.mem_singleton.mp he
    cases twoSubs_leads.symm.trans hoffs
    obtain ⟨hentries, -, -, hnext⟩ := hsubs off hoff
    apply everywhere_empty hentries hnext
    rw [hentries]
    exact List.nodup_nil

/-- The array of the offsets is taken for an IFD. -/
theorem not_subIfds_bound : ¬∀ (lb : LBuf) (calls : Nat), WellFormed lb calls →
    ∃ ifds, BindsFile lb calls ifds := by
  intro hall
  obtain ⟨ifds, hifds⟩ := hall twoSubs 2 twoSubs_wellFormed
  have hdirect := direct_of_binds twoSubs_wellFormed hifds
  have hifd0 : ifd0At twoSubs = 8 := by decide
  rw [hifd0] at hdirect
  have hentry := (hdirect 8 .refl).1.direct ⟨10⟩ (by rw [twoSubs_entries]; exact List.mem_cons_self)
    (by decide)
  exact absurd ((hentry (by decide)).2 4 (by decide) 0 (by decide)) (by decide)

end SubIfds
