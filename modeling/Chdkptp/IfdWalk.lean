import Chdkptp.BindIfds

/-!
# The walk through the IFDs of a buffer

The IFDs of a buffer as a structure of chains: each IFD leads to the next one of its chain,
and its entries lead to chains of their own. `bind_ifds` walks this structure. It ends unless
a chain that it walks comes back to an IFD that it has passed.
-/

namespace IfdWalk

open ByteMemory Lbuf LittleEndian LbufValues DngEntry BindIfds Fuelled Relation

/-! ## What stands in the buffer -/

section Buffer

variable (lb : LBuf)

def nEntriesAt (off : Nat) : Nat := natOf (slice lb.bytes off 2)

/-- Where the entries of an IFD end. -/
def endAt (off : Nat) : Nat := off + (nEntriesAt lb off * 12 + 2)

def nextAt (off : Nat) : Nat := natOf (slice lb.bytes (endAt lb off) 4)

def entriesAt (off : Nat) : List Entry := (List.range (nEntriesAt lb off)).map (entryAt off)

def tagAt (e : Entry) : Nat := natOf (slice lb.bytes e.off 2)

/-- Something of so many bytes stands there, at an offset below a limit. -/
def Readable (limit off size : Nat) : Prop := off + size ≤ lb.len.toNat ∧ off < limit

/-- The offsets at which `SubIFDs` is taken to point: one behind the other, from the value of
the entry on. -/
def subOffsets (e : Entry) : Option (List Nat) :=
  (Entry.typeOfId (headerAt lb.bytes e.off).typeId).map fun t =>
    (List.range (headerAt lb.bytes e.off).count).map fun i =>
      (headerAt lb.bytes e.off).valoff + i * t.elsize

/-- The offsets of the chains that an entry leads to; none where it cannot be bound or read. -/
def leadsTo (e : Entry) : Option (List Nat) :=
  if ¬(e.off + 12 ≤ lb.len.toNat ∧ e.off < 2 ^ 31) then none
  else if tagAt lb e = tagSubIfds then
    if ¬e.off + 4 < 2 ^ 31 then none
    else if (headerAt lb.bytes e.off).count = 0 then some []
    else if ¬e.off + 8 < 2 ^ 31 then none
    else subOffsets lb e
  else if tagAt lb e = tagExifIfd then
    if ¬e.off + 4 < 2 ^ 31 then none
    else if (headerAt lb.bytes e.off).count ≠ 1 then some []
    else if ¬e.off + 8 < 2 ^ 31 then none
    else some [(headerAt lb.bytes e.off).valoff]
  else some []

end Buffer

/-! ## Chains -/

section Chains

variable (lb : LBuf) (limit : Nat) (leads : Entry → Option (List Nat))

section Level

variable (Whole Back : Nat → Prop)

/-- The chains that the entry leads to are whole. -/
def EntryWhole (e : Entry) : Prop := ∃ offs, leads e = some offs ∧ ∀ off ∈ offs, Whole off

/-- Behind whole chains the entry leads to one that comes back. -/
def EntryBack (e : Entry) : Prop := ∃ offs, leads e = some offs ∧ ComesTo Whole Back offs

structure IfdWhole (off : Nat) : Prop where
  starts : Readable lb limit off 2
  entries : ∀ e ∈ entriesAt lb off, EntryWhole leads Whole e
  closes : Readable lb limit (endAt lb off) 4

/-- Behind whole entries the IFD has one that comes back. -/
def IfdBack (off : Nat) : Prop :=
  Readable lb limit off 2 ∧
    ComesTo (EntryWhole leads Whole) (EntryBack leads Whole Back) (entriesAt lb off)

/-- The IFDs of a chain follow each other. -/
def Next (off off' : Nat) : Prop :=
  IfdWhole lb limit leads Whole off ∧ nextAt lb off = off' ∧ off' ≠ 0

def Last (off : Nat) : Prop := IfdWhole lb limit leads Whole off ∧ nextAt lb off = 0

end Level

/-- The chain from an IFD ends, nested ones included, so many levels deep at most. -/
def Whole : (depth : Nat) → Nat → Prop
  | 0, _ => False
  | depth + 1, off =>
    ∃ last, ReflTransGen (Next lb limit leads (Whole depth)) off last ∧
      Last lb limit leads (Whole depth) last

/-- The chain from an IFD, or a nested one that the walk comes to, leads from an IFD back to
this IFD. -/
def ComesBack : (depth : Nat) → Nat → Prop
  | 0, _ => False
  | depth + 1, off =>
    ∃ ifd, ReflTransGen (Next lb limit leads (Whole lb limit leads depth)) off ifd ∧
      (TransGen (Next lb limit leads (Whole lb limit leads depth)) ifd ifd ∨
        IfdBack lb limit leads (Whole lb limit leads depth) (ComesBack depth) ifd)

end Chains

/-! ## Reading -/

section Reading

variable {lb : LBuf}

theorem toBind_ok {α : Type} {x : Except DngError α} {a : α} : toBind x = .ok a ↔ x = .ok a := by
  cases x <;> simp [toBind]

/-- A field of the buffer that is there to be read. -/
theorem field_iff {el : Elem} {off n : Nat} (hunsigned : el.signed = false)
    (hsize : el.size ≤ lb.len.toNat) (hoff : off < 2 ^ 32) :
    Entry.field lb el off = .ok n ↔
      Readable lb (2 ^ 31) off el.size ∧ natOf (slice lb.bytes off el.size) = n := by
  unfold Readable
  by_cases hlow : off < 2 ^ 31
  · by_cases hend : off + el.size ≤ lb.len.toNat
    · rw [field_fitting hunsigned hend, if_pos hlow, Except.ok.injEq]
      exact (and_iff_right ⟨hend, hlow⟩).symm
    · rw [field_past hsize hlow (by omega)]
      exact iff_of_false (by simp) (fun h => hend h.1.1)
  · rw [field_high (by omega)]
    exact iff_of_false (by simp) (fun h => hlow h.1.2)

end Reading

/-! ## The walk of an entry -/

section Leads

variable {leads : Entry → Option (List Nat)} {Whole Back : Nat → Prop} {e : Entry}

theorem entryWhole_none (h : leads e = none) : ¬EntryWhole leads Whole e := by
  rintro ⟨offs, hoffs, -⟩
  rw [h] at hoffs
  cases hoffs

theorem entryBack_none (h : leads e = none) : ¬EntryBack leads Whole Back e := by
  rintro ⟨offs, hoffs, -⟩
  rw [h] at hoffs
  cases hoffs

theorem entryWhole_some {offs : List Nat} (h : leads e = some offs) :
    EntryWhole leads Whole e ↔ ∀ off ∈ offs, Whole off := by
  unfold EntryWhole
  simp [h]

theorem entryBack_some {offs : List Nat} (h : leads e = some offs) :
    EntryBack leads Whole Back e ↔ ComesTo Whole Back offs := by
  unfold EntryBack
  simp [h]

end Leads

/-- A bind function that walks the chains it is called for. -/
structure Binds (bind : Nat → List Ifd → Fuelled BindError (List Ifd)) (Whole Back : Nat → Prop) :
    Prop where
  behaves : ∀ off ifds, Behaves (bind off ifds) (Whole off) (Back off)
  grows : ∀ off ifds ifds', (bind off ifds).Yields ifds' → ifds.length < ifds'.length

section Entries

variable {lb : LBuf} {bind : Nat → List Ifd → Fuelled BindError (List Ifd)}
  {Whole Back : Nat → Prop} {e : Entry}

theorem readCount (hbound : e.off + 12 ≤ lb.len.toNat) :
    toBind (e.count lb) = if e.off + 4 < 2 ^ 31 then .ok (headerAt lb.bytes e.off).count
      else .error (.dng (.lbuf .negativeOffset)) := by
  rw [count_eq hbound]
  split_ifs <;> rfl

theorem readValoff (hbound : e.off + 12 ≤ lb.len.toNat) :
    toBind (e.valoff lb) = if e.off + 8 < 2 ^ 31 then .ok (headerAt lb.bytes e.off).valoff
      else .error (.dng (.lbuf .negativeOffset)) := by
  have hfield := @field_fitting .u32 lb (e.off + 8) rfl (by dsimp only [Elem.size]; omega)
  unfold Entry.valoff
  rw [hfield]
  split_ifs <;> rfl

theorem readElsize (hbound : e.off + 12 ≤ lb.len.toNat) (hlow : e.off + 4 < 2 ^ 31) :
    elsize lb e = match Entry.typeOfId (headerAt lb.bytes e.off).typeId with
      | none => .error (.dng .nilValue)
      | some t => .ok t.elsize := by
  unfold elsize
  rw [type_eq hbound, if_pos (by omega)]
  cases Entry.typeOfId (headerAt lb.bytes e.off).typeId <;> rfl

section Passes

variable (hbound : e.off + 12 ≤ lb.len.toNat) (sub : List Ifd) (i : Nat)

include hbound

theorem bindSubAt_high (hhigh : ¬e.off + 8 < 2 ^ 31) :
    bindSubAt lb bind e sub i = Fuelled.ofExcept (.error (.dng (.lbuf .negativeOffset))) := by
  have hvaloff := readValoff hbound
  rw [if_neg hhigh] at hvaloff
  unfold bindSubAt
  rw [Fuelled.error_bind hvaloff]

theorem bindSubAt_unknown (hhigh : e.off + 8 < 2 ^ 31)
    (htype : Entry.typeOfId (headerAt lb.bytes e.off).typeId = none) :
    bindSubAt lb bind e sub i = Fuelled.ofExcept (.error (.dng .nilValue)) := by
  have hvaloff := readValoff hbound
  have helsize := readElsize hbound (by omega)
  rw [if_pos hhigh] at hvaloff
  rw [htype] at helsize
  unfold bindSubAt
  rw [Fuelled.ok_bind hvaloff, Fuelled.error_bind helsize]

/-- A chain is bound from a multiple of the size behind the value of the entry on. -/
theorem bindSubAt_known (hhigh : e.off + 8 < 2 ^ 31) {t : TagType}
    (htype : Entry.typeOfId (headerAt lb.bytes e.off).typeId = some t) :
    bindSubAt lb bind e sub i = bind ((headerAt lb.bytes e.off).valoff + i * t.elsize) sub := by
  have hvaloff := readValoff hbound
  have helsize := readElsize hbound (by omega)
  rw [if_pos hhigh] at hvaloff
  rw [htype] at helsize
  unfold bindSubAt
  rw [Fuelled.ok_bind hvaloff, Fuelled.ok_bind helsize]

end Passes

/-- An entry that fails, for the reason that its chains cannot be told. -/
theorem behaves_none {α : Type} {x : Fuelled BindError α} {leads : Entry → Option (List Nat)}
    (h : Behaves x False False) (hnone : leads e = none) :
    Behaves x (EntryWhole leads Whole e) (EntryBack leads Whole Back e) :=
  h.congr (iff_of_false not_false (entryWhole_none hnone))
    (iff_of_false not_false (entryBack_none hnone))

/-- An entry without chains. -/
theorem behaves_nil {α : Type} {x : Fuelled BindError α} {leads : Entry → Option (List Nat)}
    (h : Behaves x True False) (hnil : leads e = some []) :
    Behaves x (EntryWhole leads Whole e) (EntryBack leads Whole Back e) :=
  h.congr
    (iff_of_true trivial ((entryWhole_some hnil).mpr fun _ hmem => absurd hmem List.not_mem_nil))
    (iff_of_false not_false (entryBack_some hnil).mp)

/-- The chains of a `SubIFDs` entry are walked one after the other. -/
theorem bindSub_behaves (h : Binds bind Whole Back) (hbound : e.off + 12 ≤ lb.len.toNat)
    (hoff : e.off < 2 ^ 31) (htag : tagAt lb e = tagSubIfds) :
    Behaves (bindSub lb bind e) (EntryWhole (leadsTo lb) Whole e)
      (EntryBack (leadsTo lb) Whole Back e) := by
  have hleads : leadsTo lb e = if ¬e.off + 4 < 2 ^ 31 then none
      else if (headerAt lb.bytes e.off).count = 0 then some []
      else if ¬e.off + 8 < 2 ^ 31 then none
      else subOffsets lb e := by
    unfold leadsTo
    rw [if_neg (not_not.mpr ⟨hbound, hoff⟩), if_pos htag]
  have hcount := readCount hbound
  unfold bindSub
  by_cases hlow : e.off + 4 < 2 ^ 31
  · rw [if_pos hlow] at hcount
    rw [if_neg (not_not.mpr hlow)] at hleads
    rw [Fuelled.ok_bind hcount]
    by_cases hzero : (headerAt lb.bytes e.off).count = 0
    · rw [if_pos hzero] at hleads
      rw [hzero]
      exact behaves_nil (behaves_pure _) hleads
    · rw [if_neg hzero] at hleads
      have hsome : List.range (headerAt lb.bytes e.off).count ≠ [] := by simpa using hzero
      by_cases hhigh : e.off + 8 < 2 ^ 31
      · rw [if_neg (not_not.mpr hhigh)] at hleads
        unfold subOffsets at hleads
        cases htype : Entry.typeOfId (headerAt lb.bytes e.off).typeId with
        | none =>
          rw [htype] at hleads
          exact behaves_none
            (foldlM_fails hsome fun i => bindSubAt_unknown hbound [] i hhigh htype) hleads
        | some t =>
          rw [htype] at hleads
          have hpass : ∀ (sub : List Ifd) (i : Nat), True → Behaves (bindSubAt lb bind e sub i)
              (Whole ((headerAt lb.bytes e.off).valoff + i * t.elsize))
              (Back ((headerAt lb.bytes e.off).valoff + i * t.elsize)) := by
            intro sub i _
            rw [bindSubAt_known hbound sub i hhigh htype]
            exact h.behaves _ _
          apply (foldlM_behaves (fun _ _ _ _ _ => trivial) hpass _ trivial).congr
          · rw [entryWhole_some hleads, List.forall_mem_map]
          · rw [entryBack_some hleads, comesTo_map]
      · rw [if_pos hhigh] at hleads
        exact behaves_none (foldlM_fails hsome fun i => bindSubAt_high hbound [] i hhigh) hleads
  · rw [if_neg hlow] at hcount
    rw [if_pos hlow] at hleads
    rw [Fuelled.error_bind hcount]
    exact behaves_none (behaves_error _) hleads

/-- The chain of an `ExifIFD` entry. -/
theorem bindExif_behaves (h : Binds bind Whole Back) (hbound : e.off + 12 ≤ lb.len.toNat)
    (hoff : e.off < 2 ^ 31) (hsub : tagAt lb e ≠ tagSubIfds) (htag : tagAt lb e = tagExifIfd) :
    Behaves (bindExif lb bind e) (EntryWhole (leadsTo lb) Whole e)
      (EntryBack (leadsTo lb) Whole Back e) := by
  have hleads : leadsTo lb e = if ¬e.off + 4 < 2 ^ 31 then none
      else if (headerAt lb.bytes e.off).count ≠ 1 then some []
      else if ¬e.off + 8 < 2 ^ 31 then none
      else some [(headerAt lb.bytes e.off).valoff] := by
    unfold leadsTo
    rw [if_neg (not_not.mpr ⟨hbound, hoff⟩), if_neg hsub, if_pos htag]
  have hcount := readCount hbound
  have hvaloff := readValoff hbound
  unfold bindExif
  by_cases hlow : e.off + 4 < 2 ^ 31
  · rw [if_pos hlow] at hcount
    rw [if_neg (not_not.mpr hlow)] at hleads
    rw [Fuelled.ok_bind hcount]
    by_cases hone : (headerAt lb.bytes e.off).count = 1
    · rw [if_neg (not_not.mpr hone)] at hleads
      rw [if_pos hone]
      by_cases hhigh : e.off + 8 < 2 ^ 31
      · rw [if_pos hhigh] at hvaloff
        rw [if_neg (not_not.mpr hhigh)] at hleads
        rw [Fuelled.ok_bind hvaloff]
        have hmark : ∀ ifds, (bind (headerAt lb.bytes e.off).valoff []).Yields ifds →
            ∃ marked, (liftM (markExif ifds) : Fuelled BindError (List Ifd)).Yields marked := by
          intro ifds hifds
          have hlength := h.grows _ _ _ hifds
          cases ifds with
          | nil => exact absurd hlength (Nat.lt_irrefl 0)
          | cons ifd ifds => exact ⟨_, yields_lift.mpr rfl⟩
        apply ((h.behaves _ _).bind hmark).congr
        · rw [entryWhole_some hleads, List.forall_mem_singleton]
        · rw [entryBack_some hleads, ComesTo, ComesTo, and_false, or_false]
      · rw [if_neg hhigh] at hvaloff
        rw [if_pos hhigh] at hleads
        rw [Fuelled.error_bind hvaloff]
        exact behaves_none (behaves_error _) hleads
    · rw [if_pos hone] at hleads
      rw [if_neg hone]
      exact behaves_nil (behaves_pure _) hleads
  · rw [if_neg hlow] at hcount
    rw [if_pos hlow] at hleads
    rw [Fuelled.error_bind hcount]
    exact behaves_none (behaves_error _) hleads

theorem bindFields_eq (len : Nat) (sizes : List Nat) {pos : Nat} (hpos : pos ≤ len) :
    bindFields len sizes pos = if pos + sizes.sum ≤ len then .ok (pos + sizes.sum)
      else .error (.raised "illegal offset") := by
  induction sizes generalizing pos with
  | nil =>
    rw [List.sum_nil, Nat.add_zero, if_pos hpos]
    rfl
  | cons size sizes ih =>
    rw [List.sum_cons, ← Nat.add_assoc]
    unfold bindFields
    by_cases hin : len < pos + size
    · rw [if_pos hin, if_neg (by omega)]
    · rw [if_neg hin]
      exact ih (Nat.not_lt.mp hin)

theorem bindIfdEntry_ok {off i : Nat} (h : (entryAt off i).off + 12 ≤ lb.len.toNat) :
    bindIfdEntry lb off i = .ok (entryAt off i) := by
  have hseek : bindSeek lb.len.toNat 0 (entryAt off i).off = .ok (0 + (entryAt off i).off) := by
    unfold bindSeek
    rw [if_neg (by omega)]
  have hfields := @bindFields_eq lb.len.toNat [2, 2, 4, 4] (0 + (entryAt off i).off) (by omega)
  have hsum : [2, 2, 4, 4].sum = 12 := rfl
  rw [hsum, if_pos (by omega)] at hfields
  unfold bindIfdEntry
  rw [DngEntry.ok_bind hseek, DngEntry.ok_bind hfields]
  rfl

theorem bindIfdEntry_error {off i : Nat} (h : ¬(entryAt off i).off + 12 ≤ lb.len.toNat) :
    ∃ err, bindIfdEntry lb off i = .error err := by
  unfold bindIfdEntry
  by_cases hpos : lb.len.toNat < 0 + (entryAt off i).off
  · have hseek : bindSeek lb.len.toNat 0 (entryAt off i).off = .error (.raised "invalid pos") := by
      unfold bindSeek
      rw [if_pos hpos]
    rw [DngEntry.error_bind hseek]
    exact ⟨_, rfl⟩
  · have hseek : bindSeek lb.len.toNat 0 (entryAt off i).off = .ok (0 + (entryAt off i).off) := by
      unfold bindSeek
      rw [if_neg hpos]
    have hfields := bindFields_eq lb.len.toNat [2, 2, 4, 4] (Nat.not_lt.mp hpos)
    have hsum : [2, 2, 4, 4].sum = 12 := rfl
    rw [hsum, if_neg (by omega)] at hfields
    rw [DngEntry.ok_bind hseek, DngEntry.error_bind hfields]
    exact ⟨_, rfl⟩

theorem readTag (hbound : e.off + 12 ≤ lb.len.toNat) :
    toBind (e.tag lb) = if e.off < 2 ^ 31 then .ok (tagAt lb e)
      else .error (.dng (.lbuf .negativeOffset)) := by
  have hfield := @field_fitting .u16 lb e.off rfl (by dsimp only [Elem.size]; omega)
  unfold Entry.tag
  rw [hfield]
  split_ifs <;> rfl

/-- The pass of the loop for an entry. -/
theorem bindEntry_behaves (h : Binds bind Whole Back) (ifd : Ifd) (i : Nat) :
    Behaves (bindEntry lb bind ifd i) (EntryWhole (leadsTo lb) Whole (entryAt ifd.off i))
      (EntryBack (leadsTo lb) Whole Back (entryAt ifd.off i)) := by
  unfold bindEntry
  by_cases hbound : (entryAt ifd.off i).off + 12 ≤ lb.len.toNat
  · have htag := readTag hbound
    rw [Fuelled.ok_bind (bindIfdEntry_ok hbound)]
    by_cases hoff : (entryAt ifd.off i).off < 2 ^ 31
    · rw [if_pos hoff] at htag
      rw [Fuelled.ok_bind htag]
      dsimp only
      by_cases hsub : tagAt lb (entryAt ifd.off i) = tagSubIfds
      · rw [if_pos hsub]
        exact (bindSub_behaves h hbound hoff hsub).bind fun sub _ => ⟨_, yields_pure.mpr rfl⟩
      · rw [if_neg hsub]
        by_cases hexif : tagAt lb (entryAt ifd.off i) = tagExifIfd
        · rw [if_pos hexif]
          exact (bindExif_behaves h hbound hoff hsub hexif).bind fun exif _ =>
            ⟨_, yields_pure.mpr rfl⟩
        · rw [if_neg hexif]
          apply behaves_nil (behaves_pure _)
          unfold leadsTo
          rw [if_neg (not_not.mpr ⟨hbound, hoff⟩), if_neg hsub, if_neg hexif]
    · rw [if_neg hoff] at htag
      rw [Fuelled.error_bind htag]
      apply behaves_none (behaves_error _)
      unfold leadsTo
      rw [if_pos fun hand => hoff hand.2]
  · obtain ⟨err, herr⟩ := bindIfdEntry_error hbound
    rw [Fuelled.error_bind herr]
    apply behaves_none (behaves_error _)
    unfold leadsTo
    rw [if_pos fun hand => hbound hand.1]

theorem bindEntry_off {ifd ifd' : Ifd} {i : Nat} (h : (bindEntry lb bind ifd i).Yields ifd') :
    ifd'.off = ifd.off := by
  obtain ⟨e, -, h⟩ := yields_bind.mp h
  obtain ⟨tag, -, h⟩ := yields_bind.mp h
  dsimp only at h
  split_ifs at h
  · obtain ⟨sub, -, h⟩ := yields_bind.mp h
    rw [← yields_pure.mp h]
  · obtain ⟨exif, -, h⟩ := yields_bind.mp h
    rw [← yields_pure.mp h]
  · rw [← yields_pure.mp h]

end Entries

/-! ## The walk of an IFD -/

section Ifds

variable {lb : LBuf} {bind : Nat → List Ifd → Fuelled BindError (List Ifd)}
  {Whole Back : Nat → Prop} {off : Nat}

theorem inside_iff : inside lb off = .ok () ↔ off < lb.len.toNat := by
  unfold inside
  by_cases h : lb.len.toNat ≤ off
  · rw [if_pos h]
    exact iff_of_false (by simp) (by omega)
  · rw [if_neg h]
    exact iff_of_true rfl (by omega)

theorem readEntries_iff (hlen : 4 ≤ lb.len.toNat) (hoff : off < lb.len.toNat) {n : Nat} :
    toBind (Entry.field lb .u16 off) = .ok n ↔
      Readable lb (2 ^ 31) off 2 ∧ nEntriesAt lb off = n := by
  have hmax := lb.len.toNat_lt
  rw [toBind_ok, field_iff rfl (by dsimp only [Elem.size]; omega) (by omega)]
  rfl

theorem natOf_slice_lt (m : Memory) (o n : Nat) : natOf (slice m o n) < 256 ^ n := by
  have hlt := natOf_lt (slice m o n)
  rw [slice_length] at hlt
  exact hlt

theorem nEntriesAt_lt (lb : LBuf) (off : Nat) : nEntriesAt lb off < 2 ^ 16 :=
  natOf_slice_lt lb.bytes off 2

theorem nextAt_lt (lb : LBuf) (off : Nat) : nextAt lb off < 2 ^ 32 :=
  natOf_slice_lt lb.bytes (endAt lb off) 4

theorem readNext_iff (hlen : 4 ≤ lb.len.toNat) (hstarts : Readable lb (2 ^ 31) off 2) {n : Nat} :
    toBind (Entry.field lb .u32 (endAt lb off)) = .ok n ↔
      Readable lb (2 ^ 31) (endAt lb off) 4 ∧ nextAt lb off = n := by
  have hlow := hstarts.2
  have hfew := nEntriesAt_lt lb off
  rw [toBind_ok, field_iff rfl (by dsimp only [Elem.size]; omega) (by unfold endAt; omega)]
  rfl

/-- The loop over the entries of an IFD. -/
theorem bindEntries_behaves (h : Binds bind Whole Back) (ifd : Ifd) (hoff : ifd.off = off) :
    Behaves ((List.range (nEntriesAt lb off)).foldlM (bindEntry lb bind) ifd)
      (∀ e ∈ entriesAt lb off, EntryWhole (leadsTo lb) Whole e)
      (ComesTo (EntryWhole (leadsTo lb) Whole) (EntryBack (leadsTo lb) Whole Back)
        (entriesAt lb off)) := by
  have hkeeps : ∀ (ifd : Ifd) (i : Nat) (ifd' : Ifd), ifd.off = off →
      (bindEntry lb bind ifd i).Yields ifd' → ifd'.off = off := by
    intro ifd i ifd' hifd hyields
    rw [bindEntry_off hyields, hifd]
  have hpass : ∀ (ifd : Ifd) (i : Nat), ifd.off = off → Behaves (bindEntry lb bind ifd i)
      (EntryWhole (leadsTo lb) Whole (entryAt off i))
      (EntryBack (leadsTo lb) Whole Back (entryAt off i)) := by
    intro ifd i hifd
    rw [← hifd]
    exact bindEntry_behaves h ifd i
  apply (foldlM_behaves hkeeps hpass _ hoff).congr
  · rw [entriesAt, List.forall_mem_map]
  · rw [entriesAt, comesTo_map]

theorem bindIfd_yields_iff (h : Binds bind Whole Back) (hlen : 4 ≤ lb.len.toNat)
    (index next : Nat) :
    (∃ ifd, (bindIfd lb bind index off).Yields (ifd, next)) ↔
      IfdWhole lb (2 ^ 31) (leadsTo lb) Whole off ∧ nextAt lb off = next := by
  constructor
  · rintro ⟨ifd, hifd⟩
    obtain ⟨u, hin, hifd⟩ := yields_bind.mp hifd
    obtain ⟨n, hn, hifd⟩ := yields_bind.mp hifd
    obtain ⟨ifd', hentries, hifd⟩ := yields_bind.mp hifd
    obtain ⟨next', hnext, hifd⟩ := yields_bind.mp hifd
    have hin := inside_iff.mp (yields_lift.mp hin)
    have hstarts := (readEntries_iff hlen hin).mp (yields_lift.mp hn)
    rw [← hstarts.2] at hentries hnext
    have hcloses := (readNext_iff hlen hstarts.1).mp (yields_lift.mp hnext)
    cases yields_pure.mp hifd
    exact ⟨⟨hstarts.1, (bindEntries_behaves h _ rfl).yields.mp ⟨_, hentries⟩, hcloses.1⟩, hcloses.2⟩
  · rintro ⟨hifd, hnext⟩
    have hin : off < lb.len.toNat := by
      have hstarts := hifd.starts.1
      omega
    have hn := (readEntries_iff hlen hin).mpr ⟨hifd.starts, rfl⟩
    obtain ⟨ifd', hentries⟩ := (bindEntries_behaves h
      ⟨index, off, nEntriesAt lb off, [], [], none, none, false⟩ rfl).yields.mpr hifd.entries
    have hcloses := (readNext_iff hlen hifd.starts).mpr ⟨hifd.closes, hnext⟩
    exact ⟨ifd', yields_bind.mpr ⟨(), yields_lift.mpr (inside_iff.mpr hin),
      yields_bind.mpr ⟨_, yields_lift.mpr hn, yields_bind.mpr ⟨ifd', hentries,
        yields_bind.mpr ⟨next, yields_lift.mpr hcloses, yields_pure.mpr rfl⟩⟩⟩⟩⟩

theorem bindIfd_ends_iff (h : Binds bind Whole Back) (hlen : 4 ≤ lb.len.toNat) (index : Nat) :
    (bindIfd lb bind index off).Ends ↔ ¬IfdBack lb (2 ^ 31) (leadsTo lb) Whole Back off := by
  unfold bindIfd IfdBack
  constructor
  · rintro hends ⟨hstarts, hback⟩
    have hin : off < lb.len.toNat := by
      have hend := hstarts.1
      omega
    have hn := (readEntries_iff hlen hin).mpr ⟨hstarts, rfl⟩
    rw [Fuelled.ok_bind (inside_iff.mpr hin), Fuelled.ok_bind hn] at hends
    exact (bindEntries_behaves h _ rfl).ends.mp (ends_bind.mp hends).1 hback
  · intro hnot
    refine ends_bind.mpr ⟨ends_lift _, fun u hin => ends_bind.mpr ⟨ends_lift _, fun n hn => ?_⟩⟩
    have hin := inside_iff.mp (yields_lift.mp hin)
    have hstarts := (readEntries_iff hlen hin).mp (yields_lift.mp hn)
    rw [← hstarts.2]
    refine ends_bind.mpr ⟨(bindEntries_behaves h _ rfl).ends.mpr fun hback =>
      hnot ⟨hstarts.1, hback⟩, fun ifd _ => ends_bind.mpr ⟨ends_lift _, fun next _ => ends_pure _⟩⟩

end Ifds

/-! ## The walk of a chain -/

section Chain

variable {lb : LBuf}

/-- One pass of the loop of `bind_ifds`. -/
def pass (lb : LBuf) (calls : Nat) (s : Nat × List Ifd) :
    Fuelled BindError ((Nat × List Ifd) ⊕ List Ifd) := do
  let (ifd, next) ← bindIfd lb (bindIfds lb calls) s.2.length s.1
  return if next = 0 then .inr (s.2 ++ [ifd]) else .inl (next, s.2 ++ [ifd])

theorem bindIfds_succ (lb : LBuf) (calls off : Nat) (ifds : List Ifd) :
    bindIfds lb (calls + 1) off ifds = repeatUntil (pass lb calls) (off, ifds) := rfl

theorem pass_inl {calls : Nat} {s s' : Nat × List Ifd} :
    (pass lb calls s).Yields (.inl s') ↔ s'.1 ≠ 0 ∧ ∃ ifd, s'.2 = s.2 ++ [ifd] ∧
      (bindIfd lb (bindIfds lb calls) s.2.length s.1).Yields (ifd, s'.1) := by
  constructor
  · intro h
    obtain ⟨⟨ifd, next⟩, hifd, h⟩ := yields_bind.mp h
    have h := yields_pure.mp h
    split_ifs at h with hnext
    cases Sum.inl.inj h
    exact ⟨hnext, ifd, rfl, hifd⟩
  · rintro ⟨hnext, ifd, hlist, hifd⟩
    refine yields_bind.mpr ⟨_, hifd, yields_pure.mpr ?_⟩
    rw [if_neg hnext, ← hlist]

theorem pass_inr {calls : Nat} {s : Nat × List Ifd} {ifds : List Ifd} :
    (pass lb calls s).Yields (.inr ifds) ↔ ∃ ifd, ifds = s.2 ++ [ifd] ∧
      (bindIfd lb (bindIfds lb calls) s.2.length s.1).Yields (ifd, 0) := by
  constructor
  · intro h
    obtain ⟨⟨ifd, next⟩, hifd, h⟩ := yields_bind.mp h
    have h := yields_pure.mp h
    split_ifs at h with hnext
    rw [hnext] at hifd
    exact ⟨ifd, (Sum.inr.inj h).symm, hifd⟩
  · rintro ⟨ifd, hlist, hifd⟩
    refine yields_bind.mpr ⟨_, hifd, yields_pure.mpr ?_⟩
    rw [if_pos rfl, hlist]

theorem pass_ends {calls : Nat} {s : Nat × List Ifd} :
    (pass lb calls s).Ends ↔ (bindIfd lb (bindIfds lb calls) s.2.length s.1).Ends := by
  unfold pass
  rw [ends_bind]
  exact and_iff_left fun _ _ => ends_pure _

/-- The loop goes from IFD to IFD of a chain. -/
theorem walks {Whole Back : Nat → Prop} {calls : Nat} (h : Binds (bindIfds lb calls) Whole Back)
    (hlen : 4 ≤ lb.len.toNat) :
    Walks (pass lb calls) Prod.fst (Next lb (2 ^ 31) (leadsTo lb) Whole)
      (Last lb (2 ^ 31) (leadsTo lb) Whole)
      (IfdBack lb (2 ^ 31) (leadsTo lb) Whole Back) := by
  constructor
  · intro s next
    unfold Next
    constructor
    · rintro ⟨s', hs', rfl⟩
      obtain ⟨hnext, ifd, -, hifd⟩ := pass_inl.mp hs'
      obtain ⟨hwhole, hat⟩ := (bindIfd_yields_iff h hlen _ _).mp ⟨ifd, hifd⟩
      exact ⟨hwhole, hat, hnext⟩
    · rintro ⟨hwhole, hat, hnext⟩
      obtain ⟨ifd, hifd⟩ := (bindIfd_yields_iff h hlen s.2.length next).mpr ⟨hwhole, hat⟩
      exact ⟨(next, s.2 ++ [ifd]), pass_inl.mpr ⟨hnext, ifd, rfl, hifd⟩, rfl⟩
  · intro s
    unfold Last
    rw [← bindIfd_yields_iff h hlen s.2.length 0]
    constructor
    · rintro ⟨ifds, hifds⟩
      obtain ⟨ifd, -, hifd⟩ := pass_inr.mp hifds
      exact ⟨ifd, hifd⟩
    · rintro ⟨ifd, hifd⟩
      exact ⟨_, pass_inr.mpr ⟨ifd, rfl, hifd⟩⟩
  · intro s
    rw [pass_ends, bindIfd_ends_iff h hlen]

/-- Offsets are numbers of 32 bits. -/
theorem finite_chain (lb : LBuf) (limit : Nat) (leads : Entry → Option (List Nat))
    (Whole : Nat → Prop) (off : Nat) : {ifd | ReflTransGen (Next lb limit leads Whole) off ifd}.Finite := by
  apply Set.Finite.subset ((Set.finite_lt_nat (2 ^ 32)).insert off)
  intro ifd hreach
  obtain rfl | ⟨before, -, -, hnext, -⟩ := ReflTransGen.cases_tail hreach
  · exact Set.mem_insert _ _
  · apply Set.mem_insert_of_mem
    rw [← hnext]
    exact nextAt_lt lb before

theorem bindIfds_grows {calls off : Nat} {ifds ifds' : List Ifd}
    (h : (bindIfds lb calls off ifds).Yields ifds') : ifds.length < ifds'.length := by
  cases calls with
  | zero => cases yields_ofExcept.mp h
  | succ calls =>
    rw [bindIfds_succ] at h
    have hnext : ∀ s s' : Nat × List Ifd, ifds.length ≤ s.2.length →
        (pass lb calls s).Yields (.inl s') → ifds.length ≤ s'.2.length := by
      intro s s' hs hs'
      obtain ⟨-, ifd, hlist, -⟩ := pass_inl.mp hs'
      rw [hlist, List.length_append]
      omega
    have hlast : ∀ (s : Nat × List Ifd) (l : List Ifd), ifds.length ≤ s.2.length →
        (pass lb calls s).Yields (.inr l) → ifds.length < l.length := by
      intro s l hs hl
      obtain ⟨ifd, rfl, -⟩ := pass_inr.mp hl
      rw [List.length_append, List.length_singleton]
      omega
    exact repeat_invariant hnext hlast (Nat.le_refl _) h

/-- Each call walks the chain that it is called for. -/
theorem bindIfds_binds (hlen : 4 ≤ lb.len.toNat) (calls : Nat) :
    Binds (bindIfds lb calls) (Whole lb (2 ^ 31) (leadsTo lb) calls)
      (ComesBack lb (2 ^ 31) (leadsTo lb) calls) := by
  induction calls with
  | zero => exact ⟨fun _ _ => behaves_error _, fun _ _ _ => bindIfds_grows⟩
  | succ calls ih =>
    have hwalks := walks ih hlen
    refine ⟨fun off ifds => ⟨?_, ?_⟩, fun _ _ _ => bindIfds_grows⟩
    · exact hwalks.yields_iff (off, ifds)
    · exact hwalks.ends_iff (off, ifds) (finite_chain _ _ _ _ _)

end Chain

/-! ## The header -/

/-- The buffer starts like a little endian TIFF file. -/
structure TiffHeader (lb : LBuf) : Prop where
  len : 8 ≤ lb.len.toNat
  byteOrder : natOf (slice lb.bytes 0 2) = 0x4949
  id : natOf (slice lb.bytes 2 2) = 42

def ifd0At (lb : LBuf) : Nat := natOf (slice lb.bytes 4 4)

section Header

variable {lb : LBuf}

theorem readHeader {el : Elem} {off : Nat} (hunsigned : el.signed = false)
    (h : off + el.size ≤ 8) (hlen : 8 ≤ lb.len.toNat) :
    toBind (Entry.field lb el off) = .ok (natOf (slice lb.bytes off el.size)) := by
  rw [toBind_ok, field_fitting hunsigned (by omega), if_pos (by omega)]

theorem followPath_ifd (index : Nat) (ifds : Option (List Ifd)) (cur : Option Ifd) :
    ∃ ifd, followPath [.ifd index] ifds cur = .ok ifd := by
  cases ifds with
  | none => exact ⟨_, rfl⟩
  | some ifds =>
    unfold followPath
    cases ifds[index]? <;> exact ⟨_, rfl⟩

theorem followPath_exif (ifds : Option (List Ifd)) (cur : Ifd) :
    ∃ ifd, followPath [.exif] ifds (some cur) = .ok ifd := by
  cases ifds with
  | none => exact ⟨_, rfl⟩
  | some ifds =>
    unfold followPath
    cases cur.exif <;> exact ⟨_, rfl⟩

/-- The shortcuts can be followed. -/
theorem getIfd_part (ifds : List Ifd) {part : PathPart} (hpart : part ≠ .other) :
    ∃ ifd, getIfd ifds [.ifd 0, part] = .ok ifd := by
  unfold getIfd followPath
  cases ifds[0]? with
  | none => exact ⟨_, rfl⟩
  | some ifd =>
    cases part with
    | ifd index => exact followPath_ifd index _ _
    | exif => exact followPath_exif _ _
    | other => exact absurd rfl hpart

/-- What is left of `bind_header` once the header has been checked. -/
theorem bindHeader_eq (h : TiffHeader lb) (calls : Nat) :
    bindHeader lb calls = (do
      let ifds ← bindIfds lb calls (ifd0At lb) []
      let mainIfd ← getIfd ifds [.ifd 0]
      let rawIfd ← getIfd ifds [.ifd 0, .ifd 0]
      let exifIfd ← getIfd ifds [.ifd 0, .exif]
      return .ok ⟨ifds, mainIfd, rawIfd, exifIfd⟩) := by
  have hlen := h.len
  have hfields := bindFields_eq lb.len.toNat [2, 2, 4] (Nat.zero_le _)
  have hsum : [2, 2, 4].sum = 8 := rfl
  rw [hsum, if_pos (by omega)] at hfields
  have horder := @readHeader lb .u16 0 rfl (by decide) hlen
  have hid := @readHeader lb .u16 2 rfl (by decide) hlen
  have hifd0 := @readHeader lb .u32 4 rfl (by decide) hlen
  have horder' : natOf (slice lb.bytes 0 Elem.u16.size) = 0x4949 := h.byteOrder
  have hid' : natOf (slice lb.bytes 2 Elem.u16.size) = 42 := h.id
  unfold bindHeader bindTiffHeader
  rw [Fuelled.ok_bind hfields, Fuelled.ok_bind horder, horder', if_neg (not_not.mpr rfl)]
  rw [Fuelled.ok_bind hid, hid', if_neg (not_not.mpr rfl), Fuelled.ok_bind hifd0]
  rfl

/-- Nothing is bound behind any other header. -/
theorem bindHeader_other (h : ¬TiffHeader lb) (calls : Nat) :
    (bindHeader lb calls).Ends ∧ ∀ d, ¬(bindHeader lb calls).Yields (.ok d) := by
  have hfields := bindFields_eq lb.len.toNat [2, 2, 4] (Nat.zero_le _)
  have hsum : [2, 2, 4].sum = 8 := rfl
  unfold bindHeader bindTiffHeader
  by_cases hlen : 8 ≤ lb.len.toNat
  · have horder := @readHeader lb .u16 0 rfl (by decide) hlen
    have hid := @readHeader lb .u16 2 rfl (by decide) hlen
    rw [hsum, if_pos (by omega)] at hfields
    rw [Fuelled.ok_bind hfields, Fuelled.ok_bind horder]
    by_cases hlittle : natOf (slice lb.bytes 0 Elem.u16.size) = 0x4949
    · rw [if_neg (not_not.mpr hlittle), Fuelled.ok_bind hid]
      by_cases hid42 : natOf (slice lb.bytes 2 Elem.u16.size) = 42
      · exact absurd ⟨hlen, hlittle, hid42⟩ h
      · rw [if_pos hid42]
        exact ⟨ends_pure _, fun d hd => by cases yields_pure.mp hd⟩
    · rw [if_pos hlittle]
      by_cases hbig : natOf (slice lb.bytes 0 Elem.u16.size) = 0x4d4d
      · rw [if_pos hbig]
        exact ⟨ends_pure _, fun d hd => by cases yields_pure.mp hd⟩
      · rw [if_neg hbig]
        exact ⟨ends_pure _, fun d hd => by cases yields_pure.mp hd⟩
  · rw [hsum, if_neg (by omega)] at hfields
    rw [Fuelled.error_bind hfields]
    exact ⟨ends_ofExcept _, fun d hd => by cases yields_ofExcept.mp hd⟩

/-- The header is returned, with its IFDs, if and only if all chains are whole. -/
theorem bindHeader_yields_iff (lb : LBuf) (calls : Nat) :
    (∃ d, (bindHeader lb calls).Yields (.ok d)) ↔
      TiffHeader lb ∧ Whole lb (2 ^ 31) (leadsTo lb) calls (ifd0At lb) := by
  by_cases h : TiffHeader lb
  · have hlen := h.len
    have hbinds := (bindIfds_binds (by omega : 4 ≤ lb.len.toNat) calls).behaves (ifd0At lb) []
    rw [bindHeader_eq h, and_iff_right h, ← hbinds.yields]
    constructor
    · rintro ⟨d, hd⟩
      obtain ⟨ifds, hifds, -⟩ := yields_bind.mp hd
      exact ⟨ifds, hifds⟩
    · rintro ⟨ifds, hifds⟩
      obtain ⟨mainIfd, hmain⟩ : ∃ ifd, getIfd ifds [.ifd 0] = .ok ifd :=
        followPath_ifd 0 (some ifds) none
      obtain ⟨rawIfd, hraw⟩ := @getIfd_part ifds (.ifd 0) (by simp)
      obtain ⟨exifIfd, hexif⟩ := @getIfd_part ifds .exif (by simp)
      refine ⟨⟨ifds, mainIfd, rawIfd, exifIfd⟩, yields_bind.mpr ⟨ifds, hifds, ?_⟩⟩
      rw [Fuelled.ok_bind hmain, Fuelled.ok_bind hraw, Fuelled.ok_bind hexif]
      exact yields_pure.mpr rfl
  · constructor
    · rintro ⟨d, hd⟩
      exact absurd hd ((bindHeader_other h calls).2 d)
    · exact fun hwhole => absurd hwhole.1 h

/-- For every buffer and every depth of the Lua stack: `bind_header` ends, with a header, with
false or with an error, unless the walk comes to a chain that comes back to an IFD that it has
passed. -/
theorem bindHeader_ends_iff (lb : LBuf) (calls : Nat) :
    (bindHeader lb calls).Ends ↔
      ¬(TiffHeader lb ∧ ComesBack lb (2 ^ 31) (leadsTo lb) calls (ifd0At lb)) := by
  by_cases h : TiffHeader lb
  · have hlen := h.len
    have hbinds := (bindIfds_binds (by omega : 4 ≤ lb.len.toNat) calls).behaves (ifd0At lb) []
    rw [bindHeader_eq h, and_iff_right h, ← hbinds.ends, ends_bind]
    apply and_iff_left
    intro ifds _
    exact ends_bind.mpr ⟨ends_lift _, fun _ _ => ends_bind.mpr ⟨ends_lift _, fun _ _ =>
      ends_bind.mpr ⟨ends_lift _, fun _ _ => ends_pure _⟩⟩⟩
  · exact iff_of_true (bindHeader_other h calls).1 fun hback => h hback.1

end Header

/-- A header and an IFD without entries, whose next IFD is itself. -/
def selfLinked : LBuf :=
  ⟨14, fun i => [0x49, 0x49, 42, 0, 8, 0, 0, 0, 0, 0, 8, 0, 0, 0].getD i 0⟩

theorem not_bindHeader_ends : ¬∀ (lb : LBuf) (calls : Nat), (bindHeader lb calls).Ends := by
  intro hall
  have hheader : TiffHeader selfLinked := ⟨by decide, by decide, by decide⟩
  have hbinds := (bindIfds_binds (by decide : 4 ≤ selfLinked.len.toNat) 1).behaves 8 []
  have hends := hall selfLinked 1
  have hifd0 : ifd0At selfLinked = 8 := by decide
  rw [bindHeader_eq hheader, hifd0] at hends
  have hnext : Next selfLinked (2 ^ 31) (leadsTo selfLinked)
      (Whole selfLinked (2 ^ 31) (leadsTo selfLinked) 0) 8 8 := by
    refine ⟨⟨⟨by decide, by decide⟩, fun e he => ?_, ⟨by decide, by decide⟩⟩, by decide, by decide⟩
    have hempty : entriesAt selfLinked 8 = [] := by decide
    rw [hempty] at he
    exact absurd he List.not_mem_nil
  exact hbinds.ends.mp (ends_bind.mp hends).1 ⟨8, .refl, Or.inl (TransGen.single hnext)⟩

end IfdWalk
