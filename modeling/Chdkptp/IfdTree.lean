import Chdkptp.IfdWalk

/-!
# The tree of IFDs

What `bind_ifds` returns, and when it is what the offsets that are stored in the file say.
-/

namespace IfdTree

open ByteMemory Lbuf LittleEndian LbufValues DngEntry BindIfds Fuelled IfdWalk Relation

/-! ## Trees -/

/-- The offsets of the IFDs of a chain, up to the one that has no next one. -/
def IsChain (lb : LBuf) : Nat → List Nat → Prop
  | _, [] => False
  | off, ifd :: ifds =>
    ifd = off ∧ if nextAt lb off = 0 then ifds = [] else IsChain lb (nextAt lb off) ifds

/-- The last entry with a tag. -/
def lastOf (lb : LBuf) (tag : Nat) (entries : List Entry) : Option Entry :=
  entries.reverse.find? fun e => tagAt lb e = tag

section Trees

variable (lb : LBuf) (leads : Entry → Option (List Nat))

section Level

variable (Tree : Nat → List Ifd → Prop)

/-- The chains of an entry, appended to one list. -/
def Chains (e : Option Entry) (ifds : Option (List Ifd)) : Prop :=
  match e with
  | none => ifds = none
  | some e => ∃ offs chains, leads e = some offs ∧ ifds = some chains.flatten ∧
      List.Forall₂ Tree offs chains

structure IsIfd (ifd : Ifd) : Prop where
  entries : ifd.entries = entriesAt lb ifd.off
  sub : Chains leads Tree (lastOf lb tagSubIfds (entriesAt lb ifd.off)) ifd.sub
  exif : Chains leads Tree (lastOf lb tagExifIfd (entriesAt lb ifd.off)) ifd.exif

end Level

/-- The list is the chain from an IFD, and the lists of its IFDs are the chains that their
entries lead to. -/
def IsTree : (depth : Nat) → Nat → List Ifd → Prop
  | 0, _, _ => False
  | depth + 1, off, ifds =>
    IsChain lb off (ifds.map Ifd.off) ∧ ∀ ifd ∈ ifds, IsIfd lb leads (IsTree depth) ifd

end Trees

/-! ## What is bound -/

section Bound

variable {lb : LBuf} {bind : Nat → List Ifd → Fuelled BindError (List Ifd)}
  {Whole Back : Nat → Prop} {Tree : Nat → List Ifd → Prop}

theorem lastOf_append (tag : Nat) (entries : List Entry) (e : Entry) :
    lastOf lb tag (entries ++ [e]) =
      if tagAt lb e = tag then some e else lastOf lb tag entries := by
  unfold lastOf
  rw [List.reverse_append, List.reverse_singleton, List.singleton_append, List.find?_cons]
  by_cases htag : tagAt lb e = tag
  · simp [htag]
  · simp [htag]

/-- A bind function that appends the tree from an offset. -/
structure Grows (bind : Nat → List Ifd → Fuelled BindError (List Ifd))
    (Tree : Nat → List Ifd → Prop) : Prop where
  appends : ∀ off ifds ifds', (bind off ifds).Yields ifds' → ∃ l, ifds' = ifds ++ l ∧ Tree off l
  mark : ∀ off ifd l, Tree off (ifd :: l) → Tree off ({ ifd with isExif := true } :: l)

theorem bindSub_chains (hbinds : Binds bind Whole Back) (h : Grows bind Tree) {e : Entry}
    (hbound : e.off + 12 ≤ lb.len.toNat) (hoff : e.off < 2 ^ 31) (htag : tagAt lb e = tagSubIfds)
    {sub : List Ifd} (hsub : (bindSub lb bind e).Yields sub) :
    Chains (leadsTo lb) Tree (some e) (some sub) := by
  obtain ⟨offs, hoffs, -⟩ := (bindSub_behaves hbinds hbound hoff htag).yields.mp ⟨sub, hsub⟩
  obtain ⟨n, hn, hloop⟩ := yields_bind.mp hsub
  have hcount := readCount hbound
  have hleads := hoffs
  unfold leadsTo at hleads
  rw [if_neg (not_not.mpr ⟨hbound, hoff⟩), if_pos htag] at hleads
  by_cases hlow : e.off + 4 < 2 ^ 31
  · rw [if_pos hlow, yields_lift.mp hn] at hcount
    cases hcount
    rw [if_neg (not_not.mpr hlow)] at hleads
    by_cases hzero : (headerAt lb.bytes e.off).count = 0
    · rw [if_pos hzero] at hleads
      rw [hzero] at hloop
      cases yields_pure.mp hloop
      cases hleads
      exact ⟨[], [], hoffs, rfl, .nil⟩
    · rw [if_neg hzero] at hleads
      by_cases hhigh : e.off + 8 < 2 ^ 31
      · rw [if_neg (not_not.mpr hhigh)] at hleads
        obtain ⟨t, htype, rfl⟩ := Option.map_eq_some_iff.mp hleads
        have hkeeps : ∀ k sub sub',
            (∃ chains, sub = chains.flatten ∧ List.Forall₂ Tree ((List.range k).map
              fun i => (headerAt lb.bytes e.off).valoff + i * t.elsize) chains) →
            (bindSubAt lb bind e sub k).Yields sub' →
            ∃ chains, sub' = chains.flatten ∧ List.Forall₂ Tree ((List.range (k + 1)).map
              fun i => (headerAt lb.bytes e.off).valoff + i * t.elsize) chains := by
          rintro k _ sub' ⟨chains, rfl, hchains⟩ hsub'
          rw [bindSubAt_known hbound _ k hhigh htype] at hsub'
          obtain ⟨l, rfl, hl⟩ := h.appends _ _ _ hsub'
          refine ⟨chains ++ [l], by simp, ?_⟩
          rw [List.range_succ, List.map_append]
          exact List.rel_append hchains (.cons hl .nil)
        obtain ⟨chains, hflat, hchains⟩ := foldlM_range_invariant hkeeps ⟨[], rfl, .nil⟩ hloop
        exact ⟨_, chains, hoffs, congrArg some hflat, hchains⟩
      · rw [if_pos hhigh] at hleads
        cases hleads
  · rw [if_pos hlow] at hleads
    cases hleads

theorem bindExif_chains (hbinds : Binds bind Whole Back) (h : Grows bind Tree) {e : Entry}
    (hbound : e.off + 12 ≤ lb.len.toNat) (hoff : e.off < 2 ^ 31) (hsub : tagAt lb e ≠ tagSubIfds)
    (htag : tagAt lb e = tagExifIfd) {exif : List Ifd}
    (hexif : (bindExif lb bind e).Yields exif) :
    Chains (leadsTo lb) Tree (some e) (some exif) := by
  obtain ⟨offs, hoffs, -⟩ := (bindExif_behaves hbinds hbound hoff hsub htag).yields.mp ⟨exif, hexif⟩
  obtain ⟨n, hn, hexif⟩ := yields_bind.mp hexif
  have hcount := readCount hbound
  have hvaloff := readValoff hbound
  have hleads := hoffs
  unfold leadsTo at hleads
  rw [if_neg (not_not.mpr ⟨hbound, hoff⟩), if_neg hsub, if_pos htag] at hleads
  by_cases hlow : e.off + 4 < 2 ^ 31
  · rw [if_pos hlow, yields_lift.mp hn] at hcount
    cases hcount
    rw [if_neg (not_not.mpr hlow)] at hleads
    by_cases hone : (headerAt lb.bytes e.off).count = 1
    · rw [if_neg (not_not.mpr hone)] at hleads
      rw [if_pos hone] at hexif
      by_cases hhigh : e.off + 8 < 2 ^ 31
      · rw [if_neg (not_not.mpr hhigh)] at hleads
        cases hleads
        rw [if_pos hhigh] at hvaloff
        rw [Fuelled.ok_bind hvaloff] at hexif
        obtain ⟨bound, hbound, hmark⟩ := yields_bind.mp hexif
        obtain ⟨l, hl, htree⟩ := h.appends _ _ _ hbound
        have hmark := yields_lift.mp hmark
        rw [hl, List.nil_append] at hmark
        cases l with
        | nil => cases hmark
        | cons ifd l =>
          cases hmark
          exact ⟨_, [{ ifd with isExif := true } :: l], hoffs, by simp,
            .cons (h.mark _ _ _ htree) .nil⟩
      · rw [if_pos hhigh] at hleads
        cases hleads
    · rw [if_pos hone] at hleads
      rw [if_neg hone] at hexif
      cases hleads
      cases yields_pure.mp hexif
      exact ⟨[], [], hoffs, rfl, .nil⟩
  · rw [if_pos hlow] at hleads
    cases hleads

/-- An IFD of which so many entries are bound. -/
structure Partly (lb : LBuf) (Tree : Nat → List Ifd → Prop) (off k : Nat) (ifd : Ifd) : Prop where
  place : ifd.off = off
  entries : ifd.entries = (List.range k).map (entryAt off)
  sub : Chains (leadsTo lb) Tree (lastOf lb tagSubIfds ((List.range k).map (entryAt off))) ifd.sub
  exif : Chains (leadsTo lb) Tree (lastOf lb tagExifIfd ((List.range k).map (entryAt off))) ifd.exif

theorem bindIfdEntry_iff {off i : Nat} {e : Entry} :
    bindIfdEntry lb off i = .ok e ↔
      (entryAt off i).off + 12 ≤ lb.len.toNat ∧ entryAt off i = e := by
  by_cases hbound : (entryAt off i).off + 12 ≤ lb.len.toNat
  · rw [bindIfdEntry_ok hbound, Except.ok.injEq, and_iff_right hbound]
  · obtain ⟨err, herr⟩ := bindIfdEntry_error hbound
    rw [herr]
    exact iff_of_false (by simp) fun h => hbound h.1

theorem readTag_iff {e : Entry} (hbound : e.off + 12 ≤ lb.len.toNat) {tag : Nat} :
    toBind (e.tag lb) = .ok tag ↔ e.off < 2 ^ 31 ∧ tagAt lb e = tag := by
  rw [readTag hbound]
  by_cases hoff : e.off < 2 ^ 31
  · rw [if_pos hoff, Except.ok.injEq, and_iff_right hoff]
  · rw [if_neg hoff]
    exact iff_of_false (by simp) fun h => hoff h.1

/-- One more entry is bound. -/
theorem bindEntry_partly (hbinds : Binds bind Whole Back) (h : Grows bind Tree) {off k : Nat}
    {ifd ifd' : Ifd} (hifd : Partly lb Tree off k ifd)
    (hstep : (bindEntry lb bind ifd k).Yields ifd') : Partly lb Tree off (k + 1) ifd' := by
  obtain ⟨e, he, hstep⟩ := yields_bind.mp hstep
  obtain ⟨hbound, rfl⟩ := bindIfdEntry_iff.mp (yields_lift.mp he)
  obtain ⟨tag, htag, hstep⟩ := yields_bind.mp hstep
  obtain ⟨hoff, rfl⟩ := (readTag_iff hbound).mp (yields_lift.mp htag)
  rw [hifd.place] at hbound hoff hstep
  have hmore : (List.range (k + 1)).map (entryAt off) =
      (List.range k).map (entryAt off) ++ [entryAt off k] := by
    rw [List.range_succ, List.map_append, List.map_singleton]
  have hentries : ifd.entries ++ [entryAt off k] = (List.range (k + 1)).map (entryAt off) := by
    rw [hifd.entries, hmore]
  -- an entry with another tag leaves the list of this tag as it is
  have hkeeps : ∀ {tag : Nat} {ifds : Option (List Ifd)}, tagAt lb (entryAt off k) ≠ tag →
      Chains (leadsTo lb) Tree (lastOf lb tag ((List.range k).map (entryAt off))) ifds →
      Chains (leadsTo lb) Tree (lastOf lb tag ((List.range (k + 1)).map (entryAt off))) ifds := by
    intro tag ifds hne hchains
    rw [hmore, lastOf_append, if_neg hne]
    exact hchains
  have hnew : ∀ {tag : Nat} {ifds : Option (List Ifd)}, tagAt lb (entryAt off k) = tag →
      Chains (leadsTo lb) Tree (some (entryAt off k)) ifds →
      Chains (leadsTo lb) Tree (lastOf lb tag ((List.range (k + 1)).map (entryAt off))) ifds := by
    intro tag ifds heq hchains
    rw [hmore, lastOf_append, if_pos heq]
    exact hchains
  dsimp only at hstep
  by_cases hsub : tagAt lb (entryAt off k) = tagSubIfds
  · rw [if_pos hsub] at hstep
    obtain ⟨sub, hsubs, hstep⟩ := yields_bind.mp hstep
    cases yields_pure.mp hstep
    exact ⟨rfl, hentries, hnew hsub (bindSub_chains hbinds h hbound hoff hsub hsubs),
      hkeeps (by rw [hsub]; decide) hifd.exif⟩
  · rw [if_neg hsub] at hstep
    by_cases hexif : tagAt lb (entryAt off k) = tagExifIfd
    · rw [if_pos hexif] at hstep
      obtain ⟨exif, hexifs, hstep⟩ := yields_bind.mp hstep
      cases yields_pure.mp hstep
      exact ⟨rfl, hentries, hkeeps hsub hifd.sub,
        hnew hexif (bindExif_chains hbinds h hbound hoff hsub hexif hexifs)⟩
    · rw [if_neg hexif] at hstep
      cases yields_pure.mp hstep
      exact ⟨rfl, hentries, hkeeps hsub hifd.sub, hkeeps hexif hifd.exif⟩

/-- One IFD of a chain. -/
theorem bindIfd_isIfd (hbinds : Binds bind Whole Back) (h : Grows bind Tree)
    (hlen : 4 ≤ lb.len.toNat) {index off next : Nat} {ifd : Ifd}
    (hifd : (bindIfd lb bind index off).Yields (ifd, next)) :
    ifd.off = off ∧ nextAt lb off = next ∧ IsIfd lb (leadsTo lb) Tree ifd := by
  have hnext := ((bindIfd_yields_iff hbinds hlen index next).mp ⟨ifd, hifd⟩).2
  obtain ⟨u, hin, hifd⟩ := yields_bind.mp hifd
  obtain ⟨n, hn, hifd⟩ := yields_bind.mp hifd
  obtain ⟨ifd', hentries, hifd⟩ := yields_bind.mp hifd
  obtain ⟨next', -, hifd⟩ := yields_bind.mp hifd
  obtain ⟨-, hfew⟩ := (readEntries_iff hlen (inside_iff.mp (yields_lift.mp hin))).mp
    (yields_lift.mp hn)
  obtain ⟨rfl, -⟩ := Prod.mk.inj (yields_pure.mp hifd)
  rw [← hfew] at hentries
  have hnone : Partly lb Tree off 0 ⟨index, off, nEntriesAt lb off, [], [], none, none, false⟩ :=
    ⟨rfl, rfl, rfl, rfl⟩
  have hkeeps : ∀ (k : Nat) (ifd ifd' : Ifd), Partly lb Tree off k ifd →
      (bindEntry lb bind ifd k).Yields ifd' → Partly lb Tree off (k + 1) ifd' :=
    fun k ifd ifd' => bindEntry_partly hbinds h
  have hall := foldlM_range_invariant hkeeps hnone hentries
  refine ⟨hall.place, hnext, ?_, ?_, ?_⟩
  · rw [hall.place]
    exact hall.entries
  · rw [hall.place]
    exact hall.sub
  · rw [hall.place]
    exact hall.exif

/-- What a call appends is the tree from the offset that it is called for. -/
theorem bindIfds_grows_tree (hlen : 4 ≤ lb.len.toNat) (calls : Nat) :
    Grows (bindIfds lb calls) (IsTree lb (leadsTo lb) calls) := by
  induction calls with
  | zero =>
    constructor
    · intro off ifds ifds' h
      cases yields_ofExcept.mp h
    · exact fun _ _ _ h => h
  | succ calls ih =>
    have hbinds := bindIfds_binds hlen calls
    constructor
    · intro off ifds ifds' hyields
      rw [bindIfds_succ] at hyields
      -- whatever the chain goes on with, what is bound so far stands in front of it
      have hnext : ∀ s s' : Nat × List Ifd, (∃ l, s.2 = ifds ++ l ∧
            (∀ rest, IsChain lb s.1 rest → IsChain lb off (l.map Ifd.off ++ rest)) ∧
            ∀ ifd ∈ l, IsIfd lb (leadsTo lb) (IsTree lb (leadsTo lb) calls) ifd) →
          (pass lb calls s).Yields (.inl s') → ∃ l, s'.2 = ifds ++ l ∧
            (∀ rest, IsChain lb s'.1 rest → IsChain lb off (l.map Ifd.off ++ rest)) ∧
            ∀ ifd ∈ l, IsIfd lb (leadsTo lb) (IsTree lb (leadsTo lb) calls) ifd := by
        rintro s s' ⟨l, hl, hchain, hifds⟩ hs'
        obtain ⟨hne, ifd, hlist, hifd⟩ := pass_inl.mp hs'
        obtain ⟨hoff, hat, hifd⟩ := bindIfd_isIfd hbinds ih hlen hifd
        refine ⟨l ++ [ifd], by rw [hlist, hl, List.append_assoc], fun rest hrest => ?_, ?_⟩
        · rw [List.map_append, List.map_singleton, List.append_assoc]
          apply hchain
          refine ⟨hoff, ?_⟩
          rw [hat, if_neg hne]
          exact hrest
        · exact List.forall_mem_append.mpr ⟨hifds, List.forall_mem_singleton.mpr hifd⟩
      have hlast : ∀ (s : Nat × List Ifd) (all : List Ifd), (∃ l, s.2 = ifds ++ l ∧
            (∀ rest, IsChain lb s.1 rest → IsChain lb off (l.map Ifd.off ++ rest)) ∧
            ∀ ifd ∈ l, IsIfd lb (leadsTo lb) (IsTree lb (leadsTo lb) calls) ifd) →
          (pass lb calls s).Yields (.inr all) →
            ∃ l, all = ifds ++ l ∧ IsTree lb (leadsTo lb) (calls + 1) off l := by
        rintro s all ⟨l, hl, hchain, hifds⟩ hall
        obtain ⟨ifd, rfl, hifd⟩ := pass_inr.mp hall
        obtain ⟨hoff, hat, hifd⟩ := bindIfd_isIfd hbinds ih hlen hifd
        refine ⟨l ++ [ifd], by rw [hl, List.append_assoc], ?_, ?_⟩
        · rw [List.map_append, List.map_singleton]
          apply hchain
          refine ⟨hoff, ?_⟩
          rw [hat, if_pos rfl]
        · exact List.forall_mem_append.mpr ⟨hifds, List.forall_mem_singleton.mpr hifd⟩
      exact repeat_invariant hnext hlast ⟨[], by simp, fun rest h => h, by simp⟩ hyields
    · rintro off ifd l ⟨hchain, hifds⟩
      refine ⟨hchain, fun ifd' hifd' => ?_⟩
      rcases List.mem_cons.mp hifd' with rfl | hifd'
      · have hifd := hifds ifd List.mem_cons_self
        exact ⟨hifd.entries, hifd.sub, hifd.exif⟩
      · exact hifds ifd' (List.mem_cons_of_mem _ hifd')

end Bound

end IfdTree
