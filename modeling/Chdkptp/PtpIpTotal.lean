import Chdkptp.PtpSend

/-!
# The announced size

A device may send any packets after START_DATA. The data phase should store no
more than the announced size, read no packet whose remaining size is computed
below zero and succeed only if END_DATA comes when the announced size has been
received. The loop looks at the announced size behind each packet only, so this
depends on the packets; `Proper` describes those that the code handles so.
-/

namespace PtpIpTotal

open ByteMemory ByteStream BoundedLoop PtpBuffer PtpUsb PtpIp PtpIpRead PtpIpData PtpSend

structure Contained (blockSize : UInt32) (total : UInt64) (r : TcpGetdata) : Prop where
  stored : ∀ bytes, r.retData = some bytes → bytes.length ≤ total.toNat
  lengths : ∀ h ∈ r.headers, 0 ≤ payloadLength blockSize h.1 h.2
  ended : r.ret = ptpRcOk → r.endAt = some total.toNat

/-! ## Proper packet sequences -/

/-- Without a handler the data goes to memory of the announced size. -/
def Fits (blockSize : UInt32) (total : UInt64) (data : List UInt8) : Prop :=
  blockSize = 0 → data.length ≤ total.toNat

/-- The handler refuses the last, partial block. -/
def RestRefused (handler : Handler) (blockSize : UInt32) (data : List UInt8) : Prop :=
  ∃ before rest, blockSize ≠ 0 ∧ (∀ b ∈ before, b.length = blockSize.toNat) ∧ rest ≠ [] ∧
    rest.length < blockSize.toNat ∧ data = before.flatten ++ rest ∧ handler before rest ≠ ptpRcOk

/-- What may follow the last packet that the loop reads: with END_DATA behind us it
must have come at the announced size; else an END_DATA packet may only come if
that size has been received. -/
def Settled (handler : Handler) (blockSize : UInt32) (total : UInt64) (endAt : Option Nat)
    (data S : List UInt8) : Prop :=
  RestRefused handler blockSize data ∨
    match endAt with
    | some n => n = total.toNat
    | none => Measured blockSize S ∧
        (12 ≤ S.length → headType S = ptpipTypeEndData → data.length = total.toNat)

/-- Where the first END_DATA packet came, after the packet at the head of `S`. -/
def endPosition (endAt : Option Nat) (S : List UInt8) (n : Nat) : Option Nat :=
  if isEnd S && !endAt.isSome then some n else endAt

/-- The packets at the head of a stream that keep the data phase within its bounds,
when `data` has been received before. -/
inductive Proper (handler : Handler) (blockSize : UInt32) (total : UInt64) :
    Option Nat → List UInt8 → List UInt8 → Prop where
  /-- No data packet can be read. -/
  | stop {endAt : Option Nat} {data S : List UInt8} (hm : Measured blockSize S)
      (hstop : ¬(DataPacket (headType S) ∧ 12 ≤ S.length)) : Proper handler blockSize total endAt data S
  /-- Its payload cannot be read or is refused. -/
  | cut {endAt : Option Nat} {data S : List UInt8} (hm : Measured blockSize S)
      (hdata : DataPacket (headType S)) (hlong : 12 ≤ S.length)
      (hfits : Fits blockSize total (data ++ payload S))
      (hcut : (payload S).length < payloadSize S ∨ Refused handler blockSize (data ++ payload S)) :
      Proper handler blockSize total endAt data S
  /-- The packet is read and more is expected. -/
  | next {endAt : Option Nat} {data S : List UInt8} (hm : Measured blockSize S)
      (hdata : DataPacket (headType S)) (hlong : 12 ≤ S.length)
      (hwhole : (payload S).length = payloadSize S)
      (hfits : Fits blockSize total (data ++ payload S))
      (hmore : UInt64.ofNat (data ++ payload S).length < total)
      (hrest : Proper handler blockSize total
        (endPosition endAt S (data ++ payload S).length) (data ++ payload S) (behind S)) :
      Proper handler blockSize total endAt data S
  /-- The packet is read and nothing more is expected. -/
  | last {endAt : Option Nat} {data S : List UInt8} (hm : Measured blockSize S)
      (hdata : DataPacket (headType S)) (hlong : 12 ≤ S.length)
      (hwhole : (payload S).length = payloadSize S)
      (hfits : Fits blockSize total (data ++ payload S))
      (hdone : ¬UInt64.ofNat (data ++ payload S).length < total)
      (hsettled : Settled handler blockSize total
        (endPosition endAt S (data ++ payload S).length) (data ++ payload S) (behind S)) :
      Proper handler blockSize total endAt data S

theorem toInt_nonneg_of_lt {n : Nat} (h : n < 2 ^ 31) : 0 ≤ toInt n := by
  rw [toInt_of_lt (by omega) (by omega)]
  omega

/-- The size of a packet that is there is measured. -/
theorem measured_nonneg {blockSize : UInt32} {S : List UInt8} (hm : Measured blockSize S) (hheader : ptpipHeaderLen ≤ S.length)
    (hknown : WholePacket (headType S) ∨ (DataPacket (headType S) ∧ 12 ≤ S.length)) :
    0 ≤ payloadLength blockSize (headType S) (headLength S) := by
  rcases hknown with hwhole | ⟨hdata, hlong⟩
  · have hneg := hm.not_negative hheader
    have hlt := (headLength S).toNat_lt
    rw [payloadLength, if_neg (whole_not_data hwhole)]
    split
    · rename_i hmore
      have hsmall : (headLength S).toNat < 2 ^ 31 + ptpipHeaderLen :=
        Nat.lt_of_not_le fun h => hneg ⟨hwhole, h⟩
      have hcast : ((headLength S).toNat : Int) - ptpipHeaderLen =
          ((headLength S).toNat - ptpipHeaderLen : Nat) := by omega
      rw [hcast]
      exact toInt_nonneg_of_lt (by omega)
    · exact Int.le_refl 0
  · exact hm (enough_data hdata hlong)

theorem Proper.measured {handler : Handler} {blockSize : UInt32} {total : UInt64}
    {endAt : Option Nat} {data S : List UInt8} (h : Proper handler blockSize total endAt data S) :
    Measured blockSize S := by
  cases h <;> assumption

/-! ## The packet loop -/

section Phase

variable {handler : Handler} {blockSize : UInt32} {total : UInt64}

/-- What the loop has to leave with. -/
structure Outcome (handler : Handler) (total : UInt64) (ret : UInt16) (s : PhaseState blockSize) :
    Prop where
  headers : ∀ h ∈ s.headers, 0 ≤ payloadLength blockSize h.1 h.2
  fits : Fits blockSize total s.data.received
  settled : ret = ptpRcOk →
    Settled handler blockSize total s.endAt s.data.received (stream s.data.params)

/-- What it leaves with in any case. -/
structure Left (handler : Handler) (ret : UInt16) (s : PhaseState blockSize) : Prop where
  memory : blockSize = 0 → s.data.blocks = []
  kept : ret = ptpRcOk → Kept handler s.data
  gotEnd : ret = ptpRcOk → s.gotEnd = s.endAt.isSome

/-- The flag is set when the place is. -/
theorem gotEnd_advanced {s s' : PhaseState blockSize} (h : Advanced handler s s')
    (hend : s.gotEnd = s.endAt.isSome) : s'.gotEnd = s'.endAt.isSome := by
  rw [h.gotEnd, h.endAt, hend]
  cases isEnd (stream s.data.params) <;> cases s.endAt <;> rfl

theorem position_advanced {s s' : PhaseState blockSize} (h : Advanced handler s s')
    (hend : s.gotEnd = s.endAt.isSome) :
    s'.endAt = endPosition s.endAt (stream s.data.params) s'.data.received.length := by
  rw [h.endAt, hend, endPosition]

theorem headers_advanced {s s' : PhaseState blockSize} (h : Advanced handler s s')
    (hm : Measured blockSize (stream s.data.params)) (hheaders : ∀ h ∈ s.headers, 0 ≤ payloadLength blockSize h.1 h.2) :
    ∀ h ∈ s'.headers, 0 ≤ payloadLength blockSize h.1 h.2 := by
  rw [h.headers]
  intro p hp
  rcases List.mem_append.mp hp with hp | hp
  · exact hheaders p hp
  · rw [List.mem_singleton.mp hp]
    exact hm (enough_data h.data h.long)

/-- A pass of the loop on proper packets. -/
structure Sound (handler : Handler) (total : UInt64) (s : PhaseState blockSize) : Prop where
  kept : Kept handler s.data
  gotEnd : s.gotEnd = s.endAt.isSome
  headers : ∀ h ∈ s.headers, 0 ≤ payloadLength blockSize h.1 h.2
  fits : Fits blockSize total s.data.received
  proper : Proper handler blockSize total s.endAt s.data.received (stream s.data.params)

/-- What proper packets allow behind a packet that has been read. -/
theorem Sound.advanced {s s' : PhaseState blockSize} (h : Sound handler total s)
    (hadv : Advanced handler s s') :
    Fits blockSize total s'.data.received ∧
      (s'.data.totalRead < total →
        Proper handler blockSize total s'.endAt s'.data.received (stream s'.data.params)) ∧
      (¬s'.data.totalRead < total →
        Settled handler blockSize total s'.endAt s'.data.received (stream s'.data.params)) := by
  have hreceived := hadv.received
  have hposition := position_advanced hadv h.gotEnd
  rw [hreceived] at hposition
  rw [hadv.kept.total, hadv.rest, hposition, hreceived]
  cases h.proper with
  | stop _ hstop => exact absurd ⟨hadv.data, hadv.long⟩ hstop
  | cut _ _ _ _ hcut =>
    rcases hcut with hcut | hcut
    · rw [hadv.whole] at hcut
      exact absurd hcut (Nat.lt_irrefl _)
    · rw [← hreceived] at hcut
      exact absurd hcut hadv.kept.not_refused
  | next _ _ _ _ hfits hmore hrest =>
    exact ⟨hfits, fun _ => hrest, fun hno => absurd hmore hno⟩
  | last _ _ _ _ hfits hdone hsettled =>
    exact ⟨hfits, fun hlt => absurd hlt hdone, fun _ => hsettled⟩

/-- An error that leaves the loop on proper packets. -/
theorem Sound.failed {s s' : PhaseState blockSize} {ret : UInt16} (h : Sound handler total s)
    (hret : ret ≠ ptpRcOk) (hfail : Failed handler s s') :
    Left handler ret s' ∧ Outcome handler total ret s' := by
  have hm := h.proper.measured
  have hextend : ∀ t : PhaseState blockSize, t.headers = s.headers ++
      [(headType (stream s.data.params), headLength (stream s.data.params))] →
      0 ≤ payloadLength blockSize (headType (stream s.data.params)) (headLength (stream s.data.params)) →
      ∀ h ∈ t.headers, 0 ≤ payloadLength blockSize h.1 h.2 := by
    intro t hheaders hsize p hp
    rw [hheaders] at hp
    rcases List.mem_append.mp hp with hp | hp
    · exact h.headers p hp
    · rw [List.mem_singleton.mp hp]
      exact hsize
  have hno : ret = ptpRcOk → ∀ {p : Prop}, p := fun hok => absurd hok hret
  cases hfail with
  | control hreceived hblocks hheaders _ =>
    refine ⟨⟨hblocks, fun hok => hno hok, fun hok => hno hok⟩, ?_, ?_, fun hok => hno hok⟩
    · rw [hheaders]
      exact h.headers
    · rw [hreceived]
      exact h.fits
  | type hreceived hblocks hheaders hheader hwhole =>
    refine ⟨⟨hblocks, fun hok => hno hok, fun hok => hno hok⟩, ?_, ?_, fun hok => hno hok⟩
    · exact hextend s' hheaders (measured_nonneg hm hheader (.inl hwhole))
    · rw [hreceived]
      exact h.fits
  | payload hdata hlong p hbegin hreceived hblocks hheaders _ =>
    refine ⟨⟨hblocks, fun hok => hno hok, fun hok => hno hok⟩, ?_, ?_, fun hok => hno hok⟩
    · exact hextend s' hheaders (measured_nonneg hm (Nat.le_trans (by decide) hlong) (.inr ⟨hdata, hlong⟩))
    · have hfits : Fits blockSize total
          (s.data.received ++ PtpIpData.payload (stream s.data.params)) := by
        cases h.proper with
        | stop _ hstop => exact absurd ⟨hdata, hlong⟩ hstop
        | cut _ _ _ hfits _ => exact hfits
        | next _ _ _ _ hfits _ _ => exact hfits
        | last _ _ _ _ hfits _ _ => exact hfits
      intro hzero
      have hall := hfits hzero
      have hpart := hbegin.length_le
      rw [hreceived, List.length_append]
      rw [List.length_append] at hall
      omega

/-- Proper packets keep the loop within its bounds, however they arrive. -/
theorem phase_proper {s : PhaseState blockSize} (h : Sound handler total s) :
    (∀ ret s', (phaseLoop handler blockSize total).run s = some (ret, s') →
      Left handler ret s' ∧ Outcome handler total ret s') ∧
    (blockSize.toNat < 2 ^ 31 → (phaseLoop handler blockSize total).run s ≠ none) := by
  refine (phaseLoop handler blockSize total).run_invariant (Sound handler total)
    (fun r => (∀ ret s', r = some (ret, s') → Left handler ret s' ∧ Outcome handler total ret s') ∧
      (blockSize.toNat < 2 ^ 31 → r ≠ none)) ?_ ?_ h
  · intro s s' hs hstep
    rcases phase_step total hs.kept with
      ⟨t, ht, hadv, hlt⟩ | ⟨t, ht, _⟩ | ⟨ret, t, ht, _⟩ | ⟨ht, _⟩ <;> rw [hstep] at ht <;> cases ht
    obtain ⟨hfits, hproper, _⟩ := hs.advanced hadv
    exact ⟨hadv.kept, gotEnd_advanced hadv hs.gotEnd,
      headers_advanced hadv hs.proper.measured hs.headers, hfits, hproper hlt⟩
  · intro s r hs hstep
    rcases phase_step total hs.kept with
      ⟨t, ht, _⟩ | ⟨t, ht, hadv, hge⟩ | ⟨ret, t, ht, hret, hfail⟩ | ⟨ht, hno⟩ <;>
      rw [hstep] at ht <;> cases ht
    · obtain ⟨hfits, _, hsettled⟩ := hs.advanced hadv
      refine ⟨fun ret' t' heq => ?_, fun _ hnone => by cases hnone⟩
      cases heq
      exact ⟨⟨fun hz => (hadv.kept.memory hz).1, fun _ => hadv.kept,
        fun _ => gotEnd_advanced hadv hs.gotEnd⟩,
        headers_advanced hadv hs.proper.measured hs.headers, hfits, fun _ => hsettled hge⟩
    · refine ⟨fun ret' t' heq => ?_, fun _ hnone => by cases hnone⟩
      cases heq
      exact hs.failed hret hfail
    · refine ⟨fun ret' t' heq => ?_, fun hsmall _ => ?_⟩
      · cases heq
      · exact hno (.inl (hs.proper.measured.countable hsmall))

/-- A run on bytes that come one by one: it has a result, and packets that it
handles within its bounds are proper. -/
structure Traced (handler : Handler) (total : UInt64) (s : PhaseState blockSize) (ret : UInt16)
    (s' : PhaseState blockSize) : Prop where
  left : Left handler ret s'
  trickle : ret = ptpRcOk → Trickle s'.data.params
  received : s.data.received <+: s'.data.received
  headers : ∀ h ∈ s.headers, h ∈ s'.headers
  proper : Outcome handler total ret s' →
    Proper handler blockSize total s.endAt s.data.received (stream s.data.params)

theorem fits_of_begin {data data' : List UInt8} (h : data <+: data')
    (hfits : Fits blockSize total data') : Fits blockSize total data :=
  fun hzero => Nat.le_trans h.length_le (hfits hzero)

/-- The header of a packet that was read is in the list. -/
theorem measured_of_header {S : List UInt8}
    (h : 0 ≤ payloadLength blockSize (headType S) (headLength S)) : Measured blockSize S := fun _ => h

theorem traced_failed {s s' : PhaseState blockSize} {ret : UInt16} (hret : ret ≠ ptpRcOk)
    (ht : Trickle s.data.params) (hfail : Failed handler s s') :
    Traced handler total s ret s' := by
  have hno : ret = ptpRcOk → ∀ {p : Prop}, p := fun hok => absurd hok hret
  cases hfail with
  | control hreceived hblocks hheaders hwhy =>
    have henough := hwhy ht.reliable
    refine ⟨⟨hblocks, fun hok => hno hok, fun hok => hno hok⟩, fun hok => hno hok, ?_, ?_, ?_⟩
    · exact ⟨[], by rw [List.append_nil, hreceived]⟩
    · rw [hheaders]
      exact fun _ hp => hp
    · exact fun _ => .stop (fun he => absurd he henough)
        (fun hd => henough (enough_data hd.1 hd.2))
  | type hreceived hblocks hheaders _ hwhole =>
    refine ⟨⟨hblocks, fun hok => hno hok, fun hok => hno hok⟩, fun hok => hno hok, ?_, ?_, ?_⟩
    · exact ⟨[], by rw [List.append_nil, hreceived]⟩
    · rw [hheaders]
      exact fun _ hp => List.mem_append_left _ hp
    · intro hout
      have hsize := hout.headers (headType (stream s.data.params), headLength (stream s.data.params))
        (by rw [hheaders]; exact List.mem_append_right _ List.mem_cons_self)
      exact .stop (measured_of_header hsize) (fun hd => whole_not_data hwhole hd.1)
  | payload hdata hlong p hbegin hreceived hblocks hheaders hwhy =>
    refine ⟨⟨hblocks, fun hok => hno hok, fun hok => hno hok⟩, fun hok => hno hok, ?_, ?_, ?_⟩
    · rw [hreceived]
      exact List.prefix_append _ _
    · rw [hheaders]
      exact fun _ hp => List.mem_append_left _ hp
    · intro hout
      have hsize := hout.headers (headType (stream s.data.params), headLength (stream s.data.params))
        (by rw [hheaders]; exact List.mem_append_right _ List.mem_cons_self)
      have hm := measured_of_header hsize
      rcases hwhy ht.reliable with ⟨hall, hshort⟩ | hrefused
      · refine .cut hm hdata hlong ?_ (.inl ?_)
        · have hfits := hout.fits
          rwa [hreceived, hall] at hfits
        · rwa [hall] at hshort
      · obtain ⟨more, hmore⟩ := hbegin
        obtain ⟨_, _, _, hsizeb, _⟩ := id hrefused
        refine .cut hm hdata hlong (fun hzero => absurd hzero hsizeb) (.inr ?_)
        rw [← hmore, ← List.append_assoc]
        exact hrefused.append more

theorem phase_traced (total : UInt64) {s : PhaseState blockSize} (hk : Kept handler s.data)
    (hend : s.gotEnd = s.endAt.isSome) (ht : Trickle s.data.params) :
    ∃ ret s', (phaseLoop handler blockSize total).run s = some (ret, s') ∧
      Traced handler total s ret s' := by
  revert hk hend ht
  refine (phaseLoop handler blockSize total).run_related
    (fun s r => Kept handler s.data → s.gotEnd = s.endAt.isSome → Trickle s.data.params →
      ∃ ret s', r = some (ret, s') ∧ Traced handler total s ret s') ?_ ?_ s
  · intro s r hstep hk hend ht
    rcases phase_step total hk with
      ⟨t, hnext, _⟩ | ⟨t, hnext, hadv, hge⟩ | ⟨ret, t, hnext, hret, hfail⟩ | ⟨hnext, hno⟩ <;>
      rw [hstep] at hnext <;> cases hnext
    · refine ⟨ptpRcOk, t, rfl, ⟨fun hz => (hadv.kept.memory hz).1, fun _ => hadv.kept,
        fun _ => gotEnd_advanced hadv hend⟩, fun _ => hadv.trickle ht, ?_, ?_, ?_⟩
      · rw [hadv.received]
        exact List.prefix_append _ _
      · rw [hadv.headers]
        exact fun _ hp => List.mem_append_left _ hp
      · intro hout
        have hsize := hout.headers
          (headType (stream s.data.params), headLength (stream s.data.params))
          (by rw [hadv.headers]; exact List.mem_append_right _ List.mem_cons_self)
        have hsettled := hout.settled rfl
        have hfits := hout.fits
        rw [hadv.kept.total] at hge
        rw [position_advanced hadv hend, hadv.rest] at hsettled
        rw [hadv.received] at hge hfits hsettled
        exact .last (measured_of_header hsize) hadv.data hadv.long hadv.whole hfits hge hsettled
    · exact ⟨ret, t, rfl, traced_failed hret ht hfail⟩
    · exact absurd (.inr ht) hno
  · intro s s' r hstep ih hk hend ht
    rcases phase_step total hk with
      ⟨t, hnext, hadv, hlt⟩ | ⟨t, hnext, _⟩ | ⟨ret, t, hnext, _⟩ | ⟨hnext, _⟩ <;>
      rw [hstep] at hnext <;> cases hnext
    obtain ⟨ret, t, hr, htr⟩ := ih hadv.kept (gotEnd_advanced hadv hend) (hadv.trickle ht)
    have hbegin : s.data.received <+: s'.data.received := by
      rw [hadv.received]
      exact List.prefix_append _ _
    have hheaders : ∀ h ∈ s.headers ++
        [(headType (stream s.data.params), headLength (stream s.data.params))], h ∈ t.headers := by
      rw [← hadv.headers]
      exact htr.headers
    refine ⟨ret, t, hr, htr.left, htr.trickle, hbegin.trans htr.received,
      fun h hp => hheaders h (List.mem_append_left _ hp), ?_⟩
    intro hout
    have hsize := hout.headers _ (hheaders _ (List.mem_append_right _ List.mem_cons_self))
    have hproper := htr.proper hout
    have hfits := fits_of_begin htr.received hout.fits
    rw [hadv.kept.total] at hlt
    rw [position_advanced hadv hend, hadv.rest] at hproper
    rw [hadv.received] at hlt hfits hproper
    exact .next (measured_of_header hsize) hadv.data hadv.long hadv.whole hfits hlt hproper

/-! ## Behind the loop -/

/-- The flush fails if and only if the handler refuses the last, partial block. -/
theorem flush_ok_iff {d : DataPhase blockSize} (hk : Kept handler d) :
    (flush handler blockSize ptpRcOk d).1 = ptpRcOk ↔ ¬RestRefused handler blockSize d.received := by
  constructor
  · rintro hok ⟨before, rest, hsize, hfull, hne, hlt, hdata, hrefused⟩
    have hcut : before.flatten ++ rest = d.blocks.flatten ++ d.bytes := hdata.symm
    obtain ⟨zs, hzs⟩ := blocks_prefix hfull hk.full hcut (hk.rest_lt hsize)
    obtain ⟨ws, hws⟩ := blocks_prefix hk.full hfull hcut.symm hlt
    have hblocks : before = d.blocks := by
      have hlen := congrArg List.length hws
      rw [hzs, List.length_append, List.length_append] at hlen
      have hnil : zs = [] := List.length_eq_zero_iff.mp (by omega)
      rw [hzs, hnil, List.append_nil]
    subst hblocks
    have hrest : rest = d.bytes := List.append_cancel_left hcut
    subst hrest
    have hread : d.blockRead ≠ 0 := by
      intro hzero
      have hlen := hk.rest hsize
      rw [hzero] at hlen
      exact hne (List.length_eq_zero_iff.mp hlen)
    rw [flush, if_pos ⟨hsize, rfl, hread⟩] at hok
    exact hrefused hok
  · intro hno
    by_cases hlast : blockSize ≠ 0 ∧ ptpRcOk = ptpRcOk ∧ d.blockRead ≠ 0
    · rw [flush, if_pos hlast]
      by_contra hrefused
      refine hno ⟨d.blocks, d.bytes, hlast.1, hk.full, ?_, hk.rest_lt hlast.1, rfl, hrefused⟩
      intro hnil
      have hlen := hk.rest hlast.1
      rw [hnil] at hlen
      exact hlast.2.2 (UInt32.toNat_inj.mp hlen.symm)
    · rw [flush, if_neg hlast]

/-- The memory holds what was received. -/
theorem stored_iff (total : UInt64) (d : DataPhase blockSize) (hblocks : blockSize = 0 → d.blocks = []) :
    (∀ bytes, (if blockSize ≠ 0 then none else some d.bytes) = some bytes →
      bytes.length ≤ total.toNat) ↔ Fits blockSize total d.received := by
  by_cases hsize : blockSize = 0
  · rw [if_neg (not_not.mpr hsize)]
    simp only [Fits, DataPhase.received, hsize, hblocks hsize, List.flatten_nil, List.nil_append,
      true_implies, Option.some.injEq, forall_eq']
  · rw [if_pos hsize]
    simp only [Fits, hsize, false_implies, reduceCtorEq, implies_true]

/-- The packet behind the loop, when it has been read. -/
theorem control_header {params : PTPParams} {dst : PTPIPContainer} {p : TcpPacket}
    {c : List UInt8} (hc : ControlRead params dst p c) :
    ptpipHeaderLen ≤ (stream params).length ∧
      (WholePacket (headType (stream params)) ∨
        (DataPacket (headType (stream params)) ∧ 12 ≤ (stream params).length)) := by
  have hlen := congrArg List.length hc.consumed
  rw [List.length_append] at hlen
  have hheader := hc.header
  refine ⟨by omega, ?_⟩
  rcases hc.known with hwhole | hdata
  · exact .inl hwhole
  · have hdatalen := hc.data hdata
    exact .inr ⟨hdata, by omega⟩

/-- A loop that has been left within the bounds leads to a result within them. -/
theorem contained_of_outcome {params : PTPParams} {pkt : PTPIPContainer} {ret : UInt16}
    {s' : PhaseState blockSize}
    (hrun : (phaseLoop handler blockSize total).run (firstState blockSize params pkt) =
      some (ret, s')) (hl : Left handler ret s') (hout : Outcome handler total ret s') :
    ∃ r, readPackets handler blockSize total params pkt = some r ∧ Contained blockSize total r := by
  rw [firstState] at hrun
  have hstored := (stored_iff total s'.data hl.memory).mpr hout.fits
  simp only [readPackets, hrun, bind, Option.bind]
  by_cases hret : ret = ptpRcOk
  · subst hret
    have hkept := hl.kept rfl
    by_cases hrefused : RestRefused handler blockSize s'.data.received
    · have herror := mt (flush_ok_iff hkept).mp (not_not.mpr hrefused)
      simp only [ne_eq, herror, not_false_eq_true, if_true]
      exact ⟨_, rfl, hstored, hout.headers, fun hok => absurd hok herror⟩
    · have hsettled := (hout.settled rfl).resolve_left hrefused
      simp only [(flush_ok_iff hkept).mpr hrefused, ne_eq, not_true_eq_false, if_false,
        hl.gotEnd rfl]
      cases hend : s'.endAt with
      | some n =>
        rw [hend] at hsettled
        simp only [Option.isSome_some, if_true]
        exact ⟨_, rfl, hstored, hout.headers, fun _ => congrArg some hsettled⟩
      | none =>
        rw [hend] at hsettled
        obtain ⟨hm, htotal⟩ := hsettled
        obtain ⟨p, hread⟩ :=
          (readControl_some s'.pkt hkept.valid).1 (.inl fun hlen => hm.not_negative hlen)
        simp only [Option.isSome_none, Bool.false_eq_true, if_false, hread]
        by_cases hok : p.ret = ptpRcOk
        · obtain ⟨c, hc⟩ := readControl_ok hkept.valid hread hok
          obtain ⟨hheader, hknown⟩ := control_header hc
          have hheaders : ∀ h ∈ s'.headers ++ [(p.pkt.type, p.pkt.length)],
              0 ≤ payloadLength blockSize h.1 h.2 := by
            rw [hc.type, hc.length]
            intro h hp
            rcases List.mem_append.mp hp with hp | hp
            · exact hout.headers h hp
            · rw [List.mem_singleton.mp hp]
              exact measured_nonneg hm hheader hknown
          by_cases htype : p.pkt.type = ptpipTypeEndData
          · simp only [hok, not_true_eq_false, if_false, htype]
            rw [htype] at hheaders
            refine ⟨_, rfl, hstored, hheaders, fun _ => ?_⟩
            rw [hc.type] at htype
            have hlong : 12 ≤ (stream s'.data.params).length :=
              hknown.elim (fun hw => absurd data_packet.2 (whole_not_data (htype ▸ hw))) And.right
            rw [htotal hlong htype]
          · simp only [hok, not_true_eq_false, if_false, htype, not_false_eq_true, if_true]
            exact ⟨_, rfl, hstored, hheaders, fun h => absurd h dataExpected_error⟩
        · simp only [hok, not_false_eq_true, if_true]
          exact ⟨_, rfl, hstored, hout.headers, fun h => absurd h hok⟩
  · have hflush : flush handler blockSize ret s'.data = (ret, s'.data.blocks) := by
      rw [flush, if_neg (fun h => hret h.2.1)]
    simp only [hflush, ne_eq, hret, not_false_eq_true, if_true]
    exact ⟨_, rfl, hstored, hout.headers, fun hok => absurd hok hret⟩

/-- On bytes that come one by one there is a result, and one within the bounds
comes from a loop within them. -/
theorem outcome_of_contained {params : PTPParams} {pkt : PTPIPContainer} {ret : UInt16}
    {s' : PhaseState blockSize}
    (hrun : (phaseLoop handler blockSize total).run (firstState blockSize params pkt) =
      some (ret, s')) (hl : Left handler ret s') (ht : ret = ptpRcOk → Trickle s'.data.params) :
    ∃ r, readPackets handler blockSize total params pkt = some r ∧
      (Contained blockSize total r → Outcome handler total ret s') := by
  rw [firstState] at hrun
  have hstored := (stored_iff total s'.data hl.memory).mp
  simp only [readPackets, hrun, bind, Option.bind]
  by_cases hret : ret = ptpRcOk
  · subst hret
    have hkept := hl.kept rfl
    have ht := ht rfl
    by_cases hrefused : RestRefused handler blockSize s'.data.received
    · have herror := mt (flush_ok_iff hkept).mp (not_not.mpr hrefused)
      simp only [ne_eq, herror, not_false_eq_true, if_true]
      exact ⟨_, rfl, fun hc => ⟨hc.lengths, hstored hc.stored, fun _ => .inl hrefused⟩⟩
    · simp only [(flush_ok_iff hkept).mpr hrefused, ne_eq, not_true_eq_false, if_false,
        hl.gotEnd rfl]
      cases hend : s'.endAt with
      | some n =>
        simp only [Option.isSome_some, if_true]
        refine ⟨_, rfl, fun hc => ⟨hc.lengths, hstored hc.stored, fun _ => .inr ?_⟩⟩
        rw [hend]
        exact Option.some.inj (hc.ended rfl)
      | none =>
        obtain ⟨hexists, hspec⟩ := readControl_some s'.pkt hkept.valid
        obtain ⟨p, hread⟩ := hexists (.inr ht)
        simp only [Option.isSome_none, Bool.false_eq_true, if_false, hread]
        by_cases hok : p.ret = ptpRcOk
        · obtain ⟨c, hc⟩ := readControl_ok hkept.valid hread hok
          have hlast : (p.pkt.type, p.pkt.length) ∈ s'.headers ++ [(p.pkt.type, p.pkt.length)] :=
            List.mem_append_right _ List.mem_cons_self
          by_cases htype : p.pkt.type = ptpipTypeEndData
          · simp only [hok, not_true_eq_false, if_false, htype]
            rw [htype] at hlast
            refine ⟨_, rfl, fun hc' => ⟨fun h hp => hc'.lengths h (List.mem_append_left _ hp),
              hstored hc'.stored, fun _ => .inr ?_⟩⟩
            have hsize := hc'.lengths _ hlast
            rw [hc.type] at htype
            rw [hc.length, ← htype] at hsize
            rw [hend]
            exact ⟨measured_of_header hsize, fun _ _ => Option.some.inj (hc'.ended rfl)⟩
          · simp only [hok, not_true_eq_false, if_false, htype, not_false_eq_true, if_true]
            refine ⟨_, rfl, fun hc' => ⟨fun h hp => hc'.lengths h (List.mem_append_left _ hp),
              hstored hc'.stored, fun _ => .inr ?_⟩⟩
            have hsize := hc'.lengths _ hlast
            rw [hc.type] at htype
            rw [hc.type, hc.length] at hsize
            rw [hend]
            exact ⟨measured_of_header hsize, fun _ h => absurd h htype⟩
        · simp only [hok, not_false_eq_true, if_true]
          refine ⟨_, rfl, fun hc' => ⟨hc'.lengths, hstored hc'.stored, fun _ => .inr ?_⟩⟩
          have henough : ¬Enough (stream s'.data.params) := fun he =>
            hok ((hspec p hread).2 ht.reliable he)
          rw [hend]
          refine ⟨fun he => absurd he henough, fun hlong htype => ?_⟩
          exact absurd (enough_data (by rw [htype]; exact data_packet.2) hlong) henough
  · have hflush : flush handler blockSize ret s'.data = (ret, s'.data.blocks) := by
      rw [flush, if_neg (fun h => hret h.2.1)]
    simp only [hflush, ne_eq, hret, not_false_eq_true, if_true]
    exact ⟨_, rfl, fun hc => ⟨hc.lengths, hstored hc.stored, fun hok => absurd hok hret⟩⟩

end Phase

/-! ## The data phase -/

/-- The START_DATA packet has been read into `p`: it announces `total`, and `S` is
what the device sends after it. -/
structure Started (params : PTPParams) (pkt : PTPIPContainer) (p : TcpPacket) (total : UInt64)
    (S : List UInt8) : Prop where
  valid : Valid params.pktBuf
  read : ptpTcpReadControl params pkt = some p
  ret : p.ret = ptpRcOk
  type : p.pkt.type = ptpipTypeStartData
  total : p.pkt.dataLength = total
  rest : stream p.params = S

/-- There is no memory for the data. -/
def NoMemory (malloc : UInt64 → Bool) (gdparams : PTPGetdataParams) (total : UInt64) : Prop :=
  gdparams.handler = none ∧ gdparams.retData = false ∧ malloc total = false

/-- The handler that is called; without one none ever is. -/
def usedHandler (gdparams : PTPGetdataParams) : Handler :=
  gdparams.handler.getD fun _ _ => ptpRcOk

/-- `block_size` of the data phase. -/
def phaseBlockSize (gdparams : PTPGetdataParams) : UInt32 :=
  match gdparams.handler with
  | some _ => usedBlockSize gdparams.blockSize
  | none => 0

theorem getdata_eq (malloc : UInt64 → Bool) (gdparams : PTPGetdataParams) {params : PTPParams}
    {pkt : PTPIPContainer} {p : TcpPacket} {total : UInt64} {S : List UInt8}
    (h : Started params pkt p total S) :
    (NoMemory malloc gdparams total → ptpTcpGetdata malloc params pkt gdparams =
      some ⟨ptpErrorNomem, none, [], none, p.params, [], none⟩) ∧
    (¬NoMemory malloc gdparams total → ptpTcpGetdata malloc params pkt gdparams =
      readPackets (usedHandler gdparams) (phaseBlockSize gdparams) total p.params p.pkt) := by
  simp only [ptpTcpGetdata, h.read, bind, Option.bind, h.ret, h.type, h.total, ne_eq,
    not_true_eq_false, if_false]
  cases hhandler : gdparams.handler with
  | some handler =>
    refine ⟨fun hno => ?_, fun _ => ?_⟩
    · rw [NoMemory, hhandler] at hno
      cases hno.1
    · simp [usedHandler, phaseBlockSize, hhandler]
  | none =>
    refine ⟨fun hno => ?_, fun hno => ?_⟩
    · simp [hno.2.1, hno.2.2]
    · rw [if_neg]
      · simp [usedHandler, phaseBlockSize, hhandler]
      · simp only [Bool.not_eq_true]
        exact fun hmem => hno ⟨hhandler, hmem⟩

/-- Proper packets are received within the bounds. -/
theorem getdata_contained {malloc : UInt64 → Bool} {params : PTPParams} {pkt : PTPIPContainer}
    {gdparams : PTPGetdataParams} {p : TcpPacket} {total : UInt64} {S : List UInt8}
    (hs : Started params pkt p total S) (h : NoMemory malloc gdparams total ∨
      Proper (usedHandler gdparams) (phaseBlockSize gdparams) total none [] S) :
    (∀ r, ptpTcpGetdata malloc params pkt gdparams = some r →
      Contained (phaseBlockSize gdparams) total r) ∧
    ((phaseBlockSize gdparams).toNat < 2 ^ 31 →
      ptpTcpGetdata malloc params pkt gdparams ≠ none) := by
  obtain ⟨hnomem, hmem⟩ := getdata_eq malloc gdparams hs
  by_cases hno : NoMemory malloc gdparams total
  · rw [hnomem hno]
    refine ⟨fun r hr => ?_, fun _ hnone => by cases hnone⟩
    cases hr
    refine ⟨fun bytes hr => ?_, fun _ hh => absurd hh List.not_mem_nil, fun hok => ?_⟩
    · cases hr
    · exact absurd hok nomem_error
  · have hproper := h.resolve_left hno
    rw [hmem hno]
    obtain ⟨c, hc⟩ := readControl_ok hs.valid hs.read hs.ret
    rw [← hs.rest] at hproper
    have hfirst : Sound (usedHandler gdparams) total
        (firstState (phaseBlockSize gdparams) p.params p.pkt) :=
      ⟨firstState_kept _ _ p.pkt hc.valid, rfl, fun _ hh => absurd hh List.not_mem_nil,
        fun _ => Nat.zero_le _, hproper⟩
    obtain ⟨hresult, hexists⟩ := phase_proper hfirst
    cases hrun : (phaseLoop (usedHandler gdparams) (phaseBlockSize gdparams) total).run
        (firstState (phaseBlockSize gdparams) p.params p.pkt) with
    | none =>
      refine ⟨fun r hr => ?_, fun hsmall => absurd hrun (hexists hsmall)⟩
      rw [firstState] at hrun
      simp only [readPackets, hrun, bind, Option.bind, reduceCtorEq] at hr
    | some q =>
      obtain ⟨hleft, hout⟩ := hresult q.1 q.2 hrun
      obtain ⟨r, hr, hc⟩ := contained_of_outcome hrun hleft hout
      rw [hr]
      refine ⟨fun r' hr' => ?_, fun _ hnone => by cases hnone⟩
      cases hr'
      exact hc

/-- A device that sends its bytes one by one. -/
theorem started_trickle (total : UInt64) (S : List UInt8) :
    ∃ params p, Started params (fun _ => 0) p total S ∧ Trickle p.params := by
  have ht := singles_trickle (slice (startData 0 total) 0 20 ++ S) 0
  obtain ⟨p, hread, hpok, hpspec⟩ :=
    readControl_start (fun _ => 0) ht.valid (startData_announces 0 total) (pending_singles _)
  have hok := hpok ht.reliable
  obtain ⟨htype, htotal, _, hstream, _⟩ := hpspec hok
  exact ⟨_, p, ⟨ht.valid, hread, hok, htype, UInt64.toNat_inj.mp htotal, hstream⟩,
    ((readControl_some _ ht.valid).2 p hread).1 ht hok⟩

/-- Exactly the proper packet sequences are received within the bounds however they
arrive; for them there always is a result, unless a block size is not an `int`. -/
theorem contained_iff (malloc : UInt64 → Bool) (gdparams : PTPGetdataParams) (total : UInt64)
    (S : List UInt8) :
    ((∀ params pkt p r, Started params pkt p total S →
        ptpTcpGetdata malloc params pkt gdparams = some r →
        Contained (phaseBlockSize gdparams) total r) ↔
      NoMemory malloc gdparams total ∨
        Proper (usedHandler gdparams) (phaseBlockSize gdparams) total none [] S) ∧
    (NoMemory malloc gdparams total ∨
        Proper (usedHandler gdparams) (phaseBlockSize gdparams) total none [] S →
      (phaseBlockSize gdparams).toNat < 2 ^ 31 →
      ∀ params pkt p, Started params pkt p total S →
        ptpTcpGetdata malloc params pkt gdparams ≠ none) := by
  refine ⟨⟨fun h => ?_, fun h params pkt p r hs hr => ?_⟩, fun h hsmall params pkt p hs => ?_⟩
  · by_cases hno : NoMemory malloc gdparams total
    · exact .inl hno
    · right
      obtain ⟨params, p, hs, ht⟩ := started_trickle total S
      obtain ⟨ret, s', hrun, htraced⟩ := phase_traced total
        (firstState_kept (usedHandler gdparams) (phaseBlockSize gdparams) p.pkt ht.valid) rfl ht
      obtain ⟨r, hr, hout⟩ := outcome_of_contained hrun htraced.left htraced.trickle
      have hget := (getdata_eq malloc gdparams hs).2 hno
      rw [hr] at hget
      have hproper := htraced.proper (hout (h params _ p r hs hget))
      rwa [← hs.rest]
  · exact (getdata_contained hs h).1 r hr
  · exact (getdata_contained hs h).2 hsmall

/-- One byte is announced and a DATA packet with two comes. -/
def overlongParams : PTPParams where
  pktBuf := ⟨fun _ => 0, 0, 0⟩
  transport := [.recv [20, 0, 0, 0, 9, 0, 0, 0, 1, 0, 0, 0, 1, 0, 0, 0, 0, 0, 0, 0, 14, 0, 0, 0, 10,
    0, 0, 0, 1, 0, 0, 0, 7, 8, 12, 0, 0, 0, 12, 0, 0, 0, 1, 0, 0, 0]]
  sessionId := 1

theorem overlong_packet_stored :
    ∃ r, ptpTcpGetdata (fun _ => true) overlongParams (fun _ => 0) ⟨none, 0, false⟩ = some r ∧
      r.totalSize = some 1 ∧ r.ret = ptpRcOk ∧ r.retData = some [7, 8] ∧ ¬Contained 0 1 r := by
  have hrun : (ptpTcpGetdata (fun _ => true) overlongParams (fun _ => 0) ⟨none, 0, false⟩).map
      (fun r => (r.totalSize, r.ret, r.retData)) = some (some 1, ptpRcOk, some [7, 8]) := by
    decide
  obtain ⟨r, hr, hfields⟩ := Option.map_eq_some_iff.mp hrun
  simp only [Prod.mk.injEq] at hfields
  obtain ⟨htotal, hret, hdata⟩ := hfields
  exact ⟨r, hr, htotal, hret, hdata, fun hc => absurd (hc.stored _ hdata) (by decide)⟩

end PtpIpTotal
