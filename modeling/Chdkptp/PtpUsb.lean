import Chdkptp.PtpBuffer

/-!
# USB containers

A response container is read whole, of a data container only the header: the
data follows through `ptp_usb_read_data`. The containers are zeroed before they
are read, so a short response has zero parameters. The byte order of the data
layer is little endian, as set for every connection.
-/

namespace PtpUsb

open ByteMemory ByteStream BoundedLoop PtpBuffer

abbrev ptpErrorDataExpected : UInt16 := 0x02FE
abbrev ptpErrorRespExpected : UInt16 := 0x02FD
abbrev ptpErrorNomem : UInt16 := 0x02FB

abbrev ptpUsbContainerData : UInt16 := 2
abbrev ptpUsbContainerResponse : UInt16 := 3

/-- `PTP_USB_BULK_HDR_LEN`. -/
abbrev ptpUsbBulkHdrLen : Nat := 12

/-! ## The container -/

def dtoh16 (m : Memory) (o : Nat) : UInt16 :=
  UInt16.ofNat ((m o).toNat + 2 ^ 8 * (m (o + 1)).toNat)

def dtoh32 (m : Memory) (o : Nat) : UInt32 :=
  UInt32.ofNat ((m o).toNat + 2 ^ 8 * (m (o + 1)).toNat + 2 ^ 16 * (m (o + 2)).toNat +
    2 ^ 24 * (m (o + 3)).toNat)

/-- `PTPUSBBulkContainer` as it lies in memory. -/
abbrev PTPUSBBulkContainer := Memory

namespace PTPUSBBulkContainer

def length (pkt : PTPUSBBulkContainer) : UInt32 := dtoh32 pkt 0

def type (pkt : PTPUSBBulkContainer) : UInt16 := dtoh16 pkt 4

def code (pkt : PTPUSBBulkContainer) : UInt16 := dtoh16 pkt 6

def transId (pkt : PTPUSBBulkContainer) : UInt32 := dtoh32 pkt 8

/-- `payload.params`, counted from 1. -/
def param (pkt : PTPUSBBulkContainer) (i : Nat) : UInt32 :=
  dtoh32 pkt (ptpUsbBulkHdrLen + 4 * (i - 1))

end PTPUSBBulkContainer

/-- A zeroed container into which bytes have been read. -/
def container (bytes : List UInt8) : PTPUSBBulkContainer := blit (fun _ => 0) 0 bytes

/-- The return code, the container, the state. -/
structure Packet where
  ret : UInt16
  pkt : PTPUSBBulkContainer
  params : PTPParams

def ptpUsbReadControl (params : PTPParams) : Option Packet := do
  let r ← ptpControlReadBuffered params ptpUsbBulkHdrLen
  let pkt := container r.bytes
  if r.ret ≠ ptpRcOk then some ⟨r.ret, pkt, r.params⟩
  else if pkt.type = ptpUsbContainerResponse then
    if pkt.length.toNat > ptpUsbBulkHdrLen then
      let more ← ptpControlReadBuffered r.params
        (toInt ((pkt.length.toNat : Int) - ptpUsbBulkHdrLen))
      some ⟨more.ret, blit pkt ptpUsbBulkHdrLen more.bytes, more.params⟩
    else some ⟨ptpRcOk, pkt, r.params⟩
  else if pkt.type = ptpUsbContainerData then some ⟨ptpRcOk, pkt, r.params⟩
  else some ⟨ptpErrorBadparam, pkt, r.params⟩

/-! ## The data phase -/

structure PTPContainer where
  code : UInt16
  sessionId : UInt32
  transactionId : UInt32
  param1 : UInt32
  param2 : UInt32
  param3 : UInt32
  param4 : UInt32
  param5 : UInt32
  nparam : UInt8
  deriving DecidableEq, Repr

/-- What a handler returns for a block, given the blocks before it. -/
abbrev Handler := List (List UInt8) → List UInt8 → UInt16

structure PTPGetdataParams where
  handler : Option Handler
  blockSize : UInt32
  /-- The caller supplies the memory for the whole data. -/
  retData : Bool

/-- The size of the blocks that the handler is called with. -/
def usedBlockSize (blockSize : UInt32) : UInt32 :=
  if blockSize = 0 then 1024 * 1024 * 2
  else if blockSize < 1024 then 1024
  else blockSize

theorem usedBlockSize_pos (blockSize : UInt32) : 0 < (usedBlockSize blockSize).toNat := by
  unfold usedBlockSize
  split
  · decide
  · split
    · decide
    · rename_i hge
      have h := UInt32.le_iff_toNat_le.mp (UInt32.not_lt.mp hge)
      exact Nat.lt_of_lt_of_le (by decide) h

/-- The variables of the block loop. -/
structure Blocks where
  toRead : UInt32
  params : PTPParams
  /-- The blocks handed to the handler so far. -/
  blocks : List (List UInt8)

/-- `while(to_read > 0)`. No result stands for a reader without one. -/
def blockLoop (handler : Handler) (blockSize : UInt32) (hpos : 0 < blockSize.toNat) :
    Loop Blocks (Option (UInt16 × Blocks)) where
  step s :=
    if 0 < s.toRead then
      let readSize := if s.toRead > blockSize then blockSize else s.toRead
      match ptpUsbReadData s.params readSize with
      | none => .inr none
      | some r =>
        if r.ret ≠ ptpRcOk then .inr (some (r.ret, { s with params := r.params }))
        else
          let s' : Blocks := ⟨s.toRead - readSize, r.params, s.blocks ++ [r.bytes]⟩
          let ret := handler s.blocks r.bytes
          if ret ≠ ptpRcOk then .inr (some (ret, s')) else .inl s'
    else .inr (some (ptpRcOk, s))
  measure s := s.toRead.toNat
  decreases s s' hs := by
    split at hs
    · rename_i hread
      simp only at hs
      have hlt := UInt32.lt_iff_toNat_lt.mp hread
      rw [UInt32.toNat_zero] at hlt
      split at hs
      · cases hs
      · split at hs
        · cases hs
        · split at hs
          · cases hs
          · cases hs
            simp only
            split
            · rename_i hgt
              have := UInt32.lt_iff_toNat_lt.mp hgt
              rw [UInt32.toNat_sub_of_le _ _ (UInt32.le_of_lt hgt)]
              omega
            · rw [UInt32.sub_self, UInt32.toNat_zero]
              exact hlt
    · cases hs

/-- The return code, `total_size` if it has been set, the data that the handler
or `ret_data` got, the state. -/
structure Getdata where
  ret : UInt16
  totalSize : Option UInt32
  blocks : List (List UInt8)
  retData : Option (List UInt8)
  params : PTPParams

def ptpUsbGetdata (malloc : UInt32 → Bool) (params : PTPParams) (ptp : PTPContainer)
    (gdparams : PTPGetdataParams) : Option Getdata := do
  let usbdata ← ptpUsbReadControl params
  let params := usbdata.params
  if usbdata.ret ≠ ptpRcOk then some ⟨usbdata.ret, none, [], none, params⟩
  else if usbdata.pkt.type ≠ ptpUsbContainerData then
    some ⟨ptpErrorDataExpected, none, [], none, params⟩
  else if usbdata.pkt.code ≠ ptp.code then some ⟨usbdata.pkt.code, none, [], none, params⟩
  else
    let totalLen := usbdata.pkt.length - UInt32.ofNat ptpUsbBulkHdrLen
    match gdparams.handler with
    | some handler =>
      let blockSize := usedBlockSize gdparams.blockSize
      if ¬malloc blockSize then some ⟨ptpErrorNomem, totalLen, [], none, params⟩
      else
        let (ret, s) ← (blockLoop handler blockSize (usedBlockSize_pos _)).run
          ⟨totalLen, params, []⟩
        some ⟨ret, totalLen, s.blocks, none, s.params⟩
    | none =>
      if ¬gdparams.retData ∧ ¬malloc totalLen then
        some ⟨ptpErrorNomem, totalLen, [], none, params⟩
      else
        let r ← ptpUsbReadData params totalLen
        some ⟨r.ret, totalLen, [], some r.bytes, r.params⟩

/-! ## The response -/

/-- The `PTPContainer` that a response is unpacked into. -/
def unpackResponse (sessionId : UInt32) (usbresp : PTPUSBBulkContainer) : PTPContainer where
  code := usbresp.code
  sessionId := sessionId
  transactionId := usbresp.transId
  param1 := usbresp.param 1
  param2 := usbresp.param 2
  param3 := usbresp.param 3
  param4 := usbresp.param 4
  param5 := usbresp.param 5
  nparam := UInt8.ofNat ((usbresp.length - 12) / 4).toNat

/-- The return code, `*resp` and the state. -/
structure Getresp where
  ret : UInt16
  resp : PTPContainer
  params : PTPParams

def ptpUsbGetresp (params : PTPParams) (resp : PTPContainer) : Option Getresp := do
  let usbresp ← ptpUsbReadControl params
  if usbresp.ret ≠ ptpRcOk then some ⟨usbresp.ret, resp, usbresp.params⟩
  else
    let ret :=
      if usbresp.pkt.type ≠ ptpUsbContainerResponse then ptpErrorRespExpected
      else if usbresp.pkt.code ≠ resp.code then usbresp.pkt.code
      else ptpRcOk
    if ret ≠ ptpRcOk then some ⟨ret, resp, usbresp.params⟩
    else some ⟨ret, unpackResponse usbresp.params.sessionId usbresp.pkt, usbresp.params⟩

/-! ## Receiving what the stream holds -/

/-- A connection with a valid buffer that is going to receive `rest` without failures. -/
structure Ready (params : PTPParams) (sessionId : UInt32) (rest : List UInt8) : Prop where
  valid : Valid params.pktBuf
  reliable : Reliable params.transport
  stream : stream params = rest
  session : params.sessionId = sessionId

/-- A served read of the next bytes. -/
theorem Served.ready {params : PTPParams} {sessionId : UInt32} {a b : List UInt8} {r : Reply}
    (h : Served params a.length r) (hp : Ready params sessionId (a ++ b)) :
    r.bytes = a ∧ Ready r.params sessionId b := by
  have hstream := h.stream
  rw [hp.stream] at hstream
  obtain ⟨hbytes, hrest⟩ := List.append_inj hstream h.length
  exact ⟨hbytes, h.valid, h.reliable hp.reliable, hrest, h.session.trans hp.session⟩

theorem control_next {params : PTPParams} {sessionId : UInt32} {a b : List UInt8}
    (hp : Ready params sessionId (a ++ b)) (ha : a.length ≤ ptpPacketBufferSize) :
    ∃ r, ptpControlReadBuffered params a.length = some r ∧ r.ret = ptpRcOk ∧ r.bytes = a ∧
      Ready r.params sessionId b := by
  obtain ⟨r, hr, h | h⟩ := controlReadBuffered_spec hp.valid ha
  · exact ⟨r, hr, h.ret, Served.ready h hp⟩
  · have hshort := h.short hp.reliable
    rw [hp.stream, List.length_append] at hshort
    omega

/-- Data can be read as long as something follows it. -/
theorem data_next {params : PTPParams} {sessionId size : UInt32} {a b : List UInt8}
    (hp : Ready params sessionId (a ++ b)) (ha : a.length = size.toNat)
    (hsize : size.toNat < 2 ^ 31) (hb : b ≠ []) :
    ∃ r, ptpUsbReadData params size = some r ∧ r.ret = ptpRcOk ∧ r.bytes = a ∧
      Ready r.params sessionId b := by
  obtain ⟨r, hr, h | h⟩ := usbReadData_spec hp.valid hsize
  · rw [← ha] at h
    exact ⟨r, hr, h.ret, Served.ready h hp⟩
  · have hshort := h.short hp.reliable
    have hpos := List.length_pos_iff.mpr hb
    rw [hp.stream, List.length_append] at hshort
    omega

/-- The header of a data container for an operation, with `n` bytes of data. -/
structure DataHeader (code : UInt16) (n : Nat) (header : List UInt8) : Prop where
  size : header.length = ptpUsbBulkHdrLen
  length : (container header).length.toNat = ptpUsbBulkHdrLen + n
  type : (container header).type = ptpUsbContainerData
  code : (container header).code = code

/-- A response container with up to five parameters. -/
structure ResponseContainer (response : List UInt8) : Prop where
  low : ptpUsbBulkHdrLen ≤ response.length
  high : response.length ≤ 32
  length : (container response).length.toNat = response.length
  type : (container response).type = ptpUsbContainerResponse

theorem readControl_data {params : PTPParams} {sessionId : UInt32} {code : UInt16} {n : Nat}
    {header rest : List UInt8} (hp : Ready params sessionId (header ++ rest))
    (hh : DataHeader code n header) :
    ∃ p, ptpUsbReadControl params = some p ∧ p.ret = ptpRcOk ∧ p.pkt = container header ∧
      Ready p.params sessionId rest := by
  obtain ⟨r, hr, hret, hbytes, hready⟩ :=
    control_next hp (by rw [hh.size]; decide)
  rw [hh.size] at hr
  have hkind : ptpUsbContainerData ≠ ptpUsbContainerResponse := by decide
  refine ⟨⟨ptpRcOk, container header, r.params⟩, ?_, rfl, rfl, hready⟩
  simp only [ptpUsbReadControl, hr, bind, Option.bind, hret, hbytes, hh.type, hkind, ne_eq,
    not_true_eq_false, if_false, if_true]

/-- The first fields of a container lie in its first twelve bytes. -/
theorem container_take {bytes : List UInt8} {o : Nat} (ho : o < ptpUsbBulkHdrLen) :
    container (bytes.take ptpUsbBulkHdrLen) o = container bytes o := by
  simp only [container, blit, Nat.zero_le, true_and, Nat.zero_add, Nat.sub_zero,
    List.getD_eq_getElem?_getD, List.length_take]
  by_cases hlen : o < bytes.length
  · rw [if_pos (by omega), if_pos hlen, List.getElem?_take_of_lt ho]
  · rw [if_neg (by omega), if_neg hlen]

theorem length_take (bytes : List UInt8) :
    (container (bytes.take ptpUsbBulkHdrLen)).length = (container bytes).length := by
  simp only [PTPUSBBulkContainer.length, dtoh32]
  rw [container_take (by decide), container_take (by decide), container_take (by decide),
    container_take (by decide)]

theorem type_take (bytes : List UInt8) :
    (container (bytes.take ptpUsbBulkHdrLen)).type = (container bytes).type := by
  simp only [PTPUSBBulkContainer.type, dtoh16]
  rw [container_take (by decide), container_take (by decide)]

theorem readControl_response {params : PTPParams} {sessionId : UInt32}
    {response rest : List UInt8} (hp : Ready params sessionId (response ++ rest))
    (hh : ResponseContainer response) :
    ∃ p, ptpUsbReadControl params = some p ∧ p.ret = ptpRcOk ∧ p.pkt = container response ∧
      Ready p.params sessionId rest := by
  have hsplit := List.take_append_drop ptpUsbBulkHdrLen response
  have hlow := hh.low
  have hhigh := hh.high
  have htake : (response.take ptpUsbBulkHdrLen).length = ptpUsbBulkHdrLen := by
    rw [List.length_take]
    omega
  rw [← hsplit, List.append_assoc] at hp
  obtain ⟨r, hr, hret, hbytes, hready⟩ := control_next hp (by rw [htake]; decide)
  rw [htake] at hr
  have hlength : (container (response.take ptpUsbBulkHdrLen)).length.toNat = response.length := by
    rw [length_take, hh.length]
  have htype : (container (response.take ptpUsbBulkHdrLen)).type = ptpUsbContainerResponse := by
    rw [type_take, hh.type]
  simp only [ptpUsbReadControl, hr, bind, Option.bind, hret, hbytes, htype, hlength, ne_eq,
    not_true_eq_false, if_false, if_true]
  by_cases hmore : response.length > ptpUsbBulkHdrLen
  · have hrest : (response.drop ptpUsbBulkHdrLen).length = response.length - ptpUsbBulkHdrLen :=
      List.length_drop
    obtain ⟨r', hr', hret', hbytes', hready'⟩ := control_next hready
      (Nat.le_trans (show _ ≤ 32 by rw [hrest]; omega) (by decide))
    have hcount : toInt ((response.length : Int) - ptpUsbBulkHdrLen) =
        (response.drop ptpUsbBulkHdrLen).length := by
      rw [toInt_of_lt (by omega) (by omega), hrest]
      omega
    have hwhole : blit (container (response.take ptpUsbBulkHdrLen)) ptpUsbBulkHdrLen
        (response.drop ptpUsbBulkHdrLen) = container response := by
      have happend := blit_append (fun _ => 0) 0 (response.take ptpUsbBulkHdrLen)
        (response.drop ptpUsbBulkHdrLen)
      rwa [htake, Nat.zero_add, hsplit] at happend
    rw [if_pos hmore]
    simp only [hcount, hr']
    exact ⟨_, rfl, hret', by simp only [hbytes', hwhole], hready'⟩
  · rw [if_neg hmore]
    have hnone : response.drop ptpUsbBulkHdrLen = [] := List.drop_eq_nil_of_le (by omega)
    rw [hnone, List.append_nil] at hsplit
    rw [hnone, List.nil_append] at hready
    exact ⟨_, rfl, rfl, by simp only [hsplit], hready⟩

/-! ## The phases of a transaction -/

/-- The data a receiver got: the handler's blocks, or the memory. -/
def Getdata.received (r : Getdata) : List UInt8 :=
  match r.retData with
  | some bytes => bytes
  | none => r.blocks.flatten

/-- The loop over the blocks ends when nothing is left. -/
theorem rest_eq_nil {n : UInt32} {rest : List UInt8} (hleft : n.toNat = rest.length)
    (hread : ¬0 < n) : rest = [] := by
  have hle := UInt32.le_iff_toNat_le.mp (UInt32.not_lt.mp hread)
  rw [hleft, UInt32.toNat_zero] at hle
  exact List.length_eq_zero_iff.mp (Nat.le_zero.mp hle)

section Blocks

variable {handler : Handler} {blockSize : UInt32} (hpos : 0 < blockSize.toNat)
  {sessionId : UInt32} {after : List UInt8}

/-- The blocks so far and what is left of the data make up the data. -/
structure Receiving (blockSize sessionId : UInt32) (payload after : List UInt8) (s : Blocks)
    (rest : List UInt8) : Prop where
  data : s.blocks.flatten ++ rest = payload
  left : s.toRead.toNat = rest.length
  blocks : ∀ block ∈ s.blocks, block.length ≤ blockSize.toNat
  ready : Ready s.params sessionId (rest ++ after)

/-- One pass of the loop, with a handler that accepts everything. -/
theorem blockLoop_next (haccepts : ∀ before block, handler before block = ptpRcOk)
    (hafter : after ≠ []) {payload rest : List UInt8} {s : Blocks}
    (h : Receiving blockSize sessionId payload after s rest) (hread : 0 < s.toRead)
    (hsize : rest.length < 2 ^ 31) :
    ∃ s' rest', (blockLoop handler blockSize hpos).step s = .inl s' ∧
      Receiving blockSize sessionId payload after s' rest' := by
  generalize hcount : (if s.toRead > blockSize then blockSize else s.toRead) = readSize
  have hle : readSize ≤ s.toRead ∧ readSize ≤ blockSize := by
    rw [← hcount]
    split
    · rename_i hgt
      exact ⟨UInt32.le_of_lt hgt, UInt32.le_refl _⟩
    · rename_i hge
      exact ⟨UInt32.le_refl _, UInt32.not_lt.mp hge⟩
  have hrest := UInt32.le_iff_toNat_le.mp hle.1
  have hblock := UInt32.le_iff_toNat_le.mp hle.2
  have hleft := h.left
  have hsplit := List.take_append_drop readSize.toNat rest
  have htake : (rest.take readSize.toNat).length = readSize.toNat := by
    rw [List.length_take]
    omega
  have hready := h.ready
  rw [← hsplit, List.append_assoc] at hready
  have hmore : rest.drop readSize.toNat ++ after ≠ [] := by simp [hafter]
  obtain ⟨r, hr, hret, hbytes, hnext⟩ := data_next hready htake (by omega) hmore
  refine ⟨⟨s.toRead - readSize, r.params, s.blocks ++ [r.bytes]⟩, rest.drop readSize.toNat,
    ?_, ?_, ?_, ?_, hnext⟩
  · simp only [blockLoop, if_pos hread, hcount, hr, hret, haccepts, ne_eq, not_true_eq_false,
      if_false]
  · rw [List.flatten_append, List.flatten_singleton, hbytes, List.append_assoc, hsplit, h.data]
  · simp only
    rw [UInt32.toNat_sub_of_le _ _ hle.1, List.length_drop, hleft]
  · intro block hmem
    rcases List.mem_append.mp hmem with hmem | hmem
    · exact h.blocks block hmem
    · rw [List.mem_singleton.mp hmem, hbytes, htake]
      exact hblock

/-- In handler mode the blocks are the data, and what follows it is left in the stream. -/
theorem blockLoop_spec (haccepts : ∀ before block, handler before block = ptpRcOk)
    (hafter : after ≠ []) {params : PTPParams} {total : UInt32} {payload : List UInt8}
    (hp : Ready params sessionId (payload ++ after)) (htotal : total.toNat = payload.length)
    (hsize : payload.length < 2 ^ 31) :
    ∃ s, (blockLoop handler blockSize hpos).run ⟨total, params, []⟩ = some (ptpRcOk, s) ∧
      Receiving blockSize sessionId payload after s [] := by
  have hshort : ∀ {s rest}, Receiving blockSize sessionId payload after s rest →
      rest.length < 2 ^ 31 := by
    intro s rest h
    have := congrArg List.length h.data
    rw [List.length_append] at this
    omega
  refine (blockLoop handler blockSize hpos).run_invariant
    (fun s => ∃ rest, Receiving blockSize sessionId payload after s rest)
    (fun r => ∃ s, r = some (ptpRcOk, s) ∧ Receiving blockSize sessionId payload after s [])
    ?_ ?_ ⟨payload, rfl, htotal, fun _ h => absurd h List.not_mem_nil, hp⟩
  · rintro s s' ⟨rest, h⟩ hstep
    by_cases hread : 0 < s.toRead
    · obtain ⟨s'', rest', hstep', h'⟩ := blockLoop_next hpos haccepts hafter h hread (hshort h)
      rw [hstep] at hstep'
      cases hstep'
      exact ⟨rest', h'⟩
    · simp only [blockLoop, if_neg hread] at hstep
      cases hstep
  · rintro s r ⟨rest, h⟩ hstep
    by_cases hread : 0 < s.toRead
    · obtain ⟨s'', rest', hstep', _⟩ := blockLoop_next hpos haccepts hafter h hread (hshort h)
      rw [hstep] at hstep'
      cases hstep'
    · simp only [blockLoop, if_neg hread] at hstep
      cases hstep
      obtain rfl := rest_eq_nil h.left hread
      exact ⟨s, rfl, h⟩

end Blocks

/-- How the caller receives the data, with a handler that accepts everything and
memory that can be had. -/
structure Receiver (malloc : UInt32 → Bool) (gdparams : PTPGetdataParams) (n : Nat) : Prop where
  accepts : ∀ handler, gdparams.handler = some handler →
    ∀ before block, handler before block = ptpRcOk
  block : gdparams.handler ≠ none → malloc (usedBlockSize gdparams.blockSize) = true
  whole : gdparams.handler = none → gdparams.retData = true ∨ malloc (UInt32.ofNat n) = true

theorem getdata_spec {malloc : UInt32 → Bool} {params : PTPParams} {sessionId : UInt32}
    {ptp : PTPContainer} {gdparams : PTPGetdataParams} {header payload after : List UInt8}
    (hp : Ready params sessionId (header ++ (payload ++ after)))
    (hh : DataHeader ptp.code payload.length header) (hn : payload.length < 2 ^ 31)
    (hafter : after ≠ []) (hg : Receiver malloc gdparams payload.length) :
    ∃ r, ptpUsbGetdata malloc params ptp gdparams = some r ∧ r.ret = ptpRcOk ∧
      r.received = payload ∧
      (∀ block ∈ r.blocks, block.length ≤ (usedBlockSize gdparams.blockSize).toNat) ∧
      Ready r.params sessionId after := by
  obtain ⟨p, hread, hret, hpkt, hready⟩ := readControl_data hp hh
  have hsize : (UInt32.ofNat payload.length).toNat = payload.length :=
    UInt32.toNat_ofNat_of_lt' (by show _ < 2 ^ 32; omega)
  have htotal : (container header).length - UInt32.ofNat ptpUsbBulkHdrLen =
      UInt32.ofNat payload.length := by
    have hhdr : (UInt32.ofNat ptpUsbBulkHdrLen).toNat = ptpUsbBulkHdrLen := rfl
    have hle : UInt32.ofNat ptpUsbBulkHdrLen ≤ (container header).length := by
      rw [UInt32.le_iff_toNat_le, hh.length]
      exact Nat.le_add_right _ _
    apply UInt32.toNat_inj.mp
    rw [UInt32.toNat_sub_of_le _ _ hle, hh.length, hhdr, hsize, Nat.add_sub_cancel_left]
  simp only [ptpUsbGetdata, hread, bind, Option.bind, hret, hpkt, hh.type, hh.code, htotal, ne_eq,
    not_true_eq_false, if_false]
  cases hhandler : gdparams.handler with
  | some handler =>
    obtain ⟨s, hrun, hs⟩ := blockLoop_spec (usedBlockSize_pos gdparams.blockSize)
      (hg.accepts handler hhandler) hafter hready hsize (by omega)
    have hblock := hg.block (by rw [hhandler]; exact Option.some_ne_none _)
    simp only [hblock, not_true_eq_false, if_false, hrun]
    refine ⟨_, rfl, rfl, ?_, hs.blocks, hs.ready⟩
    have hdata := hs.data
    rwa [List.append_nil] at hdata
  | none =>
    obtain ⟨r, hr, hok, hbytes, hnext⟩ := data_next hready hsize.symm (by omega) hafter
    have hmemory : ¬(¬gdparams.retData = true ∧ ¬malloc (UInt32.ofNat payload.length) = true) := by
      rcases hg.whole hhandler with h | h
      · exact fun hno => hno.1 h
      · exact fun hno => hno.2 h
    simp only [if_neg hmemory, hr]
    exact ⟨_, rfl, hok, hbytes, fun _ h => absurd h List.not_mem_nil, hnext⟩

/-- What `ptp_usb_getresp` makes of a response: an error code is returned unless
it is the one the caller has put into `resp`; otherwise `resp` is the response. -/
def responseResult (sessionId : UInt32) (resp : PTPContainer) (response : List UInt8) :
    UInt16 × PTPContainer :=
  let usbresp := container response
  if usbresp.code = resp.code ∨ usbresp.code = ptpRcOk then
    (ptpRcOk, unpackResponse sessionId usbresp)
  else (usbresp.code, resp)

theorem getresp_spec {params : PTPParams} {sessionId : UInt32} (resp : PTPContainer)
    {response after : List UInt8} (hp : Ready params sessionId (response ++ after))
    (hh : ResponseContainer response) :
    ∃ q, ptpUsbGetresp params resp = some q ∧
      (q.ret, q.resp) = responseResult sessionId resp response ∧
      Ready q.params sessionId after := by
  obtain ⟨p, hread, hret, hpkt, hready⟩ := readControl_response hp hh
  simp only [ptpUsbGetresp, hread, bind, Option.bind, hret, hpkt, hh.type, ne_eq,
    not_true_eq_false, if_false, responseResult]
  by_cases hcode : (container response).code = resp.code
  · simp only [hcode, not_true_eq_false, if_false, true_or, if_true]
    exact ⟨_, rfl, by rw [hready.session], hready⟩
  · by_cases hok : (container response).code = ptpRcOk
    · simp only [hcode, not_false_eq_true, if_true, false_or]
      simp only [hok, not_true_eq_false, if_false, if_true]
      exact ⟨_, rfl, by rw [hready.session], hready⟩
    · simp only [hcode, hok, not_false_eq_true, if_true, or_self, if_false]
      exact ⟨_, rfl, rfl, hready⟩

/-- A data phase and its response, however the stream is split and however the data
is received: the payload is delivered, and the response that follows is the one sent. -/
theorem getdata_then_getresp (malloc : UInt32 → Bool) (params : PTPParams)
    (ptp resp : PTPContainer) (gdparams : PTPGetdataParams)
    (header payload response after : List UInt8) (hv : Valid params.pktBuf)
    (hr : Reliable params.transport)
    (hs : stream params = header ++ (payload ++ (response ++ after)))
    (hheader : DataHeader ptp.code payload.length header) (hn : payload.length < 2 ^ 31 - 12)
    (hresponse : ResponseContainer response)
    (hg : Receiver malloc gdparams payload.length) :
    ∃ r q, ptpUsbGetdata malloc params ptp gdparams = some r ∧ r.ret = ptpRcOk ∧
      r.received = payload ∧
      ptpUsbGetresp r.params resp = some q ∧
      (q.ret, q.resp) = responseResult params.sessionId resp response ∧
      stream q.params = after ∧ Valid q.params.pktBuf := by
  have hafter : response ++ after ≠ [] := by
    intro hnil
    have hlow := hresponse.low
    rw [(List.append_eq_nil_iff.mp hnil).1] at hlow
    exact absurd hlow (by decide)
  obtain ⟨r, hgetdata, hret, hreceived, _, hready⟩ :=
    getdata_spec ⟨hv, hr, hs, rfl⟩ hheader (by omega) hafter hg
  obtain ⟨q, hgetresp, hresult, hready'⟩ := getresp_spec resp hready hresponse
  exact ⟨r, q, hgetdata, hret, hreceived, hgetresp, hresult, hready'.stream, hready'.valid⟩

/-- Three bytes of data for operation `0x9999` and an OK response; the second piece
of the stream holds the end of the data and the beginning of the response. -/
def usbParams : PTPParams where
  pktBuf := ⟨fun _ => 0, 0, 0⟩
  transport := [
    .recv [15, 0, 0, 0, 2, 0, 0x99, 0x99, 1, 0, 0, 0, 7],
    .recv [8, 9, 12, 0, 0],
    .recv [0, 3, 0, 1, 0x20, 1, 0, 0, 0]]
  sessionId := 1

def operation : PTPContainer := ⟨0x9999, 1, 1, 0, 0, 0, 0, 0, 0⟩

theorem getdata_then_getresp_witness :
    ∃ r q, ptpUsbGetdata (fun _ => true) usbParams operation
        ⟨some (fun _ _ => ptpRcOk), 0, false⟩ = some r ∧ r.ret = ptpRcOk ∧
      r.received = [7, 8, 9] ∧
      ptpUsbGetresp r.params operation = some q ∧
      (q.ret, q.resp) = responseResult 1 operation [12, 0, 0, 0, 3, 0, 1, 0x20, 1, 0, 0, 0] ∧
      stream q.params = [] ∧ Valid q.params.pktBuf :=
  getdata_then_getresp (fun _ => true) usbParams operation operation
    ⟨some (fun _ _ => ptpRcOk), 0, false⟩ [15, 0, 0, 0, 2, 0, 0x99, 0x99, 1, 0, 0, 0] [7, 8, 9]
    [12, 0, 0, 0, 3, 0, 1, 0x20, 1, 0, 0, 0] []
    ⟨by decide, by decide, by decide, fun _ => rfl⟩ (by decide) (by decide)
    ⟨by decide, by decide, by decide, by decide⟩ (by decide)
    ⟨by decide, by decide, by decide, by decide⟩
    ⟨fun handler h before block => by cases h; rfl, fun _ => rfl, fun h => by cases h⟩

end PtpUsb
