import Chdkptp.LbufAccess

/-!
# Live view dumps

`live_dump_start` and `live_dump_frame` write frames to a file, each behind its length.
The replay reads a record at a time, into the buffer of the record before when the
lengths agree.
-/

namespace LiveDump

open ByteMemory PtpUsb PtpSend Lbuf

/-! ## Recording -/

/-- What `con.live` holds for a dump; the file is what has been written to `dump_fh`. -/
structure Live where
  frame : Option LBuf
  dumpFh : Option (List UInt8)
  dumpSzBuf : LBuf
  dumpSize : Nat

inductive DumpError where
  /-- `return false,'not initialized'` -/
  | notInitialized
  /-- `return false,'no frame'` -/
  | noFrame
  | file (e : FileError)
  /-- A setter of an lbuf raises. -/
  | setter
  deriving DecidableEq, Repr

/-- `'chlv'` -/
def magic : List UInt8 := [99, 104, 108, 118]

/-- `dump_sz_buf:set_u32(0,v)` and `dump_sz_buf:fwrite(dump_fh)` -/
def writeU32 (szBuf : LBuf) (v : UInt32) (file : List UInt8) :
    Except DumpError (LBuf × List UInt8) :=
  match lbufSetU32 szBuf 0 v with
  | none => .error .setter
  | some szBuf =>
    match lbufFwrite szBuf file with
    | .error e => .error (.file e)
    | .ok file => .ok (szBuf, file)

/-- `live_dump_start`, once the file is open. -/
def liveDumpStart (live : Live) : Except DumpError Live := do
  let (szBuf, file) ← writeU32 (lbufNew 4) 8 magic
  let (szBuf, file) ← writeU32 szBuf 1 file
  let (szBuf, file) ← writeU32 szBuf 0 file
  return { live with dumpFh := some file, dumpSzBuf := szBuf, dumpSize := 16 }

def liveDumpFrame (live : Live) : Except DumpError Live :=
  match live.dumpFh with
  | none => .error .notInitialized
  | some file =>
    match live.frame with
    | none => .error .noFrame
    | some frame => do
      let (szBuf, file) ← writeU32 live.dumpSzBuf frame.len file
      match lbufFwrite frame file with
      | .error e => throw (.file e)
      | .ok file => return { live with
          dumpFh := some file, dumpSzBuf := szBuf
          dumpSize := live.dumpSize + frame.len.toNat + 4 }

/-- Frames come and are recorded. -/
def record (live : Live) (frames : List LBuf) : Except DumpError Live :=
  frames.foldlM (fun live frame => liveDumpFrame { live with frame := some frame }) live

/-! ## Replay -/

/-- `read_dump_rec` with the buffer `dump_recsize`: the record, if there is one, the
buffer and the rest of the file. -/
def readDumpRec (lb : Option LBuf) (recsize : LBuf) (file : List UInt8) :
    Except FileError (Option LBuf × LBuf × List UInt8) := do
  let r ← lbufFread recsize file
  if !r.ok then
    return (none, r.buf, r.file)
  match lbufGetU32 r.buf 0 with
  | .value len =>
    let buf := match lb with
      | none => lbufNew len
      | some lb => if lb.len ≠ len then lbufNew len else lb
    let r' ← lbufFread buf r.file
    if r'.ok then
      return (some r'.buf, r.buf, r'.file)
    else
      return (none, r.buf, r'.file)
  | _ => throw .invalidArgument

/-- `init_dump_replay` of an open file: the rest behind the header, unless it gives up. -/
def initDumpReplay (recsize : LBuf) (file : List UInt8) :
    Except FileError (Option (LBuf × List UInt8)) := do
  if file.take 4 ≠ magic then
    return none
  let (header, recsize, file) ← readDumpRec none recsize (file.drop 4)
  match header with
  | none => return none
  | some header =>
    if lbufGetU32 header 0 = .value 1 then return some (recsize, file) else return none

/-- Up to so many calls of `read_dump_rec`, until one returns nil: the frames in order,
and whether that happened. Each call may be given any buffer to use again. -/
def replay (lbs : Nat → Option LBuf) :
    Nat → Nat → LBuf → List UInt8 → Except FileError (List LBuf × Bool)
  | 0, _, _, _ => .ok ([], false)
  | n + 1, i, recsize, file => do
    let (lb, recsize, file) ← readDumpRec (lbs i) recsize file
    match lb with
    | none => return ([], true)
    | some lb =>
      let (frames, ended) ← replay lbs n (i + 1) recsize file
      return (lb :: frames, ended)

/-! ## The file -/

def u32Bytes (v : UInt32) : List UInt8 :=
  [UInt8.ofNat v.toNat, UInt8.ofNat (v.toNat / 2 ^ 8), UInt8.ofNat (v.toNat / 2 ^ 16),
    UInt8.ofNat (v.toNat / 2 ^ 24)]

def recordBytes (frame : LBuf) : List UInt8 := u32Bytes frame.len ++ frame.contents

def header : List UInt8 := u32Bytes 8 ++ (u32Bytes 1 ++ u32Bytes 0)

def fileOf (frames : List LBuf) : List UInt8 := magic ++ header ++ frames.flatMap recordBytes

@[simp] theorem u32Bytes_length (v : UInt32) : (u32Bytes v).length = 4 := rfl

theorem writeU32_eq (szBuf : LBuf) (v : UInt32) (file : List UInt8) (h : szBuf.len = 4) :
    writeU32 szBuf v file =
      .ok ({ szBuf with bytes := put32 szBuf.bytes 0 v }, file ++ u32Bytes v) := by
  obtain ⟨len, bytes⟩ := szBuf
  obtain rfl : len = 4 := h
  have hset : lbufSetU32 ⟨4, bytes⟩ 0 v = some ⟨4, put32 bytes 0 v⟩ := by
    simp [lbufSetU32]
  have hcontents : LBuf.contents ⟨4, put32 bytes 0 v⟩ = u32Bytes v :=
    contents_blit ⟨4, bytes⟩ (u32Bytes v) rfl
  unfold writeU32
  rw [hset]
  simp only [lbufFwrite, hcontents]
  rfl

/-- The state of a dump of these frames. -/
structure Recorded (frames : List LBuf) (live : Live) : Prop where
  file : live.dumpFh = some (fileOf frames)
  size : live.dumpSize = (fileOf frames).length
  szBuf : live.dumpSzBuf.len = 4

theorem liveDumpStart_recorded (live : Live) :
    ∃ start, liveDumpStart live = .ok start ∧ Recorded [] start := by
  unfold liveDumpStart
  rw [writeU32_eq _ _ _ rfl]
  simp only [bind, Except.bind]
  rw [writeU32_eq _ _ _ rfl]
  simp only
  rw [writeU32_eq _ _ _ rfl]
  exact ⟨_, rfl, by simp [fileOf, header], by simp [fileOf, header, magic], rfl⟩

/-- Recording one more frame. -/
theorem Recorded.step {frames : List LBuf} {live : Live} (h : Recorded frames live) (frame : LBuf)
    (hne : frame.len ≠ 0) :
    ∃ live', liveDumpFrame { live with frame := some frame } = .ok live' ∧
      Recorded (frames ++ [frame]) live' := by
  have hfile : fileOf (frames ++ [frame]) = fileOf frames ++ u32Bytes frame.len ++ frame.contents := by
    simp [fileOf, recordBytes]
  unfold liveDumpFrame
  simp only [h.file]
  rw [writeU32_eq _ _ _ h.szBuf]
  simp only [bind, Except.bind, lbufFwrite, if_neg (not_le_zero hne)]
  refine ⟨_, rfl, ?_, ?_, h.szBuf⟩
  · rw [hfile]
  · rw [hfile]
    simp only [h.size, List.length_append, u32Bytes_length, contents_length]
    omega

theorem Recorded.run {frames : List LBuf} {live : Live} (h : Recorded frames live)
    (more : List LBuf) (hne : ∀ frame ∈ more, frame.len ≠ 0) :
    ∃ live', record live more = .ok live' ∧ Recorded (frames ++ more) live' := by
  induction more generalizing frames live with
  | nil => exact ⟨live, rfl, by simpa using h⟩
  | cons frame more ih =>
    obtain ⟨mid, hmid, hrec⟩ := h.step frame (hne frame (by simp))
    obtain ⟨live', hlive', hrec'⟩ := ih hrec fun f hf => hne f (List.mem_cons_of_mem frame hf)
    refine ⟨live', ?_, by simpa using hrec'⟩
    unfold record at hlive' ⊢
    rw [List.foldlM_cons, hmid]
    exact hlive'

/-! ## Reading it back -/

/-- A buffer that starts with the bytes of a number. -/
theorem getU32_contents (buf : LBuf) (v : UInt32) (h : u32Bytes v <+: buf.contents) :
    lbufGetU32 buf 0 = .value v := by
  have hlen : 4 ≤ buf.len.toNat := by simpa using h.length_le
  have hbyte : ∀ i, i < 4 → buf.bytes (0 + i) = (u32Bytes v).getD i 0 := by
    intro i hi
    have hget : buf.contents[i]? = some (buf.bytes (0 + i)) := by
      simp [LBuf.contents, slice, show i < buf.len.toNat by omega]
    obtain ⟨rest, hrest⟩ := h
    rw [← hrest, List.getElem?_append_left (by simpa using hi)] at hget
    rw [List.getD_eq_getElem?_getD, hget]
    rfl
  have hword : dtoh32 buf.bytes 0 = v := by
    refine Eq.trans (dtoh32_congr fun i hi => ?_) (dtoh32_put32 buf.bytes 0 v)
    rw [hbyte i hi]
    exact (blit_inside buf.bytes 0 (u32Bytes v) i (by simpa using hi)).symm
  have hinside := getVals32_inside buf 0 hlen
  rwa [hword] at hinside

theorem readDumpRec_record (lb : Option LBuf) (recsize frame : LBuf) (rest : List UInt8)
    (hrec : recsize.len = 4) (hne : frame.len ≠ 0) :
    ∃ buf recsize', readDumpRec lb recsize (recordBytes frame ++ rest) =
        .ok (some buf, recsize', rest) ∧
      buf.contents = frame.contents ∧ recsize'.len = 4 := by
  have hsize : recsize.len ≠ 0 := by rw [hrec]; decide
  have hlen : recsize.len.toNat = 4 := by rw [hrec]; rfl
  -- a new buffer and one that is used again have the length of the record
  obtain ⟨buf, hbuf, hbuflen⟩ : ∃ buf : LBuf,
      (match lb with
        | none => lbufNew frame.len
        | some lb => if lb.len ≠ frame.len then lbufNew frame.len else lb) = buf ∧
        buf.len = frame.len := by
    refine ⟨_, rfl, ?_⟩
    cases lb with
    | none => rfl
    | some lb =>
      by_cases hlb : lb.len = frame.len
      · simp [hlb]
      · simp [hlb, lbufNew]
  refine ⟨{ buf with bytes := blit buf.bytes 0 frame.contents },
    { recsize with bytes := blit recsize.bytes 0 (u32Bytes frame.len) }, ?_, ?_, hrec⟩
  · have hfilled := contents_blit recsize (u32Bytes frame.len) (by rw [hlen]; rfl)
    have hword := getU32_contents { recsize with bytes := blit recsize.bytes 0 (u32Bytes frame.len) }
      frame.len ⟨[], by rw [hfilled, List.append_nil]⟩
    unfold readDumpRec recordBytes
    rw [List.append_assoc, lbufFread_append recsize _ _ hsize (by rw [hlen]; rfl)]
    simp only [bind, Except.bind, Bool.not_true, Bool.false_eq_true, ↓reduceIte,
      hword, hbuf]
    rw [lbufFread_append buf _ _ (by rw [hbuflen]; exact hne) (by rw [hbuflen]; simp)]
    rfl
  · exact contents_blit buf _ (by rw [hbuflen]; simp)

theorem readDumpRec_end (lb : Option LBuf) (recsize : LBuf) (hrec : recsize.len = 4) :
    ∃ recsize', readDumpRec lb recsize [] = .ok (none, recsize', []) := by
  have hsize : recsize.len ≠ 0 := by rw [hrec]; decide
  refine ⟨{ recsize with bytes := blit recsize.bytes 0 [] }, ?_⟩
  unfold readDumpRec
  rw [lbufFread_end recsize hsize]
  rfl

/-- The header is read as a record of eight bytes. -/
theorem initDumpReplay_fileOf (recsize : LBuf) (frames : List LBuf) (hrec : recsize.len = 4) :
    ∃ recsize', initDumpReplay recsize (fileOf frames) =
        .ok (some (recsize', frames.flatMap recordBytes)) ∧ recsize'.len = 4 := by
  obtain ⟨head, hhead⟩ : ∃ head : LBuf, head.len = 8 ∧ head.contents = u32Bytes 1 ++ u32Bytes 0 :=
    ⟨.ofList (u32Bytes 1 ++ u32Bytes 0), rfl, rfl⟩
  have hfile : fileOf frames = magic ++ (recordBytes head ++ frames.flatMap recordBytes) := by
    simp [fileOf, header, recordBytes, hhead]
  obtain ⟨buf, recsize', hread, hcontents, hrec'⟩ := readDumpRec_record none recsize head
    (frames.flatMap recordBytes) hrec (by rw [hhead.1]; decide)
  refine ⟨recsize', ?_, hrec'⟩
  have hone : lbufGetU32 buf 0 = .value 1 := by
    refine getU32_contents buf 1 ?_
    rw [hcontents, hhead.2]
    exact List.prefix_append _ _
  have htake : (magic ++ (recordBytes head ++ frames.flatMap recordBytes)).take 4 = magic := rfl
  have hdrop : (magic ++ (recordBytes head ++ frames.flatMap recordBytes)).drop 4 =
      recordBytes head ++ frames.flatMap recordBytes := rfl
  unfold initDumpReplay
  rw [hfile, htake, hdrop, hread]
  simp only [bind, Except.bind, ne_eq, not_true_eq_false, ↓reduceIte, hone]
  rfl

/-- Every record is read as the frame it was written from. -/
theorem replay_records (lbs : Nat → Option LBuf) (frames : List LBuf) (recsize : LBuf)
    (hrec : recsize.len = 4) (hne : ∀ frame ∈ frames, frame.len ≠ 0) (calls i : Nat)
    (hcalls : frames.length < calls) :
    ∃ bufs, replay lbs calls i recsize (frames.flatMap recordBytes) = .ok (bufs, true) ∧
      bufs.map LBuf.contents = frames.map LBuf.contents := by
  induction frames generalizing recsize calls i with
  | nil =>
    cases calls with
    | zero => cases hcalls
    | succ calls =>
      obtain ⟨recsize', hend⟩ := readDumpRec_end (lbs i) recsize hrec
      refine ⟨[], ?_, rfl⟩
      simp only [replay, List.flatMap_nil, hend]
      rfl
  | cons frame frames ih =>
    cases calls with
    | zero => cases hcalls
    | succ calls =>
      obtain ⟨buf, recsize', hread, hcontents, hrec'⟩ := readDumpRec_record (lbs i) recsize frame
        (frames.flatMap recordBytes) hrec (hne frame (by simp))
      obtain ⟨bufs, hbufs, hmap⟩ := ih recsize' hrec' (fun f hf => hne f (List.mem_cons_of_mem _ hf))
        calls (i + 1) (by simpa using hcalls)
      refine ⟨buf :: bufs, ?_, by simp [hcontents, hmap]⟩
      simp only [replay, List.flatMap_cons, hread, bind, Except.bind, hbufs]
      rfl

/-- A dump holds as many bytes as counted after every frame, and is replayed as exactly the
frames recorded, whatever buffers are used again. -/
theorem dump_round_trip (live : Live) (frames : List LBuf) (lbs : Nat → Option LBuf)
    (recsize : Memory) (hne : ∀ frame ∈ frames, frame.len ≠ 0) :
    ∃ start, liveDumpStart live = .ok start ∧
      (∀ n ≤ frames.length, ∃ l file, record start (frames.take n) = .ok l ∧
        l.dumpFh = some file ∧ l.dumpSize = file.length) ∧
      ∃ l file recsize' rest, record start frames = .ok l ∧ l.dumpFh = some file ∧
        initDumpReplay ⟨4, recsize⟩ file = .ok (some (recsize', rest)) ∧
        ∀ calls, frames.length < calls → ∃ bufs,
          replay lbs calls 0 recsize' rest = .ok (bufs, true) ∧
            bufs.map LBuf.contents = frames.map LBuf.contents := by
  obtain ⟨start, hstart, hnone⟩ := liveDumpStart_recorded live
  refine ⟨start, hstart, fun n _ => ?_, ?_⟩
  · obtain ⟨l, hl, hrec⟩ := hnone.run (frames.take n) fun f hf => hne f (List.mem_of_mem_take hf)
    exact ⟨l, _, hl, hrec.file, hrec.size⟩
  · obtain ⟨l, hl, hrec⟩ := hnone.run frames hne
    obtain ⟨recsize', hinit, hlen⟩ := initDumpReplay_fileOf ⟨4, recsize⟩ frames rfl
    exact ⟨l, _, recsize', _, hl, hrec.file, hinit, fun calls hcalls =>
      replay_records lbs frames recsize' hlen hne calls 0 hcalls⟩

theorem dump_round_trip_witness :
    ∃ start, liveDumpStart ⟨none, none, lbufNew 4, 0⟩ = .ok start ∧
      (∀ n ≤ [LBuf.ofList [7], LBuf.ofList [8]].length, ∃ l file,
        record start ([LBuf.ofList [7], LBuf.ofList [8]].take n) = .ok l ∧
          l.dumpFh = some file ∧ l.dumpSize = file.length) ∧
      ∃ l file recsize' rest, record start [LBuf.ofList [7], LBuf.ofList [8]] = .ok l ∧
        l.dumpFh = some file ∧
        initDumpReplay ⟨4, fun _ => 0⟩ file = .ok (some (recsize', rest)) ∧
        ∀ calls, [LBuf.ofList [7], LBuf.ofList [8]].length < calls → ∃ bufs,
          replay (fun _ => some (LBuf.ofList [7])) calls 0 recsize' rest = .ok (bufs, true) ∧
            bufs.map LBuf.contents = [LBuf.ofList [7], LBuf.ofList [8]].map LBuf.contents :=
  dump_round_trip ⟨none, none, lbufNew 4, 0⟩ [.ofList [7], .ofList [8]]
    (fun _ => some (.ofList [7])) (fun _ => 0) (by
      intro frame hframe
      obtain rfl | rfl : frame = .ofList [7] ∨ frame = .ofList [8] := by simpa using hframe
      · decide
      · decide)

end LiveDump
