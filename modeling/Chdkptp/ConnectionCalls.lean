import Chdkptp.Connections
import Mathlib.Data.Finset.Option

/-!
# What a call on a connection leaves open

Each method against what the connection had open: what it has open afterwards, what is open
and no longer in any connection, and where the method uses something that is not open.
-/

namespace Connections

open ResourceTrace

variable {held : Finset Res}

/-! ## USB -/

variable {reset : Bool} {busses : List UsbBus} {usb : PtpUsb} {h : Nat}

/-- What opening a device makes of the connection. -/
def PtpUsb.opened (usb : PtpUsb) (dev : UsbDevice) (h : Nat) : PtpUsb :=
  { findEndpoints dev usb with handle := some h, maxPacketSize := maxPacketSizeOf dev }

theorem findEndpoints_path (dev : UsbDevice) (usb : PtpUsb) :
    (findEndpoints dev usb).bus = usb.bus ∧ (findEndpoints dev usb).dev = usb.dev := by
  unfold findEndpoints
  generalize dev.config.elim [] UsbConfig.endpoint = eps
  induction eps generalizing usb with
  | nil => exact ⟨rfl, rfl⟩
  | cons ep eps ih =>
    rw [List.foldl_cons]
    split
    · split
      · exact ih _
      · exact ih _
    · split
      · exact ih _
      · exact ih usb

@[simp] theorem opened_device (dev : UsbDevice) (h : Nat) :
    (usb.opened dev h).device = some (.handle h) := rfl

@[simp] theorem opened_bus (dev : UsbDevice) (h : Nat) : (usb.opened dev h).bus = usb.bus :=
  (findEndpoints_path dev usb).1

@[simp] theorem opened_dev (dev : UsbDevice) (h : Nat) : (usb.opened dev h).dev = usb.dev :=
  (findEndpoints_path dev usb).2

theorem initPtpUsb_some (dev : UsbDevice) (h : Nat) :
    initPtpUsb (some h) dev (findEndpoints dev usb) =
      (true, usb.opened dev h,
        [.opened (.handle h), .used (some (.handle h)), .used (some (.handle h))]) := rfl

theorem closeUsb_after (hd : usb.device = some (.handle h)) :
    heldAfter held (closeUsb reset usb) = held.erase (.handle h) := by
  cases reset <;> simp [closeUsb, hd]

theorem closeUsb_fresh (hd : usb.device = some (.handle h)) :
    Fresh held (closeUsb reset usb) := by
  cases reset <;> simp [closeUsb, hd]

theorem closeUsb_proper (hd : usb.device = some (.handle h)) (hheld : Res.handle h ∈ held) :
    Proper held (closeUsb reset usb) := by
  cases reset <;> simp [closeUsb, hd, hheld]

/-- The camera is closed where its device is still there. -/
theorem closeCameraUsb_after (hd : usb.device = some (.handle h)) :
    heldAfter held (closeCameraUsb reset busses usb) =
      if findDeviceByPath busses usb.bus usb.dev = none then held else held.erase (.handle h) := by
  unfold closeCameraUsb
  cases findDeviceByPath busses usb.bus usb.dev with
  | none => rfl
  | some dev => exact closeUsb_after hd

theorem closeCameraUsb_fresh (hd : usb.device = some (.handle h)) :
    Fresh held (closeCameraUsb reset busses usb) := by
  unfold closeCameraUsb
  split
  · exact fresh_nil
  · exact fresh_used.mpr (closeUsb_fresh hd)

theorem closeCameraUsb_proper (hd : usb.device = some (.handle h))
    (hheld : Res.handle h ∈ held) : Proper held (closeCameraUsb reset busses usb) := by
  unfold closeCameraUsb
  split
  · exact proper_nil
  · rw [hd, proper_used]
    exact ⟨hheld, closeUsb_proper hd hheld⟩

/-- A session is open, at the first or the second try. -/
def UsbAnswers.inSession (a : UsbAnswers) : Prop :=
  a.opensession = PTP_RC_OK ∨ a.usbOpen2.isSome ∧ a.opensession2 = PTP_RC_OK

/-- The second try to open a session fails with the device open, or the device is gone when it
has to be closed. -/
def UsbAnswers.Loses (a : UsbAnswers) (usb : PtpUsb) : Prop :=
  a.usbOpen.isSome ∧
    (a.opensession ≠ PTP_RC_OK ∧ a.usbOpen2.isSome ∧ a.opensession2 ≠ PTP_RC_OK ∨
      a.inSession ∧ a.getdeviceinfo ≠ PTP_RC_OK ∧
        findDeviceByPath a.bussesClose usb.bus usb.dev = none)

/-- How opening a camera ends: with its handle, with nothing, or with a handle that is lost. -/
inductive Ended (held after : Finset Res) (device : Option Res) (lost : Prop) : Bool → Prop where
  | opened (r : Res) (hd : device = some r) (hnew : r ∉ held) (hafter : after = insert r held)
    (hlost : ¬lost) : Ended held after device lost true
  | closed (hafter : after = held) (hlost : ¬lost) : Ended held after device lost false
  | left (r : Res) (hnew : r ∉ held) (hafter : after = insert r held) (hlost : lost) :
    Ended held after device lost false

theorem Ended.congr {after : Finset Res} {device : Option Res} {lost lost' : Prop} {ok : Bool}
    (h : Ended held after device lost ok) (hl : lost ↔ lost') :
    Ended held after device lost' ok := by
  cases h with
  | opened r hd hnew hafter hlost => exact .opened r hd hnew hafter (hl.not.mp hlost)
  | closed hafter hlost => exact .closed hafter (hl.not.mp hlost)
  | left r hnew hafter hlost => exact .left r hnew hafter (hl.mp hlost)

theorem startCameraDevUsb_ended {a : UsbAnswers} (hd : usb.device = some (.handle h))
    (hnew : Res.handle h ∉ held) :
    Ended held (heldAfter (insert (.handle h) held) (startCameraDevUsb reset a usb).2) usb.device
      (a.getdeviceinfo ≠ PTP_RC_OK ∧ findDeviceByPath a.bussesClose usb.bus usb.dev = none)
      (startCameraDevUsb reset a usb).1 := by
  unfold startCameraDevUsb
  split
  next hinfo => exact .opened _ hd hnew rfl (fun h => h.1 hinfo)
  next hinfo =>
    rw [heldAfter_used, closeCameraUsb_after hd]
    split
    next hgone => exact .left _ hnew rfl ⟨hinfo, hgone⟩
    next hthere => exact .closed (Finset.erase_insert hnew) fun h => hthere h.2

theorem openCameraDevUsb_ended {a : UsbAnswers} {dev : UsbDevice}
    (hf : Fresh held (openCameraDevUsb reset a dev usb).2.2) :
    Ended held (heldAfter held (openCameraDevUsb reset a dev usb).2.2)
      (openCameraDevUsb reset a dev usb).2.1.device (a.Loses usb)
      (openCameraDevUsb reset a dev usb).1 := by
  revert hf
  unfold openCameraDevUsb
  cases hopen : a.usbOpen with
  | none =>
    intro _
    exact .closed rfl (by simp [UsbAnswers.Loses, hopen])
  | some h =>
    rw [initPtpUsb_some]
    have hd : (usb.opened dev h).device = some (.handle h) := rfl
    by_cases hs : a.opensession = PTP_RC_OK
    · simp only [hs, if_true, fresh_append, fresh_opened, heldAfter_append, heldAfter_opened,
        heldAfter_used, heldAfter_nil]
      intro hf
      apply (startCameraDevUsb_ended hd hf.1.1.1).congr
      simp [UsbAnswers.Loses, UsbAnswers.inSession, hopen, hs]
    · simp only [hs, if_false, reopenCameraDevUsb]
      cases hopen2 : a.usbOpen2 with
      | none =>
        simp only [initPtpUsb, Bool.false_eq_true, if_false, fresh_append, fresh_opened,
          heldAfter_append, heldAfter_opened, heldAfter_used, heldAfter_nil, closeUsb_after hd]
        intro hf
        rw [Finset.erase_insert hf.1.1]
        exact .closed rfl (by simp [UsbAnswers.Loses, UsbAnswers.inSession, hs, hopen2])
      | some h2 =>
        rw [initPtpUsb_some]
        simp only [decide_eq_true_eq]
        by_cases hs2 : a.opensession2 = PTP_RC_OK
        · simp only [hs2, if_true, fresh_append, fresh_opened, fresh_used, closeUsb_fresh hd,
            fresh_nil, and_true, true_and, heldAfter_append, heldAfter_opened, heldAfter_used,
            heldAfter_nil, closeUsb_after hd]
          rintro ⟨⟨hnew, hnew2⟩, -⟩
          rw [Finset.erase_insert hnew] at hnew2 ⊢
          apply (startCameraDevUsb_ended (opened_device dev h2) hnew2).congr
          simp [UsbAnswers.Loses, UsbAnswers.inSession, hopen, hs, hopen2, hs2]
        · simp only [hs2, if_false, fresh_append, fresh_opened, fresh_used, closeUsb_fresh hd,
            fresh_nil, and_true, true_and, heldAfter_append, heldAfter_opened, heldAfter_used,
            heldAfter_nil, closeUsb_after hd]
          rintro ⟨hnew, hnew2⟩
          rw [Finset.erase_insert hnew] at hnew2 ⊢
          exact .left _ hnew2 rfl (by simp [UsbAnswers.Loses, hopen, hs, hopen2, hs2])

theorem startCameraDevUsb_proper {a : UsbAnswers} (hd : usb.device = some (.handle h))
    (hheld : Res.handle h ∈ held) : Proper held (startCameraDevUsb reset a usb).2 := by
  unfold startCameraDevUsb
  split
  · simp [hd, hheld]
  · simp [hd, hheld, closeCameraUsb_proper hd hheld]

/-- Opening a device uses only what it opened. -/
theorem openCameraDevUsb_proper {a : UsbAnswers} {dev : UsbDevice} :
    Proper held (openCameraDevUsb reset a dev usb).2.2 := by
  unfold openCameraDevUsb
  cases a.usbOpen with
  | none => exact proper_nil
  | some h =>
    rw [initPtpUsb_some]
    have hd : (usb.opened dev h).device = some (.handle h) := rfl
    have hclose : Proper _ (closeUsb reset (usb.opened dev h)) :=
      closeUsb_proper hd (Finset.mem_insert_self _ held)
    by_cases hs : a.opensession = PTP_RC_OK
    · simpa [hs] using startCameraDevUsb_proper hd (Finset.mem_insert_self _ held)
    · cases hopen2 : a.usbOpen2 with
      | none => simp [hs, reopenCameraDevUsb, hopen2, initPtpUsb, hclose]
      | some h2 =>
        by_cases hs2 : a.opensession2 = PTP_RC_OK
        · simp only [hs, if_false, reopenCameraDevUsb, hopen2, initPtpUsb_some, hs2, decide_true,
            if_true, proper_append]
          refine ⟨by simp [hclose], startCameraDevUsb_proper rfl ?_⟩
          simp
        · simp [hs, reopenCameraDevUsb, hopen2, initPtpUsb_some, hs2, hclose]

/-! ## TCP -/

/-- What a TCP connection has open, also while it connects. -/
def PtpTcp.parts (tcp : PtpTcp) : Finset Res :=
  tcp.command.toFinset ∪ tcp.event.toFinset ∪ tcp.addrinfo.toFinset

variable {tcp : PtpTcp} {a : TcpAnswers} {own : Finset Res}

theorem mem_parts (r : Res) :
    r ∈ tcp.parts ↔ r ∈ tcp.command ∨ r ∈ tcp.event ∨ r ∈ tcp.addrinfo := by
  simp [PtpTcp.parts]

theorem closeCameraTcp_after (connected : Bool) :
    heldAfter held (closeCameraTcp connected tcp).2 = held \ tcp.parts := by
  ext r
  cases connected <;> cases hc : tcp.cmdSock <;> cases he : tcp.eventSock <;> cases ha : tcp.ai <;>
  simp [closeCameraTcp, mem_parts, PtpTcp.command, PtpTcp.event, PtpTcp.addrinfo, hc, he, ha] <;>
  grind

theorem closeCameraTcp_fresh (connected : Bool) : Fresh held (closeCameraTcp connected tcp).2 := by
  cases connected <;> cases hc : tcp.cmdSock <;> cases he : tcp.eventSock <;> cases ha : tcp.ai <;>
  simp [closeCameraTcp, PtpTcp.command, PtpTcp.event, PtpTcp.addrinfo, hc, he, ha]

/-- The two sockets are different ones. -/
theorem closeCameraTcp_proper (connected : Bool) (h : tcp.parts ⊆ held)
    (hc : connected → tcp.cmdSock.isSome)
    (hne : tcp.eventSock.isSome → tcp.cmdSock ≠ tcp.eventSock) :
    Proper held (closeCameraTcp connected tcp).2 := by
  have hmem (r : Res) (hr : r ∈ tcp.parts) : r ∈ held := h hr
  simp only [mem_parts, PtpTcp.command, PtpTcp.event, PtpTcp.addrinfo] at hmem
  simp only [closeCameraTcp, PtpTcp.command, PtpTcp.event, PtpTcp.addrinfo]
  revert hc hne hmem
  cases connected <;> cases tcp.cmdSock <;> cases tcp.eventSock <;> cases tcp.ai <;>
  simp <;> grind

/-- The sockets of the addresses that refuse are closed again. -/
theorem tryAddresses_exchange (attempts : List Attempt)
    (hf : Fresh held (tryAddresses attempts).2) (h : own ⊆ held) :
    Exchange held own
      (((tryAddresses attempts).1.bind id).elim own fun s => insert (.sock s) own)
      (tryAddresses attempts).2 ∅ := by
  induction attempts with
  | nil => exact .refl h
  | cons attempt rest ih =>
    cases attempt with
    | noSocket => exact .refl h
    | refused s =>
      simp only [tryAddresses, fresh_opened, fresh_used, fresh_closed] at hf ⊢
      rw [Finset.erase_insert hf.1] at hf
      apply (ih hf.2).congr
      simp [Finset.erase_insert hf.1]
    | accepted s =>
      simp only [tryAddresses, fresh_opened] at hf ⊢
      exact (Exchange.opened h hf.1).congr rfl

theorem tryAddresses_proper (attempts : List Attempt) : Proper held (tryAddresses attempts).2 := by
  induction attempts generalizing held with
  | nil => exact proper_nil
  | cons attempt rest ih =>
    cases attempt with
    | noSocket => exact proper_nil
    | refused s => simp [tryAddresses, ih]
    | accepted s => simp [tryAddresses]

theorem parts_event {s : Nat} (h : tcp.eventSock = none) :
    { tcp with eventSock := some s }.parts = insert (.sock s) tcp.parts := by
  ext r
  simp [mem_parts, PtpTcp.event, PtpTcp.command, PtpTcp.addrinfo, h]
  grind

theorem initEventChannelTcp_new {s : Nat} (hs : a.eventSocket = some s)
    (hf : Fresh held (initEventChannelTcp a tcp).2.2) : Res.sock s ∉ held := by
  revert hf
  cases hc : a.eventConnect <;> cases he : a.eventSend <;>
  simp [initEventChannelTcp, hs, hc, he]

/-- The socket of the event channel is lost where it cannot connect. -/
theorem initEventChannelTcp_exchange (hnone : tcp.eventSock = none) (h : tcp.parts ⊆ held)
    (hf : Fresh held (initEventChannelTcp a tcp).2.2) :
    ∃ lost, Exchange held tcp.parts (initEventChannelTcp a tcp).2.1.parts
      (initEventChannelTcp a tcp).2.2 lost ∧
        (lost = ∅ ↔ ¬(a.eventSocket.isSome ∧ ¬a.eventConnect)) := by
  unfold initEventChannelTcp
  cases hs : a.eventSocket with
  | none => exact ⟨∅, (Exchange.refl h).congr rfl, by simp⟩
  | some s =>
    have hnew := initEventChannelTcp_new hs hf
    have hopened := Exchange.opened h hnew
    cases hc : a.eventConnect
    · have hdrop := Exchange.drop hopened.own_subset
        (Finset.singleton_subset_iff.mpr (Finset.mem_insert_self (Res.sock s) _))
      rw [Finset.sdiff_singleton_eq_erase, Finset.erase_insert fun hs => hnew (h hs)] at hdrop
      refine ⟨{.sock s}, ?_, by simp⟩
      have hboth := hopened.trans hdrop
      rw [Finset.empty_union] at hboth
      exact hboth.congr rfl
    · refine ⟨∅, ?_, by simp⟩
      cases a.eventSend <;>
      · simp only [Option.isSome_some, and_self, if_true, Bool.false_eq_true, if_false,
          parts_event hnone]
        exact hopened.congr rfl

theorem initEventChannelTcp_grows : held ⊆ heldAfter held (initEventChannelTcp a tcp).2.2 := by
  unfold initEventChannelTcp
  cases a.eventSocket <;> cases a.eventConnect <;> cases a.eventSend <;> simp

theorem initEventChannelTcp_proper :
    Proper held (initEventChannelTcp a tcp).2.2 ↔ a.eventSocket.isSome := by
  unfold initEventChannelTcp
  cases a.eventSocket <;> cases a.eventConnect <;> cases a.eventSend <;> simp

theorem initEventChannelTcp_sock (a : TcpAnswers) (tcp : PtpTcp) :
    (initEventChannelTcp a tcp).2.1 = tcp ∧ (initEventChannelTcp a tcp).1 = false ∨
      ∃ s, a.eventSocket = some s ∧
        (initEventChannelTcp a tcp).2.1 = { tcp with eventSock := some s } := by
  unfold initEventChannelTcp
  cases a.eventSocket <;> cases a.eventConnect <;> cases a.eventSend <;> simp

/-- The camera has acknowledged the command channel. -/
def TcpAnswers.acknowledged (a : TcpAnswers) : Prop :=
  a.sendInit ∧ ∃ reply, a.recvInit = some reply ∧ reply.acknowledges

/-- What a connection is while `init_ptp_tcp` runs. -/
structure Opening (tcp tcp' : PtpTcp) (connected : Bool) : Prop where
  cmdSock : tcp'.cmdSock = tcp.cmdSock
  ai : tcp'.ai = tcp.ai
  host : tcp'.host = tcp.host
  port : tcp'.port = tcp.port
  two : tcp'.eventSock.isSome → tcp'.cmdSock ≠ tcp'.eventSock
  connected : connected → tcp'.cmdSock.isSome ∧ tcp'.eventSock.isSome

theorem startSessionTcp_after : heldAfter held (startSessionTcp a tcp).2.2 = held := by
  unfold startSessionTcp
  split <;> rfl

theorem startSessionTcp_proper (a : TcpAnswers) {r : Res} (hr : tcp.command = some r)
    (hheld : r ∈ held) : Proper held (startSessionTcp a tcp).2.2 := by
  unfold startSessionTcp
  split <;> simp [hr, hheld]

theorem initEventChannelTcp_opening (hnone : tcp.eventSock = none) (h : tcp.parts ⊆ held)
    (hf : Fresh held (initEventChannelTcp a tcp).2.2) (hc : tcp.cmdSock.isSome) {connected : Bool}
    (hok : connected → (initEventChannelTcp a tcp).1) :
    Opening tcp (initEventChannelTcp a tcp).2.1 connected := by
  rcases initEventChannelTcp_sock a tcp with ⟨hsame, hno⟩ | ⟨s, hs, hevent⟩
  · rw [hsame]
    exact ⟨rfl, rfl, rfl, rfl, by simp [hnone], fun hcon => by simp [hno] at hok; simp [hok] at hcon⟩
  · rw [hevent]
    refine ⟨rfl, rfl, rfl, rfl, fun _ hcs => ?_, fun _ => ⟨hc, rfl⟩⟩
    have hcmd : tcp.command = some (.sock s) := congrArg (Option.map Res.sock) hcs
    exact initEventChannelTcp_new hs hf (h ((mem_parts _).mpr (.inl hcmd)))

theorem initCommandChannelTcp_exchange (hnone : tcp.eventSock = none) (h : tcp.parts ⊆ held)
    (hf : Fresh held (initCommandChannelTcp a tcp).trace) :
    Opening tcp (initCommandChannelTcp a tcp).tcp (initCommandChannelTcp a tcp).connected ∧
      ∃ lost, Exchange held tcp.parts (initCommandChannelTcp a tcp).tcp.parts
        (initCommandChannelTcp a tcp).trace lost ∧
        (lost = ∅ ↔ ¬(tcp.cmdSock.isSome ∧ a.acknowledged ∧ a.eventSocket.isSome ∧
          ¬a.eventConnect)) := by
  have hidle : Opening tcp tcp false :=
    ⟨rfl, rfl, rfl, rfl, by simp [hnone], by simp⟩
  revert hf
  unfold initCommandChannelTcp
  by_cases hsend : tcp.cmdSock.isSome ∧ a.sendInit
  · rw [if_pos hsend]
    cases hr : a.recvInit with
    | none =>
      intro _
      refine ⟨hidle, ∅, (Exchange.refl h).congr rfl, ?_⟩
      simp [TcpAnswers.acknowledged, hr]
    | some reply =>
      by_cases hack : reply.acknowledges = true
      · simp only [hack, if_true]
        let named : PtpTcp :=
          { tcp with connectionId := reply.connectionId, camGuid := reply.camGuid }
        have hidleNamed : named.eventSock = none := hnone
        have hnamed : named.parts ⊆ held := h
        have hsame {tcp' : PtpTcp} {c : Bool} (h : Opening named tcp' c) : Opening tcp tcp' c :=
          ⟨h.cmdSock, h.ai, h.host, h.port, h.two, h.connected⟩
        have hiff (lost : Finset Res)
            (hl : lost = ∅ ↔ ¬(a.eventSocket.isSome ∧ ¬a.eventConnect)) :
            lost = ∅ ↔ ¬(tcp.cmdSock.isSome ∧ a.acknowledged ∧ a.eventSocket.isSome ∧
              ¬a.eventConnect) := by
          simpa [TcpAnswers.acknowledged, hr, hack, hsend] using hl
        split
        next hok =>
          intro hf
          rw [fresh_used, fresh_used, fresh_append] at hf
          obtain ⟨lost, hex, hl⟩ := initEventChannelTcp_exchange hidleNamed hnamed hf.1
          have hopening {c : Bool} : Opening tcp _ c :=
            hsame (initEventChannelTcp_opening hidleNamed hnamed hf.1 hsend.1 fun _ => hok)
          refine ⟨hopening, lost, hex.congr ?_, hiff lost hl⟩
          rw [heldAfter_used, heldAfter_used, heldAfter_append, startSessionTcp_after]
        next hno =>
          intro hf
          rw [fresh_used, fresh_used] at hf
          obtain ⟨lost, hex, hl⟩ := initEventChannelTcp_exchange hidleNamed hnamed hf
          have hopening : Opening tcp _ false :=
            hsame (initEventChannelTcp_opening hidleNamed hnamed hf hsend.1 (by simp))
          exact ⟨hopening, lost, hex.congr rfl, hiff lost hl⟩
      · simp only [hack, Bool.false_eq_true, if_false]
        intro _
        refine ⟨hidle, ∅, (Exchange.refl h).congr rfl, ?_⟩
        simp [TcpAnswers.acknowledged, hr, hack]
  · rw [if_neg hsend]
    intro _
    refine ⟨hidle, ∅, (Exchange.refl h).congr rfl, ?_⟩
    simp only [TcpAnswers.acknowledged, true_iff]
    exact fun hall => hsend ⟨hall.1, hall.2.1.1⟩

theorem initCommandChannelTcp_proper {r : Res} (hr : tcp.command = some r) (hheld : r ∈ held) :
    Proper held (initCommandChannelTcp a tcp).trace ↔ (a.acknowledged → a.eventSocket.isSome) := by
  have hcmd : tcp.cmdSock.isSome := by
    cases hc : tcp.cmdSock with
    | none => simp [PtpTcp.command, hc] at hr
    | some s => rfl
  unfold initCommandChannelTcp
  cases hs : a.sendInit
  · simp [TcpAnswers.acknowledged, hs, hr, hheld]
  cases hrecv : a.recvInit with
  | none => simp [TcpAnswers.acknowledged, hcmd, hrecv, hr, hheld]
  | some reply =>
    by_cases hack : reply.acknowledges = true
    · have hacked : a.acknowledged := ⟨hs, reply, hrecv, hack⟩
      let named : PtpTcp :=
        { tcp with connectionId := reply.connectionId, camGuid := reply.camGuid }
      have hevent : Proper held (initEventChannelTcp a named).2.2 ↔ _ := initEventChannelTcp_proper
      simp only [hcmd, and_self, if_true, hack, hr, hacked, true_imp_iff, named] at hevent ⊢
      split
      next hok =>
        have hcommand : (initEventChannelTcp a named).2.1.command = some r := by
          rcases initEventChannelTcp_sock a named with ⟨hsame, -⟩ | ⟨s, -, hsame⟩ <;>
          · rw [hsame]
            exact hr
        have hkept : r ∈ heldAfter held (initEventChannelTcp a named).2.2 :=
          initEventChannelTcp_grows hheld
        have hsession := startSessionTcp_proper a hcommand hkept
        rw [proper_used, proper_used, proper_append, hevent]
        exact ⟨fun h => h.2.2.1, fun h => ⟨hheld, hheld, h, hsession⟩⟩
      next =>
        rw [proper_used, proper_used, hevent]
        exact ⟨fun h => h.2.2, fun h => ⟨hheld, hheld, h⟩⟩
    · simp [TcpAnswers.acknowledged, hcmd, hrecv, hack, hr, hheld]

/-- The command socket for which `init_ptp_tcp` gets as far as to send on it. -/
def TcpAnswers.cmdSock (a : TcpAnswers) : Option (Option Nat) :=
  a.getaddrinfo.bind fun r => (tryAddresses r.2).1

/-- The event channel has a socket that cannot connect. -/
def TcpAnswers.Loses (a : TcpAnswers) : Prop :=
  (∃ s, a.cmdSock = some (some s)) ∧ a.acknowledged ∧ a.eventSocket.isSome ∧ ¬a.eventConnect

/-- No address could be connected to, or there is no socket for the event channel. -/
def TcpAnswers.Invalid (a : TcpAnswers) : Prop :=
  a.cmdSock = some none ∨ (∃ s, a.cmdSock = some (some s)) ∧ a.acknowledged ∧ a.eventSocket = none

/-- What `init_ptp_tcp` leaves of a connection, open or not. -/
structure Inited (tcp tcp' : PtpTcp) (connected : Bool) : Prop where
  host : tcp'.host = tcp.host
  port : tcp'.port = tcp.port
  two : tcp'.eventSock.isSome → tcp'.cmdSock ≠ tcp'.eventSock
  connected : connected → tcp'.cmdSock.isSome ∧ tcp'.eventSock.isSome ∧ tcp'.ai.isSome

theorem initPtpTcp_exchange (hcmd : tcp.cmdSock = none) (hevent : tcp.eventSock = none)
    (hai : tcp.ai = none) (hf : Fresh held (initPtpTcp a tcp).trace) :
    Inited tcp (initPtpTcp a tcp).tcp (initPtpTcp a tcp).connected ∧
      ∃ lost, Exchange held ∅ (initPtpTcp a tcp).tcp.parts (initPtpTcp a tcp).trace lost ∧
        (lost = ∅ ↔ ¬a.Loses) := by
  have hidle : Inited tcp tcp false := ⟨rfl, rfl, by simp [hevent], by simp⟩
  have hempty : tcp.parts = ∅ := by
    simp [PtpTcp.parts, PtpTcp.command, PtpTcp.event, PtpTcp.addrinfo, hcmd, hevent, hai]
  have hnone := Exchange.refl (Finset.empty_subset held)
  revert hf
  unfold initPtpTcp
  cases hget : a.getaddrinfo with
  | none =>
    intro _
    refine ⟨hidle, ∅, by rwa [hempty], ?_⟩
    simp [TcpAnswers.Loses, TcpAnswers.cmdSock, hget]
  | some r =>
    obtain ⟨ai, attempts⟩ := r
    cases htry : (tryAddresses attempts).1 with
    | none =>
      simp only [htry, List.cons_append, fresh_opened, fresh_append]
      intro hf
      have hopened := Exchange.opened (Finset.empty_subset held) hf.1
      have hown : insert (Res.addrinfo ai) ∅ ⊆ insert (Res.addrinfo ai) held := hopened.own_subset
      have htried := (tryAddresses_exchange attempts hf.2.1 hown).after
      rw [htry, Option.bind_none, Option.elim_none, Finset.union_empty,
        Finset.sdiff_union_of_subset hown] at htried
      refine ⟨hidle, ∅, ?_, ?_⟩
      · rw [hempty]
        apply hnone.congr
        rw [heldAfter_opened, heldAfter_append, htried, heldAfter_closed]
        exact Finset.erase_insert hf.1
      · simp [TcpAnswers.Loses, TcpAnswers.cmdSock, hget, htry]
    | some sock =>
      simp only [htry, List.cons_append, fresh_opened, fresh_append]
      intro hf
      have hopened := Exchange.opened (Finset.empty_subset held) hf.1
      have htried := hopened.trans (tryAddresses_exchange attempts hf.2.1 hopened.own_subset)
      let started : PtpTcp := { tcp with ai := some ai, cmdSock := sock }
      have hparts : ((tryAddresses attempts).1.bind id).elim (insert (Res.addrinfo ai) ∅) (fun s =>
          insert (.sock s) (insert (Res.addrinfo ai) ∅)) = started.parts := by
        rw [htry]
        ext r
        cases sock <;>
        simp [started, mem_parts, PtpTcp.command, PtpTcp.event, PtpTcp.addrinfo, hevent, eq_comm]
      rw [hparts, Finset.union_empty] at htried
      have hidleStarted : started.eventSock = none := hevent
      obtain ⟨hopening, lost, hex, hl⟩ :=
        initCommandChannelTcp_exchange hidleStarted htried.own_subset hf.2.2
      refine ⟨⟨hopening.host, hopening.port, hopening.two, ?_⟩, lost, ?_, ?_⟩
      · intro hcon
        obtain ⟨hc, he⟩ := hopening.connected hcon
        exact ⟨hc, he, by rw [hopening.ai]; rfl⟩
      · have hall := htried.trans hex
        rwa [Finset.empty_union] at hall
      · rw [hl]
        cases sock <;> simp [TcpAnswers.Loses, TcpAnswers.cmdSock, hget, htry, started]

theorem initPtpTcp_proper (hf : Fresh held (initPtpTcp a tcp).trace) :
    Proper held (initPtpTcp a tcp).trace ↔ ¬a.Invalid := by
  revert hf
  unfold initPtpTcp
  cases hget : a.getaddrinfo with
  | none => simp [TcpAnswers.Invalid, TcpAnswers.cmdSock, hget]
  | some r =>
    obtain ⟨ai, attempts⟩ := r
    have hsock : a.cmdSock = (tryAddresses attempts).1 := by simp [TcpAnswers.cmdSock, hget]
    have htried : Proper (insert (.addrinfo ai) held) (tryAddresses attempts).2 :=
      tryAddresses_proper attempts
    have hown : ({.addrinfo ai} : Finset Res) ⊆ insert (.addrinfo ai) held := by simp
    cases htry : (tryAddresses attempts).1 with
    | none =>
      simp only [htry, List.cons_append, fresh_opened, fresh_append, proper_opened, proper_append]
      intro hf
      have hkept := (tryAddresses_exchange attempts hf.2.1 hown).own_subset
      rw [htry] at hkept
      have hai : Res.addrinfo ai ∈ heldAfter (insert (.addrinfo ai) held) (tryAddresses attempts).2 :=
        hkept (Finset.mem_singleton_self _)
      simp [htried, hai, TcpAnswers.Invalid, hsock, htry]
    | some sock =>
      simp only [htry, List.cons_append, fresh_opened, fresh_append, proper_opened, proper_append]
      intro hf
      have hkept := (tryAddresses_exchange attempts hf.2.1 hown).own_subset
      rw [htry] at hkept
      cases sock with
      | none =>
        simp [initCommandChannelTcp, PtpTcp.command, TcpAnswers.Invalid, hsock, htry]
      | some s =>
        have hs : Res.sock s ∈ heldAfter (insert (.addrinfo ai) held) (tryAddresses attempts).2 :=
          hkept (Finset.mem_insert_self _ _)
        rw [initCommandChannelTcp_proper rfl hs]
        simp [htried, TcpAnswers.Invalid, hsock, htry, Option.isSome_iff_ne_none]

theorem startSessionTcp_connected (h : (startSessionTcp a tcp).1) :
    (startSessionTcp a tcp).2.1 := by
  revert h
  unfold startSessionTcp
  split <;> simp

theorem initCommandChannelTcp_connected (h : (initCommandChannelTcp a tcp).ok) :
    (initCommandChannelTcp a tcp).connected := by
  revert h
  unfold initCommandChannelTcp
  split
  · split
    · simp
    · split
      · simp only
        split
        · exact startSessionTcp_connected
        · simp
      · simp
  · simp

/-- Where `init_ptp_tcp` succeeds it has set the flag. -/
theorem initPtpTcp_connected (h : (initPtpTcp a tcp).ok) : (initPtpTcp a tcp).connected := by
  revert h
  unfold initPtpTcp
  split
  · simp
  · simp only
    split
    · simp
    · exact initCommandChannelTcp_connected

/-! ## The methods -/

def Transport.parts : Transport → Finset Res
  | .usb c => c.device.toFinset
  | .tcp c => c.parts

/-- What a connection has open; nothing, unless it is connected. -/
def PtpConState.inUse (cs : PtpConState) : Finset Res :=
  if cs.connected then cs.transport.parts else ∅

/-- Between calls a TCP connection has all that it needs, or nothing. -/
def PtpConState.Settled (cs : PtpConState) : Prop :=
  match cs.transport with
  | .usb c => cs.connected → c.device.isSome
  | .tcp c =>
    if cs.connected then
      c.cmdSock.isSome ∧ c.eventSock.isSome ∧ c.ai.isSome ∧ c.cmdSock ≠ c.eventSock
    else c.cmdSock = none ∧ c.eventSock = none ∧ c.ai = none

/-- A call on a connection; it loses something, or uses something that is not open, under the
conditions given. -/
structure Called (held : Finset Res) (cs cs' : PtpConState) (trace : Trace)
    (Loses Misuses : Prop) : Prop where
  address : cs'.address = cs.address
  settled : cs'.Settled
  exchange : ∃ lost, Exchange held cs.inUse cs'.inUse trace lost ∧ (lost = ∅ ↔ ¬Loses)
  proper : Proper held trace ↔ ¬Misuses

variable {cs : PtpConState}

/-- A call that opens and closes nothing. -/
theorem Called.refl {trace : Trace} {Misuses : Prop} (hs : cs.Settled) (h : cs.inUse ⊆ held)
    (hafter : heldAfter held trace = held) (hproper : Proper held trace ↔ ¬Misuses) :
    Called held cs cs trace False Misuses :=
  ⟨rfl, hs, ⟨∅, (Exchange.refl h).congr hafter, by simp⟩, hproper⟩

theorem Ended.exchange {device : Option Res} {lost : Prop} {ok : Bool} {trace : Trace}
    (h : Ended held (heldAfter held trace) device lost ok) :
    ∃ l, Exchange held ∅ (if ok then device.toFinset else ∅) trace l ∧ (l = ∅ ↔ ¬lost) := by
  have hnone := Exchange.refl (Finset.empty_subset held)
  cases h with
  | opened r hd hnew hafter hlost =>
    subst hd
    refine ⟨∅, ?_, by simp [hlost]⟩
    exact (Exchange.opened (Finset.empty_subset held) hnew).congr hafter
  | closed hafter hlost => exact ⟨∅, hnone.congr hafter, by simp [hlost]⟩
  | left r hnew hafter hlost =>
    have hopened := Exchange.opened (Finset.empty_subset held) hnew
    have hdrop := hopened.trans (.drop hopened.own_subset (Finset.Subset.refl _))
    rw [Finset.sdiff_self, Finset.empty_union] at hdrop
    refine ⟨_, hdrop.congr hafter, by simp [hlost]⟩

/-- `connect` on a closed connection leaves something open for which there is no connection. -/
def Answers.Loses (a : Answers) (cs : PtpConState) : Prop :=
  cs.connected = false ∧
    match cs.transport with
    | .usb c => findDeviceByPath a.usb.busses c.bus c.dev ≠ none ∧ a.usb.Loses c
    | .tcp _ => a.tcp.Loses

/-- `connect` on a closed connection uses an invalid socket. -/
def Answers.Misuses (a : Answers) (cs : PtpConState) : Prop :=
  cs.connected = false ∧
    match cs.transport with
    | .usb _ => False
    | .tcp _ => a.tcp.Invalid

theorem openCameraDevUsb_path (reset : Bool) (a : UsbAnswers) (dev : UsbDevice) (usb : PtpUsb) :
    (openCameraDevUsb reset a dev usb).2.1.bus = usb.bus ∧
      (openCameraDevUsb reset a dev usb).2.1.dev = usb.dev := by
  unfold openCameraDevUsb
  cases a.usbOpen with
  | none => exact findEndpoints_path dev usb
  | some h =>
    rw [initPtpUsb_some]
    by_cases hs : a.opensession = PTP_RC_OK
    · simp [hs]
    · cases hopen2 : a.usbOpen2 with
      | none => simp [hs, reopenCameraDevUsb, hopen2, initPtpUsb, findEndpoints_path]
      | some h2 =>
        by_cases hs2 : a.opensession2 = PTP_RC_OK <;>
        simp [hs, reopenCameraDevUsb, hopen2, initPtpUsb_some, hs2]

theorem connectCamUsb_called {a : Answers} (htr : cs.transport = .usb usb)
    (hcon : cs.connected = false) (hf : Fresh held (connectCamUsb reset a.usb usb).2.2) :
    Called held cs (connectCamUsb reset a.usb usb).2.1 (connectCamUsb reset a.usb usb).2.2
      (a.Loses cs) (a.Misuses cs) := by
  have hnone : cs.inUse = ∅ := by simp [PtpConState.inUse, hcon]
  revert hf
  unfold connectCamUsb
  cases hfind : findDeviceByPath a.usb.busses usb.bus usb.dev with
  | none =>
    intro _
    refine ⟨by simp [PtpConState.address, htr], by simp [PtpConState.Settled], ⟨∅, ?_, ?_⟩, ?_⟩
    · rw [hnone]
      exact .refl (Finset.empty_subset held)
    · simp [Answers.Loses, htr, hfind]
    · simp [Answers.Misuses, htr]
  | some dev =>
    intro hf
    have hpath := openCameraDevUsb_path reset a.usb dev usb
    have hended := openCameraDevUsb_ended hf
    obtain ⟨lost, hex, hl⟩ := hended.exchange
    refine ⟨?_, ?_, ⟨lost, ?_, ?_⟩, ?_⟩
    · simp [PtpConState.address, htr, hpath]
    · simp [PtpConState.Settled]
      intro hok
      rw [hok] at hended
      cases hended with
      | opened r hd => simp [hd]
    · rw [hnone]
      exact hex
    · simp [hl, Answers.Loses, htr, hfind, hcon]
    · simp [Answers.Misuses, htr, openCameraDevUsb_proper]

theorem connectCamTcp_called {a : Answers} (htr : cs.transport = .tcp tcp)
    (hcon : cs.connected = false) (hs : cs.Settled) (hf : Fresh held (connectCamTcp a.tcp tcp).2.2) :
    Called held cs (connectCamTcp a.tcp tcp).2.1 (connectCamTcp a.tcp tcp).2.2
      (a.Loses cs) (a.Misuses cs) := by
  have hnone : cs.inUse = ∅ := by simp [PtpConState.inUse, hcon]
  have hidle : tcp.cmdSock = none ∧ tcp.eventSock = none ∧ tcp.ai = none := by
    simpa [PtpConState.Settled, htr, hcon] using hs
  have hf' : Fresh held (initPtpTcp a.tcp tcp).trace := by
    revert hf
    simp only [connectCamTcp]
    cases (initPtpTcp a.tcp tcp).ok <;> simp +contextual
  obtain ⟨hinit, lost, hex, hl⟩ := initPtpTcp_exchange hidle.1 hidle.2.1 hidle.2.2 hf'
  have hproper := initPtpTcp_proper hf'
  have hloses : lost = ∅ ↔ ¬a.Loses cs := by simp [hl, Answers.Loses, htr, hcon]
  have hmisuses : a.Misuses cs ↔ a.tcp.Invalid := by simp [Answers.Misuses, htr, hcon]
  have haddress {c : PtpTcp} (hh : c.host = tcp.host) (hp : c.port = tcp.port) (b : Bool) :
      PtpConState.address { transport := .tcp c, connected := b } = cs.address := by
    simp [PtpConState.address, htr, hh, hp]
  simp only [connectCamTcp]
  cases hok : (initPtpTcp a.tcp tcp).ok with
  | false =>
    have hclose := hex.trans (.close (closeCameraTcp_after (initPtpTcp a.tcp tcp).connected))
    rw [Finset.union_empty] at hclose
    simp only [Bool.false_eq_true, if_false]
    refine ⟨haddress hinit.host hinit.port false, ⟨rfl, rfl, rfl⟩, ⟨lost, ?_, hloses⟩, ?_⟩
    · rw [hnone]
      exact hclose
    · rw [hmisuses, ← hproper]
      rw [proper_append, and_iff_left_iff_imp]
      intro _
      exact closeCameraTcp_proper _ hex.own_subset (fun h => (hinit.connected h).1) hinit.two
  | true =>
    have hset := initPtpTcp_connected hok
    obtain ⟨hc, he, hai⟩ := hinit.connected hset
    simp only [if_true]
    refine ⟨haddress hinit.host hinit.port _, ?_, ⟨lost, ?_, hloses⟩, ?_⟩
    · simp [PtpConState.Settled, hset, hc, he, hai, hinit.two he]
    · rw [hnone, PtpConState.inUse, hset]
      exact hex
    · rw [hmisuses, ← hproper]

/-- `connect` throws on a connection that is connected. -/
theorem chdkConnect_called {a : Answers} (hs : cs.Settled) (h : cs.inUse ⊆ held)
    (hf : Fresh held (chdkConnect reset a cs).2.2) :
    Called held cs (chdkConnect reset a cs).2.1 (chdkConnect reset a cs).2.2 (a.Loses cs)
      (a.Misuses cs) := by
  revert hf
  unfold chdkConnect
  cases hcon : cs.connected with
  | true =>
    intro _
    have hno : ¬a.Loses cs ∧ ¬a.Misuses cs := by simp [Answers.Loses, Answers.Misuses, hcon]
    have hrefl : Called held cs cs [] False (a.Misuses cs) :=
      .refl hs h rfl (iff_of_true proper_nil hno.2)
    exact { hrefl with
      exchange := hrefl.exchange.imp fun lost hl => ⟨hl.1, by simp [hl.2, hno.1]⟩ }
  | false =>
    cases htr : cs.transport with
    | usb usb => exact connectCamUsb_called htr hcon
    | tcp tcp => exact connectCamTcp_called htr hcon hs

/-- The device of a connected camera is not on the busses. -/
def PtpConState.DeviceGone (cs : PtpConState) (busses : List UsbBus) : Prop :=
  cs.connected ∧
    match cs.transport with
    | .usb c => findDeviceByPath busses c.bus c.dev = none
    | .tcp _ => False

theorem device_handle (h : usb.device.isSome) : ∃ n, usb.device = some (.handle n) := by
  cases hn : usb.handle with
  | none => simp [PtpUsb.device, hn] at h
  | some n => exact ⟨n, by simp [PtpUsb.device, hn]⟩

theorem closeCamera_exchange (hs : cs.Settled) (hcon : cs.connected) (h : cs.inUse ⊆ held) :
    (∃ lost, Exchange held cs.inUse ∅ (closeCamera reset busses cs).2 lost ∧
      (lost = ∅ ↔ ¬cs.DeviceGone busses)) ∧ Proper held (closeCamera reset busses cs).2 := by
  unfold closeCamera
  unfold PtpConState.inUse at h ⊢
  simp only [hcon, if_true] at h ⊢
  cases htr : cs.transport with
  | usb usb =>
    rw [htr] at h
    obtain ⟨h', hd⟩ := device_handle (by simpa [PtpConState.Settled, htr, hcon] using hs)
    have hown : usb.device.toFinset = {.handle h'} := by rw [hd, Option.toFinset_some]
    have hheld : Res.handle h' ∈ held := h (by simp [Transport.parts, hown])
    refine ⟨?_, closeCameraUsb_proper hd hheld⟩
    have hafter : heldAfter held (closeCameraUsb reset busses usb) = _ := closeCameraUsb_after hd
    by_cases hgone : findDeviceByPath busses usb.bus usb.dev = none
    · rw [if_pos hgone] at hafter
      have hdrop := Exchange.drop h (Finset.Subset.refl _)
      rw [Finset.sdiff_self] at hdrop
      refine ⟨_, hdrop.congr hafter, ?_⟩
      simp [PtpConState.DeviceGone, htr, hcon, hgone, Transport.parts, hown]
    · rw [if_neg hgone, ← Finset.sdiff_singleton_eq_erase, ← hown] at hafter
      refine ⟨∅, .close hafter, ?_⟩
      simp [PtpConState.DeviceGone, htr, hgone]
  | tcp tcp =>
    rw [htr] at h
    obtain ⟨hc, he, hai, hne⟩ :
        tcp.cmdSock.isSome ∧ tcp.eventSock.isSome ∧ tcp.ai.isSome ∧ tcp.cmdSock ≠ tcp.eventSock := by
      simpa [PtpConState.Settled, htr, hcon] using hs
    refine ⟨⟨∅, .close (closeCameraTcp_after _), ?_⟩, ?_⟩
    · simp [PtpConState.DeviceGone, htr]
    · exact closeCameraTcp_proper _ h (fun _ => hc) (fun _ => hne)

theorem closeCamera_closed :
    (closeCamera reset busses cs).1.address = cs.address ∧
      PtpConState.Settled { (closeCamera reset busses cs).1 with connected := false } := by
  unfold closeCamera
  cases htr : cs.transport <;>
  simp [PtpConState.address, PtpConState.Settled, htr, closeCameraTcp]

theorem closeConnection_called (hs : cs.Settled) (h : cs.inUse ⊆ held) :
    Called held cs (closeConnection reset busses cs).1 (closeConnection reset busses cs).2
      (cs.DeviceGone busses) False := by
  unfold closeConnection
  cases hcon : cs.connected with
  | false =>
    have hrefl : Called held cs cs [] False False := .refl hs h rfl (by simp)
    exact { hrefl with
      exchange := hrefl.exchange.imp fun lost hl =>
        ⟨hl.1, by simp [hl.2, PtpConState.DeviceGone, hcon]⟩ }
  | true =>
    obtain ⟨hex, hproper⟩ := closeCamera_exchange hs hcon h
    exact ⟨closeCamera_closed.1, closeCamera_closed.2, hex, by simpa using hproper⟩

/-- `is_connected` forgets a camera whose status is not OK. -/
theorem chdkIsConnected_called (devstatus : Option UInt16) (hs : cs.Settled)
    (h : cs.inUse ⊆ held) :
    Called held cs (chdkIsConnected devstatus cs).1 (chdkIsConnected devstatus cs).2
      (cs.connected ∧ (∃ c, cs.transport = .usb c) ∧ ¬checkConnectionStatusUsb devstatus) False := by
  have hrefl : Called held cs cs [] False False := .refl hs h rfl (by simp)
  unfold chdkIsConnected
  cases hcon : cs.connected with
  | false => simpa using hrefl
  | true =>
    cases htr : cs.transport with
    | tcp tcp => simpa using hrefl
    | usb usb =>
      obtain ⟨n, hd⟩ := device_handle (by simpa [PtpConState.Settled, htr, hcon] using hs)
      have hown : cs.inUse = {.handle n} := by
        simp [PtpConState.inUse, hcon, htr, Transport.parts, hd]
      have hheld : Res.handle n ∈ held := h (by simp [hown])
      have hproper : Proper held [.used usb.device] := by simp [hd, hheld]
      have hsame : ({ transport := .usb usb, connected := true } : PtpConState) = cs := by
        rw [← htr, ← hcon]
      simp only [if_true]
      cases hst : checkConnectionStatusUsb devstatus with
      | true =>
        have hused : Called held cs cs [.used usb.device] False False :=
          .refl hs h rfl (by simpa using hproper)
        rw [hsame]
        simpa using hused
      | false =>
        have hdrop := Exchange.drop h (Finset.Subset.refl _)
        rw [Finset.sdiff_self] at hdrop
        refine ⟨?_, by simp [PtpConState.Settled], ⟨_, hdrop.congr rfl, ?_⟩, ?_⟩
        · simp [PtpConState.address, htr]
        · simp [hown]
        · simpa using hproper

/-- What a connected connection sends on is open. -/
theorem channel_held (hs : cs.Settled) (hcon : cs.connected) (h : cs.inUse ⊆ held) :
    ∃ r ∈ held, cs.transport.channel = some r := by
  unfold PtpConState.inUse at h
  rw [if_pos hcon] at h
  cases htr : cs.transport with
  | usb usb =>
    rw [htr] at h
    obtain ⟨n, hd⟩ := device_handle (by simpa [PtpConState.Settled, htr, hcon] using hs)
    exact ⟨_, h (by simp [Transport.parts, hd]), hd⟩
  | tcp tcp =>
    rw [htr] at h
    simp only [PtpConState.Settled, htr, hcon, if_true] at hs
    obtain ⟨s, hcs⟩ := Option.isSome_iff_exists.mp hs.1
    have hcmd : tcp.command = some (.sock s) := by simp [PtpTcp.command, hcs]
    exact ⟨_, h ((mem_parts _).mpr (.inl hcmd)), hcmd⟩

theorem ensureConnected_called (n : Nat) (hs : cs.Settled) (h : cs.inUse ⊆ held) :
    Called held cs cs (ensureConnected n cs).2 False False := by
  unfold ensureConnected
  cases hcon : cs.connected with
  | false => exact .refl hs h rfl (by simp)
  | true =>
    obtain ⟨r, hr, hch⟩ := channel_held hs hcon h
    simp only [if_true, hch]
    exact .refl hs h (heldAfter_replicate n) (by simpa using proper_replicate n hr)

theorem resetDevice_closed {usbOpen : Option Nat} {stalls : Nat} {dev : UsbDevice}
    (hf : Fresh held (resetDevice reset usbOpen stalls dev)) :
    heldAfter held (resetDevice reset usbOpen stalls dev) = held ∧
      Proper held (resetDevice reset usbOpen stalls dev) := by
  revert hf
  unfold resetDevice
  cases usbOpen with
  | none => simp [initPtpUsb]
  | some n =>
    rw [initPtpUsb_some]
    have hd : (PtpUsb.opened { bus := [], dev := [] } dev n).device = some (.handle n) := rfl
    have hmem := Finset.mem_insert_self (Res.handle n) held
    simp only [hd, fresh_append, fresh_opened, heldAfter_append, heldAfter_opened, heldAfter_used,
      heldAfter_nil, heldAfter_replicate, closeUsb_after hd, proper_append, proper_opened,
      proper_used, proper_nil, hmem, proper_replicate _ hmem, closeUsb_proper hd hmem, and_true]
    exact fun hf => Finset.erase_insert hf.1.1

end Connections
