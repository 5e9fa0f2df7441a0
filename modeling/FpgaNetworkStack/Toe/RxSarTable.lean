import FpgaNetworkStack.Toe.Internals

/-!
# The receive window table (`rx_sar_table.cpp`) and its reader (`rx_app_stream_if.cpp`)
-/

namespace FpgaNetworkStack.Toe

variable (b : Build)

structure RxSarTableIn where
  rxEng2rxSarUpdReq : List RxSarRecvd := []
  rxApp2rxSarUpdReq : List (RxSarAppd b) := []
  txEng2rxSarReq : List SessionID := []

structure RxSarTableOut where
  rxSar2rxEngUpdRsp : List (RxSarEntry b) := []
  rxSar2rxAppUpdRsp : List (RxSarAppd b) := []
  rxSar2txEngRsp : List RxSarReply := []

/-- The reply to the transmit engine, with the advertised window. -/
def RxSarEntry.reply (entry : RxSarEntry b) : RxSarReply :=
  let actualWindowSize : BitVec b.windowBits := (entry.appd - entry.recvd.setWidth _) - 1
  { recvd := entry.recvd
    winShift := entry.winShift
    windowSize :=
      if b.windowScale then (actualWindowSize >>> entry.winShift.toNat).setWidth 16
      else actualWindowSize.setWidth 16 }

/-- A write of the receive engine to one entry. -/
def RxSarEntry.recvdUpdate (entry : RxSarEntry b) (q : RxSarRecvd) : RxSarEntry b :=
  { recvd := q.recvd, head := q.head, offset := q.offset, gap := q.gap
    appd := if q.init then q.recvd.setWidth _ else entry.appd
    winShift := if q.init && b.windowScale then q.winShift else entry.winShift }

/-- One call of `rx_sar_table`: the transmit engine goes first, then the application, then the
receive engine. -/
def rxSarTable (rxTable : SessionID → RxSarEntry b) (i : RxSarTableIn b) :
    (SessionID → RxSarEntry b) × RxSarTableIn b × RxSarTableOut b :=
  match i.txEng2rxSarReq, i.rxApp2rxSarUpdReq, i.rxEng2rxSarUpdReq with
  | addr :: rest, _, _ =>
    (rxTable, { i with txEng2rxSarReq := rest }, { rxSar2txEngRsp := [(rxTable addr).reply b] })
  | [], q :: rest, _ =>
    if q.write then
      (Function.update rxTable q.sessionID { rxTable q.sessionID with appd := q.appd },
        { i with rxApp2rxSarUpdReq := rest }, {})
    else
      (rxTable, { i with rxApp2rxSarUpdReq := rest },
        { rxSar2rxAppUpdRsp := [⟨q.sessionID, (rxTable q.sessionID).appd, false⟩] })
  | [], [], q :: rest =>
    if q.write then
      (Function.update rxTable q.sessionID ((rxTable q.sessionID).recvdUpdate b q),
        { i with rxEng2rxSarUpdReq := rest }, {})
    else
      (rxTable, { i with rxEng2rxSarUpdReq := rest },
        { rxSar2rxEngUpdRsp := [rxTable q.sessionID] })
  | [], [], [] => (rxTable, i, {})

/-! ## `rx_app_stream_if` -/

structure RxAppStreamIf where
  rasiReadLength : BitVec 16
  rasiFsmState : Bool
  deriving DecidableEq

structure AppReadRequest where
  sessionID : SessionID
  length : BitVec 16
  deriving DecidableEq

structure RxAppStreamIfIn where
  appRxDataReq : List AppReadRequest := []
  rxSar2rxAppUpdRsp : List (RxSarAppd b) := []

structure RxAppStreamIfOut where
  appRxDataRspMetadata : List SessionID := []
  rxApp2rxSarUpdReq : List (RxSarAppd b) := []
  rxBufferReadCmd : List MmCmd := []

/-- One call of `rx_app_stream_if`; the DDR-bypass build issues a token in place of the read
command. -/
def rxAppStreamIf (s : RxAppStreamIf) (i : RxAppStreamIfIn b) :
    RxAppStreamIf × RxAppStreamIfIn b × RxAppStreamIfOut b :=
  match s.rasiFsmState with
  | false =>
    match i.appRxDataReq with
    | [] => (s, i, {})
    | q :: rest =>
      if q.length = 0 then (s, { i with appRxDataReq := rest }, {})
      else (⟨q.length, true⟩, { i with appRxDataReq := rest },
        { rxApp2rxSarUpdReq := [⟨q.sessionID, 0, false⟩] })
  | true =>
    match i.rxSar2rxAppUpdRsp with
    | [] => (s, i, {})
    | r :: rest =>
      ({ s with rasiFsmState := false }, { i with rxSar2rxAppUpdRsp := rest },
        { appRxDataRspMetadata := [r.sessionID]
          rxApp2rxSarUpdReq := [⟨r.sessionID, r.appd + s.rasiReadLength.setWidth _, true⟩]
          rxBufferReadCmd :=
            if b.rxDdrBypass then [] else [.new (pkgAddr b r.sessionID r.appd) s.rasiReadLength] })

variable {b}

theorem rxSarTable_recvdWrite (rxTable : SessionID → RxSarEntry b) {q : RxSarRecvd}
    (h : q.write = true) :
    (rxSarTable b rxTable { rxEng2rxSarUpdReq := [q] }).1 =
      Function.update rxTable q.sessionID ((rxTable q.sessionID).recvdUpdate b q) := by
  simp [rxSarTable, h]

/-- The read-modify-write of the application pointer: one read request of `len ≠ 0` bytes. -/
theorem rxAppStreamIf_advances (rxTable : SessionID → RxSarEntry b) {id : SessionID}
    {len : BitVec 16} (hlen : len ≠ 0) (l : BitVec 16) :
    let first := rxAppStreamIf b ⟨l, false⟩ { appRxDataReq := [⟨id, len⟩] }
    let rsp := (rxSarTable b rxTable { rxApp2rxSarUpdReq := first.2.2.rxApp2rxSarUpdReq }).2.2
    let second := rxAppStreamIf b first.1 { rxSar2rxAppUpdRsp := rsp.rxSar2rxAppUpdRsp }
    (rxSarTable b rxTable { rxApp2rxSarUpdReq := second.2.2.rxApp2rxSarUpdReq }).1 =
      Function.update rxTable id
        { rxTable id with appd := (rxTable id).appd + len.setWidth b.windowBits } := by
  have hlen' : ¬ len = 0#16 := hlen
  simp [rxAppStreamIf, rxSarTable, hlen']

end FpgaNetworkStack.Toe
