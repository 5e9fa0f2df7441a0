import FpgaNetworkStack.Toe.Internals

/-!
# The transmit engine (`tx_engine.cpp`)

`metaLoader` turns an event into the header fields of a segment.  Only the `TCP_NODELAY` variant is
modelled: the other one uses variables that are not declared and is not a program.
-/

namespace FpgaNetworkStack.Toe

open EventType

variable (b : Build)

/-- `tx_engine_meta`. -/
structure TxEngineMeta where
  seqNumb : BitVec 32
  ackNumb : BitVec 32
  windowSize : BitVec 16
  winShift : BitVec 4
  length : BitVec 16
  ack : Bool
  rst : Bool
  syn : Bool
  fin : Bool
  deriving DecidableEq, Inhabited

/-- `ml_FsmState`: waiting for an event, or working on one. -/
inductive MlFsmState where
  | IDLE | WORK
  deriving DecidableEq, Repr

structure MetaLoader where
  mlFsmState : MlFsmState
  mlSarLoaded : Bool
  mlCurEvent : ExtendedEvent b
  mlRandomValue : BitVec 32
  mlSegmentCount : BitVec 2
  rxSar : RxSarReply
  txSarReg : TxTxSarReply b
  metaData : TxEngineMeta
  deriving DecidableEq

/-- Static initialisation; the registers without an initialiser hold a default value. -/
def MetaLoader.init : MetaLoader b :=
  ⟨.IDLE, false, default, 0x562301af, 0, default, default, default⟩

structure MetaLoaderIn where
  eventEng2txEngEvent : List (ExtendedEvent b) := []
  rxSar2txEngRsp : List RxSarReply := []
  txSar2txEngUpdRsp : List (TxTxSarReply b) := []

structure MetaLoaderOut where
  txEng2rxSarReq : List SessionID := []
  txEng2txSarUpdReq : List TxTxSarQuery := []
  txEng2timerSetRetransmitTimer : List TxRetransmitTimerSet := []
  txEng2timerSetProbeTimer : List SessionID := []
  txEngIpMetaFifoOut : List (BitVec 16) := []
  txEngTcpMetaFifoOut : List TxEngineMeta := []
  txBufferReadCmd : List MmCmd := []
  txEng2sLookupRevReq : List SessionID := []
  txEngIsLookUpFifoOut : List Bool := []
  txEngIsDDRbypass : List Bool := []
  txEngTupleShortCutFifoOut : List FourTuple := []
  readCountFifo : Nat := 0

variable {b}

/-- The requests made when an event is taken. -/
def mlRequests (e : ExtendedEvent b) : MetaLoaderOut :=
  let both : MetaLoaderOut :=
    { txEng2rxSarReq := [e.sessionID], txEng2txSarUpdReq := [.read e.sessionID], readCountFifo := 1 }
  let txOnly (cond : Bool) : MetaLoaderOut :=
    { txEng2txSarUpdReq := if cond then [.read e.sessionID] else [], readCountFifo := 1 }
  match e.type with
  | RT | TX | SYN_ACK | FIN | ACK | ACK_NODELAY => both
  | RST => txOnly (e.toEvent.hasSessionID b)
  | SYN => txOnly (e.rtCount != 0)

/-- A segment of the session of event `e`: header fields, tuple lookup, and its payload, which
bypasses memory (`some true`), is read back from it (`some false`), or is absent. -/
def mlSegment (e : ExtendedEvent b) (m : TxEngineMeta) (bypass : Option Bool) : MetaLoaderOut :=
  { txEngIpMetaFifoOut := [m.length]
    txEngTcpMetaFifoOut := [m]
    txEngIsLookUpFifoOut := [true]
    txEngIsDDRbypass := bypass.toList
    txEng2sLookupRevReq := [e.sessionID] }

/-- The fields all segments of an established session share. -/
def mlHeader (s : MetaLoader b) (rxSar : RxSarReply) (seqNumb : BitVec 32) (length : BitVec 16) :
    TxEngineMeta :=
  { seqNumb, ackNumb := rxSar.recvd, windowSize := rxSar.windowSize, winShift := s.metaData.winShift
    length, ack := true, rst := false, syn := false, fin := false }

/-- Event TX: the data of one write, which follows on the bypass stream. -/
def mlTx (s : MetaLoader b) (rxSar : RxSarReply) (txSar : TxTxSarReply b) :
    MetaLoader b × MetaLoaderOut :=
  let e := s.mlCurEvent
  let m := mlHeader s rxSar txSar.notAckd e.length
  let segment : MetaLoaderOut :=
    if e.length = 0 then {}
    else { mlSegment e m (some true) with
      txEng2timerSetRetransmitTimer := [⟨e.sessionID, RT⟩] }
  ({ s with mlFsmState := .IDLE, rxSar, metaData := m },
    { segment with
      txEng2timerSetProbeTimer := if 0x7FFF < e.length.toNat then [e.sessionID] else []
      txEng2txSarUpdReq :=
        [.update e.sessionID (txSar.notAckd + e.length.setWidth 32) false false false] })

/-- Event RT: one segment from `ackd` on; `first` when the replies were read by this call. -/
def mlRt (s : MetaLoader b) (first : Bool) (rxSar : RxSarReply) (txSar : TxTxSarReply b) :
    MetaLoader b × MetaLoaderOut :=
  let e := s.mlCurEvent
  let currLength := txSar.usedLength
  let pkgAddr := pkgAddr b e.sessionID (txSar.ackd.setWidth _)
  let full := decide (b.mss.toNat < currLength.toNat)
  let m := mlHeader s rxSar txSar.ackd (if full then b.mss else currLength.setWidth 16)
  -- decrease slow start threshold, only on the first RT from the timer
  let threshold : BitVec b.windowBits :=
    if 4 * b.mss.toNat < currLength.toNat then currLength >>> 1 else BitVec.ofNat _ (2 * b.mss.toNat)
  let segment : MetaLoaderOut :=
    if m.length = 0 then {}
    else { mlSegment e m (some false) with
      txBufferReadCmd := [.new pkgAddr m.length]
      txEng2timerSetRetransmitTimer := [⟨e.sessionID, RT⟩] }
  let s' : MetaLoader b :=
    if full then
      { s with
        mlFsmState := if s.mlSegmentCount = 3 then .IDLE else .WORK
        mlSegmentCount := s.mlSegmentCount + 1
        txSarReg := { txSar with
          ackd := txSar.ackd + b.mss.setWidth 32, usedLength := txSar.usedLength - b.mss.setWidth _ } }
    else
      { s with
        mlFsmState := if txSar.finSent then .WORK else .IDLE
        mlCurEvent := if txSar.finSent then { e with type := FIN } else e
        txSarReg := txSar }
  ({ s' with mlSarLoaded := true, rxSar, metaData := m },
    { segment with
      txEng2txSarUpdReq :=
        if first && e.rtCount == 1 then [.rt b e.sessionID threshold] else [] })

/-- Events ACK and ACK_NODELAY: an empty segment. -/
def mlAck (s : MetaLoader b) (rxSar : RxSarReply) (txSar : TxTxSarReply b) :
    MetaLoader b × MetaLoaderOut :=
  let m := mlHeader s rxSar txSar.notAckd 0
  ({ s with mlFsmState := .IDLE, rxSar, metaData := m }, mlSegment s.mlCurEvent m none)

/-- The initial sequence number drawn for a SYN or SYN-ACK. -/
def mlInitialSeq (s : MetaLoader b) : BitVec 32 := (s.mlRandomValue <<< 6) - 1

/-- Events SYN and SYN_ACK: header `m` with the sequence number filled in; a first transmission draws
it and initialises the tx_sar entry, a repeated one reuses `ackd`. -/
def mlOpen (s : MetaLoader b) (m : TxEngineMeta) (ackd : BitVec 32) : MetaLoader b × MetaLoaderOut :=
  let e := s.mlCurEvent
  let seq := mlInitialSeq s
  let m := { m with seqNumb := if e.rtCount ≠ 0 then ackd else seq }
  ({ s with
      mlFsmState := .IDLE, metaData := m
      mlRandomValue := if e.rtCount ≠ 0 then s.mlRandomValue
        else (s.mlRandomValue * 8) ^^^ s.mlRandomValue },
    { mlSegment e m none with
      txEng2txSarUpdReq :=
        if e.rtCount ≠ 0 then [] else [.update e.sessionID (seq + 1) true false false]
      txEng2timerSetRetransmitTimer := [⟨e.sessionID, e.type⟩] })

def mlSyn (s : MetaLoader b) (ackd : BitVec 32) : MetaLoader b × MetaLoaderOut :=
  mlOpen s
    { seqNumb := 0, ackNumb := 0, windowSize := 0xFFFF
      winShift := if b.windowScale then BitVec.ofNat 4 Build.windowScaleBits else s.metaData.winShift
      length := if b.windowScale then 8 else 4
      ack := false, rst := false, syn := true, fin := false } ackd

/-- Event SYN_ACK; the window scale option is sent when the peer sent it. -/
def mlSynAck (s : MetaLoader b) (rxSar : RxSarReply) (txSar : TxTxSarReply b) :
    MetaLoader b × MetaLoaderOut :=
  mlOpen { s with rxSar }
    { seqNumb := 0, ackNumb := rxSar.recvd, windowSize := 0xFFFF
      winShift := if b.windowScale then rxSar.winShift else s.metaData.winShift
      length := if b.windowScale && rxSar.winShift != 0 then 8 else 4
      ack := true, rst := false, syn := true, fin := false } txSar.ackd

/-- Event FIN; a repeated FIN reuses the number before `not_ackd`. -/
def mlFin (s : MetaLoader b) (rxSar : RxSarReply) (txSar : TxTxSarReply b) :
    MetaLoader b × MetaLoaderOut :=
  let e := s.mlCurEvent
  let seq := if e.rtCount ≠ 0 then txSar.notAckd - 1 else txSar.notAckd
  let m := { mlHeader s rxSar seq 0 with fin := true }
  ({ s with mlFsmState := .IDLE, rxSar, metaData := m },
    { mlSegment e m none with
      txEng2txSarUpdReq :=
        if e.rtCount ≠ 0 then [] else [.update e.sessionID (txSar.notAckd + 1) false true true]
      txEng2timerSetRetransmitTimer := [⟨e.sessionID, RT⟩] })

def rstMeta (seqNumb ackNumb : BitVec 32) : TxEngineMeta :=
  { seqNumb, ackNumb, windowSize := 0, winShift := 0, length := 0
    ack := true, rst := true, syn := false, fin := false }

/-- Event RST without a session: the event carries its tuple. -/
def mlRstTuple (s : MetaLoader b) : MetaLoader b × MetaLoaderOut :=
  let e := s.mlCurEvent
  ({ s with mlFsmState := .IDLE },
    { txEngIpMetaFifoOut := [0]
      txEngTcpMetaFifoOut := [rstMeta 0 (e.toEvent.getAckNumb b)]
      txEngIsLookUpFifoOut := [false]
      txEngTupleShortCutFifoOut := [e.tuple] })

def mlRstSession (s : MetaLoader b) (txSar : TxTxSarReply b) : MetaLoader b × MetaLoaderOut :=
  let e := s.mlCurEvent
  ({ s with mlFsmState := .IDLE },
    mlSegment e (rstMeta txSar.notAckd (e.toEvent.getAckNumb b)) none)

variable (b)

/-- The handler of an event that works on one reply of each table. -/
def mlBoth (handler : MetaLoader b → RxSarReply → TxTxSarReply b → MetaLoader b × MetaLoaderOut)
    (s : MetaLoader b) (i : MetaLoaderIn b) : MetaLoader b × MetaLoaderIn b × MetaLoaderOut :=
  match i.rxSar2txEngRsp, i.txSar2txEngUpdRsp with
  | rxSar :: rxs, txSar :: txs =>
    let (s, o) := handler s rxSar txSar
    (s, { i with rxSar2txEngRsp := rxs, txSar2txEngUpdRsp := txs }, o)
  | _, _ => (s, i, {})

def metaLoader (s : MetaLoader b) (i : MetaLoaderIn b) :
    MetaLoader b × MetaLoaderIn b × MetaLoaderOut :=
  match s.mlFsmState with
  | .IDLE =>
    match i.eventEng2txEngEvent with
    | [] => ({ s with mlSegmentCount := 0 }, i, {})
    | e :: rest =>
      ({ s with
          mlFsmState := .WORK, mlCurEvent := e, mlSarLoaded := false
          mlRandomValue := s.mlRandomValue + 1, mlSegmentCount := 0 },
        { i with eventEng2txEngEvent := rest }, mlRequests e)
  | .WORK =>
    match s.mlCurEvent.type with
    | TX => mlBoth b mlTx s i
    | RT =>
      if s.mlSarLoaded then
        let (s', o) := mlRt s false s.rxSar s.txSarReg
        (s', i, o)
      else mlBoth b (fun s => mlRt s true) s i
    | ACK | ACK_NODELAY => mlBoth b mlAck s i
    | SYN =>
      if s.mlCurEvent.rtCount ≠ 0 then
        match i.txSar2txEngUpdRsp with
        | [] => (s, i, {})
        | txSar :: txs =>
          let (s, o) := mlSyn s txSar.ackd
          (s, { i with txSar2txEngUpdRsp := txs }, o)
      else
        let (s, o) := mlSyn s 0
        (s, i, o)
    | SYN_ACK => mlBoth b mlSynAck s i
    | FIN =>
      if s.mlSarLoaded then
        let (s', o) := mlFin s s.rxSar s.txSarReg
        (s', i, o)
      else mlBoth b mlFin s i
    | RST =>
      if !s.mlCurEvent.toEvent.hasSessionID b then
        let (s, o) := mlRstTuple s
        (s, i, o)
      else
        match i.txSar2txEngUpdRsp with
        | [] => (s, i, {})
        | txSar :: txs =>
          let (s, o) := mlRstSession s txSar
          (s, { i with txSar2txEngUpdRsp := txs }, o)

end FpgaNetworkStack.Toe
