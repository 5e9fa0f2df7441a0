import FpgaNetworkStack.Toe.Internals

/-!
# The receive engine (`rx_engine.cpp`)

`rxMetadataHandler` looks up the session of a segment, `rxTcpFSM` is the TCP state machine and
`rxPackageDropper` forwards or drops the payload on their verdicts.  Each process is a function from
its static variables and input FIFOs (oldest element first) to the new ones and what it writes; one
application is one call of the HLS function.
-/

namespace FpgaNetworkStack.Toe

open SessionState EventType

variable (b : Build)

/-! ## `rxTcpFSM` -/

inductive FsmStateType where
  | LOAD | TRANSITION
  deriving DecidableEq, Repr

structure RxTcpFsm where
  fsmState : FsmStateType
  fsmMeta : RxFsmMetaData
  fsmTxSarRequest : Bool
  deriving DecidableEq

/-- Static initialisation; `fsm_meta` is uninitialised. -/
def RxTcpFsm.init : RxTcpFsm := ⟨.LOAD, default, false⟩

structure RxTcpFsmIn where
  fsmMetaDataFifo : List RxFsmMetaData
  stateTable2rxEngUpdRsp : List SessionState
  rxSar2rxEngUpdRsp : List (RxSarEntry b)
  txSar2rxEngUpdRsp : List (RxTxSarReply b)

/-- What a call reads besides its FIFOs: the indeterminate value of the local `txSar`, and the fill
counters of the external receive FIFO that the DDR-bypass build looks at. -/
structure RxTcpFsmEnv where
  txSarUninit : RxTxSarReply b
  rxbufferDataCount : BitVec 16
  rxbufferMaxDataCount : BitVec 16

structure RxTcpFsmOut where
  rxEng2stateTableUpdReq : List StateQuery := []
  rxEng2rxSarUpdReq : List RxSarRecvd := []
  rxEng2txSarUpdReq : List (RxTxSarQuery b) := []
  rxEng2timerClearRetransmitTimer : List RxRetransmitTimerUpdate := []
  rxEng2timerClearProbeTimer : List SessionID := []
  rxEng2timerSetCloseTimer : List SessionID := []
  openConStatusOut : List OpenStatus := []
  rxEng2eventEngSetEvent : List (Event b) := []
  dropDataFifoOut : List Bool := []
  rxBufferWriteCmd : List MmCmd := []
  rxEng2rxAppNotification : List AppNotification := []

section Ack

variable (e : RxTcpFsmEnv b) (m : RxFsmMetaData) (rxSar : RxSarEntry b) (txSar : RxTxSarReply b)

def ackState (tcpState : SessionState) : Bool :=
  tcpState == ESTABLISHED || tcpState == SYN_RECEIVED || tcpState == FIN_WAIT_1 ||
    tcpState == CLOSING || tcpState == LAST_ACK

/-- The segment acknowledges nothing new while data is outstanding. -/
def duplicateAck : Bool :=
  m.metaData.ackNumb == txSar.prevAck && txSar.prevAck != txSar.nextByte

/-- Slow start or the flat congestion-avoidance increment. -/
def growCongWindow : BitVec b.windowBits :=
  if (txSar.congWindow.toNat : Int) ≤ txSar.slowstartThreshold.toNat - b.mss.toNat then
    txSar.congWindow + b.mss.setWidth _
  else if txSar.congWindow.toNat ≤ b.congestionWindowMax then
    txSar.congWindow + 365
  else txSar.congWindow

/-- The local `txSar` after the duplicate-ACK test. -/
def ackTxSar : RxTxSarReply b :=
  if duplicateAck b m txSar then
    if m.metaData.length = 0 then { txSar with count := txSar.count + 1 } else txSar
  else
    { txSar with congWindow := growCongWindow b txSar, count := 0, fastRetransmitted := false }

/-- The modular range test on the acknowledgement number, with its hand-written wrap case. -/
def ackInRange : Bool :=
  (decide (txSar.prevAck ≤ m.metaData.ackNumb) && decide (m.metaData.ackNumb ≤ txSar.nextByte)) ||
    ((decide (txSar.prevAck ≤ m.metaData.ackNumb) || decide (m.metaData.ackNumb ≤ txSar.nextByte)) &&
      decide (txSar.nextByte < txSar.prevAck))

def freeSpace : BitVec b.windowBits := (rxSar.appd - rxSar.head.setWidth _) - 1

/-- In order, without a gap, and with room. -/
def inOrder : Bool :=
  !rxSar.gap && m.metaData.seqNumb == rxSar.recvd &&
    decide (m.metaData.length.toNat < (freeSpace b rxSar).toNat)

/-- Ahead of `recvd` (plain 32-bit comparison) and, modulo the buffer, with room. -/
def outOfOrder : Bool :=
  !rxSar.gap && decide (rxSar.recvd < m.metaData.seqNumb) &&
    decide (((m.metaData.seqNumb + m.metaData.length.setWidth 32 - rxSar.head).setWidth
      b.windowBits).toNat < (freeSpace b rxSar).toNat)

/-- A gap exists and the segment continues the premature block. -/
def afterHead : Bool :=
  rxSar.gap && m.metaData.seqNumb == rxSar.head &&
    decide (m.metaData.length.toNat < (freeSpace b rxSar).toNat)

/-- A gap exists and the segment starts at its beginning. -/
def afterRecvd : Bool := rxSar.gap && m.metaData.seqNumb == rxSar.recvd

/-- First byte after the segment, as the 32-bit value that is stored. -/
def segmentEnd : BitVec 32 := m.metaData.seqNumb + m.metaData.length.setWidth 32

/-- The same end as compared with `offset`: a 33-bit sum that does not wrap. -/
def segmentEndWide : Nat := m.metaData.seqNumb.toNat + m.metaData.length.toNat

def writeCmd : MmCmd := .new (pkgAddr b m.sessionID (m.metaData.seqNumb.setWidth _)) m.metaData.length

def notification (length : BitVec 16) (closed : Bool) : AppNotification :=
  ⟨m.sessionID, length, m.srcIpAddress, m.dstIpPort, closed⟩

/-- An accepted payload: table update, write command, notification, verdict "keep". -/
def keepPayload (recvd head offset : BitVec 32) (gap : Bool) (notified : BitVec 16) :
    RxTcpFsmOut b :=
  { rxEng2rxSarUpdReq := [.update m.sessionID recvd head offset gap]
    rxBufferWriteCmd := [writeCmd b m]
    rxEng2rxAppNotification := [notification m notified false]
    dropDataFifoOut := [false] }

/-- Payload handling with out-of-order reassembly (`!RX_DDR_BYPASS`). -/
def ackPayloadDdr : RxTcpFsmOut b :=
  if inOrder b m rxSar then
    keepPayload b m (segmentEnd m) (segmentEnd m) rxSar.offset rxSar.gap m.metaData.length
  else if outOfOrder b m rxSar then
    keepPayload b m rxSar.recvd (segmentEnd m) m.metaData.seqNumb true 0
  else if afterHead b m rxSar then
    keepPayload b m rxSar.recvd (segmentEnd m) rxSar.offset rxSar.gap 0
  else if afterRecvd b m rxSar then
    if segmentEndWide m = rxSar.offset.toNat then
      keepPayload b m rxSar.head rxSar.head rxSar.offset false
        (((rxSar.head - m.metaData.seqNumb).setWidth b.windowBits).setWidth 16)
    else if segmentEndWide m < rxSar.offset.toNat then
      keepPayload b m (segmentEnd m) rxSar.head rxSar.offset rxSar.gap m.metaData.length
    else {} -- past the gap: no branch of the source is taken
  else { dropDataFifoOut := [true] }

/-- In order, with more than 375 free words in the external FIFO. -/
def inOrderBypass : Bool :=
  m.metaData.seqNumb == rxSar.recvd &&
    decide ((375 : Int) < e.rxbufferMaxDataCount.toNat - e.rxbufferDataCount.toNat)

/-- Payload handling without reassembly (`RX_DDR_BYPASS`); there is no write command. -/
def ackPayloadBypass : RxTcpFsmOut b :=
  if inOrderBypass b e m rxSar then
    { keepPayload b m (segmentEnd m) (segmentEnd m) rxSar.offset rxSar.gap m.metaData.length with
      rxBufferWriteCmd := [] }
  else { dropDataFifoOut := [true] }

def ackPayload : RxTcpFsmOut b :=
  if m.metaData.length = 0 then {}
  else if b.rxDdrBypass then ackPayloadBypass b e m rxSar
  else ackPayloadDdr b m rxSar

/-- The event raised by a processed ACK segment; `txSar` is the updated local. -/
def ackEvent : List (Event b) :=
  if b.fastRetransmit && txSar.count == 3 && !txSar.fastRetransmitted then
    [{ type := RT, sessionID := m.sessionID }]
  else if m.metaData.length = 0 then []
  else if (if b.rxDdrBypass then inOrderBypass b e m rxSar else inOrder b m rxSar) then
    [{ type := ACK, sessionID := m.sessionID }]
  else [{ type := ACK_NODELAY, sessionID := m.sessionID }]

/-- The state written back, and the sessions whose close timer is started. -/
def ackNextState (tcpState : SessionState) : SessionState × List SessionID :=
  if m.metaData.ackNumb = txSar.nextByte then
    match tcpState with
    | SYN_RECEIVED => (ESTABLISHED, [])
    | CLOSING => (TIME_WAIT, [m.sessionID])
    | LAST_ACK => (CLOSED, [])
    | s => (s, [])
  else (tcpState, [])

def ackTxSarUpdate : RxTxSarQuery b :=
  { sessionID := m.sessionID, ackd := m.metaData.ackNumb, recvWindow := m.metaData.winSize,
    congWindow := txSar.congWindow, count := txSar.count,
    fastRetransmitted := txSar.count == 3 || txSar.fastRetransmitted, write := true, init := false }

def transitionAck (tcpState : SessionState) : RxTcpFsmOut b :=
  let clear : List RxRetransmitTimerUpdate :=
    [⟨m.sessionID, m.metaData.ackNumb == txSar.nextByte⟩]
  if ackState tcpState then
    let txSar' := ackTxSar b m txSar
    let next := ackNextState b m txSar' tcpState
    { ackPayload b e m rxSar with
      rxEng2timerClearRetransmitTimer := clear
      rxEng2timerClearProbeTimer := if duplicateAck b m txSar then [] else [m.sessionID]
      rxEng2txSarUpdReq := if ackInRange b m txSar' then [ackTxSarUpdate b m txSar'] else []
      rxEng2eventEngSetEvent := ackEvent b e m rxSar txSar'
      rxEng2stateTableUpdReq := [.update m.sessionID next.1]
      rxEng2timerSetCloseTimer := next.2 }
  else
    { rxEng2timerClearRetransmitTimer := clear
      rxEng2eventEngSetEvent := [Event.rst b m.sessionID (segmentEnd m) true]
      dropDataFifoOut := if m.metaData.length = 0 then [] else [true]
      rxEng2stateTableUpdReq := [.update m.sessionID tcpState] }

end Ack

section Other

variable (m : RxFsmMetaData) (rxSar : RxSarEntry b) (txSar : RxTxSarReply b)
  (tcpState : SessionState)

/-- The two table initialisations of an accepted SYN or SYN-ACK; only the `WINDOW_SCALE` build
passes a window shift, and only there the tx_sar query is marked `init`. -/
def synInit (ackd : BitVec 32) : RxTcpFsmOut b :=
  let rxWinShift : BitVec 4 :=
    if b.windowScale then (if m.metaData.winScale = 0 then 0 else BitVec.ofNat 4 Build.windowScaleBits)
    else 1
  { rxEng2rxSarUpdReq :=
      [.initialise m.sessionID (m.metaData.seqNumb + 1) (m.metaData.seqNumb + 1) 0 false rxWinShift]
    rxEng2txSarUpdReq :=
      [{ sessionID := m.sessionID, ackd, recvWindow := m.metaData.winSize,
         congWindow := txSar.congWindow, count := 0, fastRetransmitted := false,
         winShift := if b.windowScale then m.metaData.winScale else 0,
         write := true, init := b.windowScale }] }

/-- Control bits `SYN`; `txSar` is the uninitialised local. -/
def transitionSyn : RxTcpFsmOut b :=
  if tcpState == CLOSED || tcpState == SYN_SENT then
    { synInit b m txSar 0 with
      rxEng2eventEngSetEvent := [{ type := SYN_ACK, sessionID := m.sessionID }]
      rxEng2stateTableUpdReq := [.update m.sessionID SYN_RECEIVED] }
  else if tcpState == SYN_RECEIVED then
    if m.metaData.seqNumb.toNat + 1 = rxSar.recvd.toNat then
      { rxEng2eventEngSetEvent := [{ type := SYN_ACK, sessionID := m.sessionID, rtCount := 1 }]
        rxEng2stateTableUpdReq := [.update m.sessionID tcpState] }
    else
      { rxEng2eventEngSetEvent := [Event.rst b m.sessionID (m.metaData.seqNumb + 1) true]
        rxEng2stateTableUpdReq := [.update m.sessionID CLOSED] }
  else
    { rxEng2eventEngSetEvent := [{ type := ACK_NODELAY, sessionID := m.sessionID }]
      rxEng2stateTableUpdReq := [.update m.sessionID tcpState] }

def transitionSynAck : RxTcpFsmOut b :=
  let clear : List RxRetransmitTimerUpdate :=
    [⟨m.sessionID, m.metaData.ackNumb == txSar.nextByte⟩]
  if tcpState == SYN_SENT && m.metaData.ackNumb == txSar.nextByte then
    { synInit b m txSar m.metaData.ackNumb with
      rxEng2timerClearRetransmitTimer := clear
      rxEng2eventEngSetEvent := [{ type := ACK_NODELAY, sessionID := m.sessionID }]
      rxEng2stateTableUpdReq := [.update m.sessionID ESTABLISHED]
      openConStatusOut := [⟨m.sessionID, true, m.srcIpAddress, m.srcIpPort⟩] }
  else if tcpState == SYN_SENT then
    { rxEng2timerClearRetransmitTimer := clear
      rxEng2eventEngSetEvent := [Event.rst b m.sessionID (segmentEnd m + 1) true]
      rxEng2stateTableUpdReq := [.update m.sessionID CLOSED] }
  else
    { rxEng2timerClearRetransmitTimer := clear
      rxEng2eventEngSetEvent := [{ type := ACK_NODELAY, sessionID := m.sessionID }]
      rxEng2stateTableUpdReq := [.update m.sessionID tcpState] }

/-- A FIN is taken in these states when it is in order. -/
def finAccepted : Bool :=
  (tcpState == ESTABLISHED || tcpState == FIN_WAIT_1 || tcpState == FIN_WAIT_2) &&
    rxSar.recvd == m.metaData.seqNumb

/-- Payload and close notification of an accepted FIN. -/
def finPayload : RxTcpFsmOut b :=
  if m.metaData.length ≠ 0 then
    { rxBufferWriteCmd := if b.rxDdrBypass then [] else [writeCmd b m]
      rxEng2rxAppNotification := [notification m m.metaData.length true]
      dropDataFifoOut := [false] }
  else if tcpState == ESTABLISHED then
    { rxEng2rxAppNotification := [notification m 0 true] }
  else {}

/-- State update, close timer and event of an accepted FIN. -/
def finNext : SessionState × List SessionID × Event b :=
  if tcpState == ESTABLISHED then (LAST_ACK, [], { type := FIN, sessionID := m.sessionID })
  else if m.metaData.ackNumb = txSar.nextByte then
    (TIME_WAIT, [m.sessionID], { type := ACK, sessionID := m.sessionID })
  else (CLOSING, [], { type := ACK, sessionID := m.sessionID })

def transitionFin : RxTcpFsmOut b :=
  let clear : List RxRetransmitTimerUpdate :=
    [⟨m.sessionID, m.metaData.ackNumb == txSar.nextByte⟩]
  if finAccepted b m rxSar tcpState then
    let next := finNext b m txSar tcpState
    { finPayload b m tcpState with
      rxEng2timerClearRetransmitTimer := clear
      rxEng2txSarUpdReq :=
        [{ sessionID := m.sessionID, ackd := m.metaData.ackNumb, recvWindow := m.metaData.winSize,
           congWindow := txSar.congWindow, count := txSar.count,
           fastRetransmitted := txSar.fastRetransmitted, write := true, init := false }]
      rxEng2rxSarUpdReq :=
        [.update m.sessionID (segmentEnd m + 1) (segmentEnd m + 1) rxSar.offset rxSar.gap]
      rxEng2timerClearProbeTimer := [m.sessionID]
      rxEng2stateTableUpdReq := [.update m.sessionID next.1]
      rxEng2timerSetCloseTimer := next.2.1
      rxEng2eventEngSetEvent := [next.2.2] }
  else
    { rxEng2timerClearRetransmitTimer := clear
      rxEng2eventEngSetEvent := [{ type := ACK, sessionID := m.sessionID }]
      rxEng2stateTableUpdReq := [.update m.sessionID tcpState]
      dropDataFifoOut := if m.metaData.length = 0 then [] else [true] }

/-- Every other combination of control bits. -/
def transitionOther : RxTcpFsmOut b :=
  if m.metaData.rst then
    if tcpState == SYN_SENT then
      if m.metaData.ackNumb = txSar.nextByte then
        { openConStatusOut := [⟨m.sessionID, false, m.srcIpAddress, m.srcIpPort⟩]
          rxEng2stateTableUpdReq := [.update m.sessionID CLOSED]
          rxEng2timerClearRetransmitTimer := [⟨m.sessionID, true⟩] }
      else { rxEng2stateTableUpdReq := [.update m.sessionID tcpState] }
    else if m.metaData.seqNumb = rxSar.recvd then
      { rxEng2rxAppNotification := [notification m 0 true]
        rxEng2stateTableUpdReq := [.update m.sessionID CLOSED]
        rxEng2timerClearRetransmitTimer := [⟨m.sessionID, true⟩] }
    else { rxEng2stateTableUpdReq := [.update m.sessionID tcpState] }
  else { rxEng2stateTableUpdReq := [.update m.sessionID tcpState] }

end Other

/-- `control_bits`, sorted into the cases of the switch. -/
inductive ControlBits where
  | ack | syn | synAck | fin | other
  deriving DecidableEq, Repr

def controlBits (m : RxEngineMetaData) : ControlBits :=
  match m.rst, m.fin, m.syn, m.ack with
  | false, false, false, true => .ack
  | false, false, true, false => .syn
  | false, false, true, true => .synAck
  | false, true, false, true => .fin
  | _, _, _, _ => .other

/-- The inner state machine: what one loaded segment causes, given the replies of the tables. -/
def transition (e : RxTcpFsmEnv b) (m : RxFsmMetaData) (tcpState : SessionState)
    (rxSar : RxSarEntry b) (txSar : RxTxSarReply b) : RxTcpFsmOut b :=
  match controlBits m.metaData with
  | .ack => transitionAck b e m rxSar txSar tcpState
  | .syn => transitionSyn b m rxSar txSar tcpState
  | .synAck => transitionSynAck b m txSar tcpState
  | .fin => transitionFin b m rxSar txSar tcpState
  | .other => transitionOther b m rxSar txSar tcpState

def loadRequests (m : RxFsmMetaData) : RxTcpFsmOut b :=
  { rxEng2stateTableUpdReq := [.read m.sessionID]
    rxEng2rxSarUpdReq := [.read m.sessionID]
    rxEng2txSarUpdReq := if m.metaData.ack then [.read b m.sessionID] else [] }

/-- The tx_sar reply a transition works on and what stays in the FIFO: the SYN case never reads it,
the cases with ACK read it, and the default case reads it without blocking. -/
def takeTxSar (e : RxTcpFsmEnv b) (m : RxEngineMetaData) (rsp : List (RxTxSarReply b)) :
    RxTxSarReply b × List (RxTxSarReply b) :=
  match controlBits m, rsp with
  | .syn, _ => (e.txSarUninit, rsp)
  | _, [] => (e.txSarUninit, [])
  | _, r :: rest => (r, rest)

def rxTcpFSM (e : RxTcpFsmEnv b) (s : RxTcpFsm) (i : RxTcpFsmIn b) :
    RxTcpFsm × RxTcpFsmIn b × RxTcpFsmOut b :=
  match s.fsmState with
  | .LOAD =>
    match i.fsmMetaDataFifo with
    | [] => (s, i, {})
    | m :: rest =>
      (⟨.TRANSITION, m, s.fsmTxSarRequest || m.metaData.ack⟩, { i with fsmMetaDataFifo := rest },
        loadRequests b m)
  | .TRANSITION =>
    match i.stateTable2rxEngUpdRsp, i.rxSar2rxEngUpdRsp,
        s.fsmTxSarRequest && i.txSar2rxEngUpdRsp.isEmpty with
    | tcpState :: states, rxSar :: entries, false =>
      let (txSar, replies) := takeTxSar b e s.fsmMeta.metaData i.txSar2rxEngUpdRsp
      (⟨.LOAD, s.fsmMeta, false⟩,
        { i with stateTable2rxEngUpdRsp := states, rxSar2rxEngUpdRsp := entries,
                 txSar2rxEngUpdRsp := replies },
        transition b e s.fsmMeta tcpState rxSar txSar)
    | _, _, _ => (s, i, {})

/-! ## `rxMetadataHandler` -/

inductive MhStateType where
  | META | LOOKUP
  deriving DecidableEq, Repr

structure RxMetadataHandler where
  mhMeta : RxEngineMetaData
  mhState : MhStateType
  mhSrcIpAddress : BitVec 32
  mhDstIpPort : BitVec 16
  mhSrcIpPort : BitVec 16
  deriving DecidableEq

def RxMetadataHandler.init : RxMetadataHandler := ⟨default, .META, 0, 0, 0⟩

structure RxMetadataHandlerIn where
  metaDataFifoIn : List RxEngineMetaData
  sLookup2rxEngRsp : List SessionLookupReply
  portTable2rxEngRsp : List Bool
  tupleBufferIn : List FourTuple

structure RxMetadataHandlerOut where
  rxEng2sLookupReq : List SessionLookupQuery := []
  rxEng2eventEngSetEvent : List (ExtendedEvent b) := []
  dropDataFifoOut : List Bool := []
  fsmMetaDataFifo : List RxFsmMetaData := []

/-- The reset sent for a segment to a closed port, with source and destination switched. -/
def closedPortReset (m : RxEngineMetaData) (tuple : FourTuple) : List (ExtendedEvent b) :=
  if m.rst then []
  else
    let seq := m.seqNumb + m.length.setWidth 32 + (if m.syn || m.fin then 1 else 0)
    [{ Event.rst b 0 seq false with
       tuple := ⟨tuple.dstIp, tuple.srcIp, tuple.dstPort, tuple.srcPort⟩ }]

def rxMetadataHandler (s : RxMetadataHandler) (i : RxMetadataHandlerIn) :
    RxMetadataHandler × RxMetadataHandlerIn × RxMetadataHandlerOut b :=
  match s.mhState with
  | .META =>
    match i.metaDataFifoIn, i.portTable2rxEngRsp, i.tupleBufferIn with
    | m :: metas, portIsOpen :: ports, tuple :: tuples =>
      let i' := { i with metaDataFifoIn := metas, portTable2rxEngRsp := ports,
                         tupleBufferIn := tuples }
      let s' : RxMetadataHandler :=
        ⟨m, .META, reverse32 tuple.srcIp, reverse16 tuple.dstPort, reverse16 tuple.srcPort⟩
      if portIsOpen then
        ({ s' with mhState := .LOOKUP }, i',
          { rxEng2sLookupReq := [⟨tuple, m.syn && !m.rst && !m.fin⟩] })
      else
        (s', i',
          { rxEng2eventEngSetEvent := closedPortReset b m tuple
            dropDataFifoOut := if m.length = 0 then [] else [true] })
    | _, _, _ => (s, i, {})
  | .LOOKUP =>
    match i.sLookup2rxEngRsp with
    | [] => (s, i, {})
    | lup :: rest =>
      ({ s with mhState := .META }, { i with sLookup2rxEngRsp := rest },
        { fsmMetaDataFifo :=
            if lup.hit then
              [⟨lup.sessionID, s.mhSrcIpAddress, s.mhDstIpPort, s.mhMeta, s.mhSrcIpPort⟩]
            else []
          dropDataFifoOut := if s.mhMeta.length = 0 then [] else [!lup.hit] })

/-! ## `rxPackageDropper` -/

/-- `net_axis`: one word of an AXI stream, `last` on the final word of a packet. -/
structure NetAxis (α : Type) where
  data : α
  last : Bool
  deriving DecidableEq

inductive TpfStateType where
  | READ_DROP1 | READ_DROP2 | FWD | DROP
  deriving DecidableEq, Repr

structure RxPackageDropperIn (α : Type) where
  dataIn : List (NetAxis α)
  dropFifoIn1 : List Bool
  dropFifoIn2 : List Bool

/-- One call of `rxPackageDropper`: new state, remaining inputs, words forwarded. -/
def rxPackageDropper {α : Type} (s : TpfStateType) (i : RxPackageDropperIn α) :
    TpfStateType × RxPackageDropperIn α × List (NetAxis α) :=
  match s with
  | .READ_DROP1 =>
    match i.dropFifoIn1 with
    | [] => (s, i, [])
    | drop :: rest => (if drop then .DROP else .READ_DROP2, { i with dropFifoIn1 := rest }, [])
  | .READ_DROP2 =>
    match i.dropFifoIn2 with
    | [] => (s, i, [])
    | drop :: rest => (if drop then .DROP else .FWD, { i with dropFifoIn2 := rest }, [])
  | .FWD =>
    match i.dataIn with
    | [] => (s, i, [])
    | w :: rest => (if w.last then .READ_DROP1 else .FWD, { i with dataIn := rest }, [w])
  | .DROP =>
    match i.dataIn with
    | [] => (s, i, [])
    | w :: rest => (if w.last then .READ_DROP1 else .DROP, { i with dataIn := rest }, [])

end FpgaNetworkStack.Toe
