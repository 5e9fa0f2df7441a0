import FpgaNetworkStack.Roce.Retransmitter

/-!
# The transmit path of the RoCE stack (`ib_transport_protocol.cpp`)

`local_req_handler` takes the requests of the application and the retransmissions, `meta_merger` merges them
with the acknowledgements and read responses, and `generate_ibh` gives a new request its number.  A request
is stored by the retransmitter once `merge_retrans_request` has joined its number with its addresses.
-/

namespace FpgaNetworkStack.Roce

open IbOpCode

/-! ## Data -/

/-- A packet to be sent; `psn` counts only when `validPsn` is set. -/
structure Event where
  opCode : IbOpCode
  qpn : BitVec 24
  addr : BitVec 64 := 0
  length : BitVec 32 := 0
  psn : BitVec 24 := 0
  validPsn : Bool := false
  isNak : Bool := false
  deriving DecidableEq, Inhabited

def Event.ofAck (a : AckEvent) : Event :=
  { opCode := RC_ACK, qpn := a.qpn, psn := a.psn, validPsn := a.validPsn, isNak := a.isNak }

/-- A request of the application. -/
structure TxMeta where
  opCode : IbOpCode
  qpn : BitVec 10
  host : BitVec 1 := 0
  lst : BitVec 1 := 0
  offs : BitVec 4 := 0
  params : BitVec 192
  deriving DecidableEq, Inhabited

namespace TxMeta

def laddr (m : TxMeta) : BitVec 64 := m.params.extractLsb' 0 64

def raddr (m : TxMeta) : BitVec 64 := m.params.extractLsb' 64 64

def length (m : TxMeta) : BitVec 32 := m.params.extractLsb' 128 32

/-- The event of a new request: its number is not known yet. -/
def event (m : TxMeta) : Event :=
  { opCode := m.opCode, qpn := m.qpn.setWidth 24, addr := m.raddr, length := m.length }

end TxMeta

structure MemCmdInternal where
  opCode : IbOpCode
  qpn : BitVec 16
  addr : BitVec 64
  len : BitVec 32
  host : BitVec 1
  sync : BitVec 1 := 0
  offs : BitVec 4 := 0
  deriving DecidableEq

structure RetransMeta where
  qpn : BitVec 16
  psn : BitVec 24
  opCode : IbOpCode
  deriving DecidableEq

structure RetransAddrLen where
  localAddr : BitVec 64
  remoteAddr : BitVec 64
  length : BitVec 32
  lst : BitVec 1
  offs : BitVec 4
  deriving DecidableEq

def RetransEntry.merge (m : RetransMeta) (a : RetransAddrLen) : RetransEntry :=
  ⟨m.qpn, m.psn, m.opCode, a.localAddr, a.remoteAddr, a.length, a.lst, a.offs⟩

/-! ## `local_req_handler` -/

structure LocalReqIn where
  retransEventFifo : List RetransEvent := []
  sqMeta : List TxMeta := []

structure LocalReqOut where
  tx2retransInsertAddrLen : List RetransAddrLen := []
  txLocalMemCmdFifo : List MemCmdInternal := []
  txLocalTxMeta : List Event := []

/-- Requests that come with data. -/
def sendsData : IbOpCode → Bool
  | RC_RDMA_WRITE_MIDDLE | RC_RDMA_WRITE_FIRST | RC_RDMA_WRITE_LAST | RC_RDMA_WRITE_ONLY
  | RC_SEND_ONLY | RC_SEND_FIRST | RC_SEND_MIDDLE | RC_SEND_LAST => true
  | _ => false

def forwarded (op : IbOpCode) : Bool := op == RC_RDMA_READ_REQUEST || sendsData op

/-- One call of `local_req_handler`; the counter of retransmissions is only reported. -/
def localReqHandler (i : LocalReqIn) : LocalReqIn × LocalReqOut :=
  match i.retransEventFifo, i.sqMeta with
  | rev :: rest, _ =>
    ({ i with retransEventFifo := rest },
      { txLocalTxMeta := [⟨rev.opCode, rev.qpn, rev.remoteAddr, rev.length, rev.psn, true, false⟩]
        txLocalMemCmdFifo :=
          if rev.opCode ≠ RC_RDMA_READ_REQUEST then
            [⟨rev.opCode, rev.qpn.setWidth 16, rev.localAddr, rev.length, 0, 1, rev.offs⟩]
          else [] })
  | [], m :: rest =>
    ({ i with sqMeta := rest },
      { txLocalTxMeta := if forwarded m.opCode then [m.event] else []
        txLocalMemCmdFifo :=
          if sendsData m.opCode then [⟨m.opCode, m.qpn.setWidth 16, m.laddr, m.length, m.host, 0, 0⟩] else []
        -- written for every request, passed on or not
        tx2retransInsertAddrLen := [⟨m.laddr, m.raddr, m.length, m.lst, m.offs⟩] })
  | [], [] => (i, {})

/-! ## `meta_merger` -/

structure MetaMergerIn where
  rxAckEventFifo : List AckEvent := []
  rxReadEvenFifo : List Event := []
  txAppMetaFifo : List Event := []

structure MetaMergerOut where
  txConnTableReq : List (BitVec 16) := []
  txIbhMetaFifo : List IbhMeta := []
  txExhMetaFifo : List Event := []

def Event.numPkg (ev : Event) : BitVec 22 :=
  if ev.opCode = RC_RDMA_READ_REQUEST then numPackets ev.length else 1

def Event.ibhMeta (ev : Event) : IbhMeta := ⟨ev.opCode, 0, ev.qpn, ev.psn, ev.validPsn, 1⟩

/-- An event of the application; a retransmission keeps its number. -/
def Event.appIbhMeta (ev : Event) : IbhMeta :=
  if ev.validPsn then ev.ibhMeta else ⟨ev.opCode, 0, ev.qpn, 0, false, ev.numPkg⟩

def metaMerger (i : MetaMergerIn) : MetaMergerIn × MetaMergerOut :=
  match i.rxAckEventFifo, i.rxReadEvenFifo, i.txAppMetaFifo with
  | aev :: rest, _, _ =>
    ({ i with rxAckEventFifo := rest },
      ⟨[aev.qpn.setWidth 16], [⟨RC_ACK, 0, aev.qpn, aev.psn, aev.validPsn, 1⟩], [.ofAck aev]⟩)
  | [], ev :: rest, _ => ({ i with rxReadEvenFifo := rest }, ⟨[ev.qpn.setWidth 16], [ev.ibhMeta], [ev]⟩)
  | [], [], ev :: rest => ({ i with txAppMetaFifo := rest }, ⟨[ev.qpn.setWidth 16], [ev.appIbhMeta], [ev]⟩)
  | [], [], [] => (i, {})

/-! ## `generate_ibh` -/

inductive IbhGenState where
  | META | GET_PSN
  deriving DecidableEq, Repr

structure BaseTransportHeader where
  opCode : IbOpCode := RC_ACK
  partitionKey : BitVec 16 := 0
  migReq : Bool := false
  psn : BitVec 24 := 0
  dstQP : BitVec 24 := 0
  ackReq : Bool := false
  deriving DecidableEq, Inhabited

structure GenerateIbh where
  giState : IbhGenState := .META
  header : BaseTransportHeader := {}
  metaReg : IbhMeta := default

structure GenerateIbhIn where
  metaIn : List IbhMeta := []
  dstQpIn : List (BitVec 24) := []
  stateTable2txIbhRsp : List StateTableEntry := []

structure GenerateIbhOut where
  txIbh2stateTableUpdReq : List TxStateReq := []
  tx2retransInsertMeta : List RetransMeta := []
  txIbhHeaderFifo : List BaseTransportHeader := []

/-- State `GET_PSN` with the state of the queue pair. -/
def getPsn (s : GenerateIbh) (qpState : StateTableEntry) : GenerateIbh × GenerateIbhOut :=
  if s.metaReg.opCode = RC_ACK then
    let header := { s.header with psn := qpState.respEpsn - 1 }
    ({ s with header, giState := .META }, { txIbhHeaderFifo := [header] })
  else
    let header := { s.header with psn := qpState.reqNextPsn, ackReq := true }
    let qpn := s.metaReg.destQp.setWidth 16
    let nextPsn := qpState.reqNextPsn + s.metaReg.numPkg.setWidth 24
    ({ s with header, giState := .META },
      { txIbh2stateTableUpdReq := [{ qpn, psn := nextPsn, write := true }]
        tx2retransInsertMeta := [⟨qpn, qpState.reqNextPsn, s.metaReg.opCode⟩]
        txIbhHeaderFifo := [header] })

def generateIbh (s : GenerateIbh) (i : GenerateIbhIn) : GenerateIbh × GenerateIbhIn × GenerateIbhOut :=
  match s.giState, i.metaIn, i.dstQpIn, i.stateTable2txIbhRsp with
  | .META, m :: ms, dstQp :: dsts, _ =>
    let metaReg := { m with partitionKey := 0xFFFF }
    let header : BaseTransportHeader :=
      { opCode := m.opCode, partitionKey := 0xFFFF, migReq := true, psn := m.psn, dstQP := dstQp }
    let i := { i with metaIn := ms, dstQpIn := dsts }
    if m.validPSN then ({ s with header, metaReg }, i, { txIbhHeaderFifo := [header] })
    else
      ({ s with header, metaReg, giState := .GET_PSN }, i,
        { txIbh2stateTableUpdReq := [{ qpn := m.destQp.setWidth 16, write := false }] })
  | .GET_PSN, _, _, qpState :: rest =>
    ((getPsn s qpState).1, { i with stateTable2txIbhRsp := rest }, (getPsn s qpState).2)
  | _, _, _, _ => (s, i, {})

/-! ## `merge_retrans_request` -/

def mergeRetransRequest (metas : List RetransMeta) (addrLens : List RetransAddrLen) :
    List RetransMeta × List RetransAddrLen × List RetransEntry :=
  match metas, addrLens with
  | m :: ms, a :: as => (ms, as, [.merge m a])
  | _, _ => (metas, addrLens, [])

end FpgaNetworkStack.Roce
