import FpgaNetworkStack.Roce.RxExhFsm

/-!
# Headers and connections (`ib_transport_protocol.cpp`, `conn_table.hpp`)

`generate_exh` writes the extended header of a packet and starts the timer of a request, `tx_ipUdpMetaMerger`
looks up the destination in `conn_table`, and `qp_interface` sets up a queue pair.  The byte enables of the
header words are left out.
-/

namespace FpgaNetworkStack.Roce

open IbOpCode
open Toe (NetAxis)

/-! ## Extended headers -/

/-- `RdmaExHeader` with its three fields. -/
def rethHeader (addr : BitVec 64) (rKey length : BitVec 32) : BitVec RETH_SIZE :=
  reverse32 length ++ reverse32 rKey ++
    (reverse32 (addr.extractLsb' 0 32) ++ reverse32 (addr.extractLsb' 32 32))

/-- `AckExHeader`: the number of the message in reverse byte order, over the syndrome. -/
def aethHeader (syndrome : BitVec 8) (msn : BitVec 24) : BitVec AETH_SIZE :=
  msn.extractLsb' 0 8 ++ msn.extractLsb' 8 8 ++ msn.extractLsb' 16 8 ++ syndrome

/-- Word `idx` of a header; bits behind the header are not written. -/
def headerWord (W : Nat) {size : Nat} (header : BitVec size) (idx : Nat) : BitVec W :=
  header.extractLsb' (idx * W) W

/-- Bytes that are left when word `idx` was taken. -/
def remainingLength (W size idx : Nat) : Nat :=
  if (idx + 1) * W ≤ size then (size - (idx + 1) * W) / 8 else 0

/-! ## `generate_exh` -/

structure TxPacketInfo where
  isAETH : Bool
  hasHeader : Bool
  hasPayload : Bool
  deriving DecidableEq

inductive GeFsmState where
  | META | GET_MSN | PROCESS
  deriving DecidableEq, Repr

structure GenerateExh where
  geState : GeFsmState := .META
  metaReg : Event := default
  /-- Words of the RETH that were written. -/
  idx : Nat := 0
  metaWritten : Bool := false
  msnMeta : TxMsnRsp := ⟨0, 0⟩

structure GenerateExhIn where
  metaIn : List Event := []
  msnTable2txExhRsp : List TxMsnRsp := []

structure GenerateExhOut (W : Nat) where
  txExh2msnTableReq : List Qpn := []
  lengthFifo : List (BitVec 16) := []
  packetInfoFifo : List TxPacketInfo := []
  txSetTimerReq : List (BitVec 24) := []
  output : List (NetAxis (BitVec W)) := []

/-- Requests that start the timer; packets of a send do not. -/
def setsTimer : IbOpCode → Bool
  | RC_RDMA_WRITE_ONLY | RC_RDMA_WRITE_FIRST | RC_RDMA_WRITE_MIDDLE | RC_RDMA_WRITE_LAST
  | RC_RDMA_READ_REQUEST => true
  | _ => false

namespace GenerateExh

variable (W : Nat) (s : GenerateExh)

/-- A word of the RETH; the length and the packet info go with the first one. -/
def reth (payloadLen : BitVec 32) (hasPayload : Bool) : GenerateExh × GenerateExhOut W :=
  let header := rethHeader s.metaReg.addr s.msnMeta.rKey s.metaReg.length
  let last := remainingLength W RETH_SIZE s.idx == 0
  ({ s with idx := s.idx + 1, metaWritten := true, geState := if last then .META else .PROCESS },
    { output := [⟨headerWord W header s.idx, last⟩]
      packetInfoFifo := if s.metaWritten then [] else [⟨false, true, hasPayload⟩]
      lengthFifo :=
        if s.metaWritten then [] else [(BitVec.ofNat 32 (12 + 16 + 4) + payloadLen).setWidth 16] })

def aeth (syndrome : BitVec 8) (payloadLen : BitVec 32) (hasPayload : Bool) : GenerateExh × GenerateExhOut W :=
  ({ s with geState := .META },
    { output := [⟨headerWord W (aethHeader syndrome s.msnMeta.msn) 0, true⟩]
      packetInfoFifo := [⟨true, true, hasPayload⟩]
      lengthFifo := [(BitVec.ofNat 32 (12 + 4 + 4) + payloadLen).setWidth 16] })

def raw (isAETH : Bool) : GenerateExh × GenerateExhOut W :=
  ({ s with geState := .META },
    { packetInfoFifo := [⟨isAETH, false, s.metaReg.length != 0⟩]
      lengthFifo := [(BitVec.ofNat 32 (12 + 4) + s.metaReg.length).setWidth 16] })

/-- State `PROCESS`; with an opcode of none of these kinds it is never left. -/
def process : GenerateExh × GenerateExhOut W :=
  match s.metaReg.opCode with
  | RC_RDMA_WRITE_ONLY => s.reth W s.metaReg.length (s.metaReg.length != 0)
  | RC_RDMA_WRITE_FIRST => s.reth W (BitVec.ofNat 32 PMTU) (s.metaReg.length != 0)
  | RC_RDMA_WRITE_MIDDLE | RC_RDMA_WRITE_LAST | RC_SEND_ONLY | RC_SEND_FIRST | RC_SEND_MIDDLE
  | RC_SEND_LAST => s.raw W false
  | RC_RDMA_READ_REQUEST => s.reth W 0 false
  | RC_RDMA_READ_RESP_ONLY | RC_RDMA_READ_RESP_FIRST | RC_RDMA_READ_RESP_LAST =>
    s.aeth W 0 s.metaReg.length (s.metaReg.length != 0)
  | RC_RDMA_READ_RESP_MIDDLE => s.raw W true
  | RC_ACK => s.aeth W (if s.metaReg.isNak then 0x60 else 0) 0 false
  | _ => (s, {})

end GenerateExh

def generateExh (W : Nat) (s : GenerateExh) (i : GenerateExhIn) :
    GenerateExh × GenerateExhIn × GenerateExhOut W :=
  match s.geState, i.metaIn, i.msnTable2txExhRsp with
  | .META, ev :: rest, _ =>
    ({ s with geState := .GET_MSN, metaReg := ev, idx := 0, metaWritten := false }, { i with metaIn := rest },
      { txExh2msnTableReq := [ev.qpn.setWidth 16]
        txSetTimerReq := if setsTimer ev.opCode then [ev.qpn] else [] })
  | .GET_MSN, _, msnMeta :: rest =>
    ({ s with geState := .PROCESS, msnMeta }, { i with msnTable2txExhRsp := rest }, {})
  | .PROCESS, _, _ => ((s.process W).1, i, (s.process W).2)
  | _, _, _ => (s, i, {})

/-! ## Connections -/

structure ConnTableEntry where
  remoteQpn : BitVec 24 := 0
  remoteIpAddress : BitVec 128 := 0
  remoteUdpPort : BitVec 16 := 0
  deriving DecidableEq, Inhabited

structure IfConnReq where
  qpn : Qpn
  remoteQpn : BitVec 24
  remoteIpAddress : BitVec 128
  remoteUdpPort : BitVec 16
  deriving DecidableEq

structure ConnTableIn where
  txIbhconnTableReq : List Qpn := []
  qpi2connTableReq : List IfConnReq := []

def connTable (table : Qpn → ConnTableEntry) (i : ConnTableIn) :
    (Qpn → ConnTableEntry) × ConnTableIn × List ConnTableEntry :=
  match i.txIbhconnTableReq, i.qpi2connTableReq with
  | qpn :: rest, _ => (table, { i with txIbhconnTableReq := rest }, [table qpn])
  | [], r :: rest =>
    (Function.update table r.qpn ⟨r.remoteQpn, r.remoteIpAddress, r.remoteUdpPort⟩,
      { i with qpi2connTableReq := rest }, [])
  | [], [] => (table, i, [])

structure IpUdpMeta where
  theirAddress : BitVec 128
  theirPort : BitVec 16
  myPort : BitVec 16
  length : BitVec 16
  deriving DecidableEq

def RDMA_DEFAULT_PORT : BitVec 16 := 0x12B7

structure IpUdpMergerIn where
  txConnTable2ibhRsp : List ConnTableEntry := []
  txLengthFifo : List (BitVec 16) := []

/-- One call of `tx_ipUdpMetaMerger`: the address of the packet, and its queue pair on the other side. -/
def txIpUdpMetaMerger (i : IpUdpMergerIn) : IpUdpMergerIn × List IpUdpMeta × List (BitVec 24) :=
  match i.txConnTable2ibhRsp, i.txLengthFifo with
  | connMeta :: conns, len :: lens =>
    (⟨conns, lens⟩, [⟨connMeta.remoteIpAddress, RDMA_DEFAULT_PORT, connMeta.remoteUdpPort, len⟩],
      [connMeta.remoteQpn])
  | _, _ => (i, [], [])

/-! ## `qp_interface` -/

structure QpContext where
  qpNum : BitVec 24
  remotePsn : BitVec 24
  localPsn : BitVec 24
  rKey : BitVec 32
  deriving DecidableEq, Inhabited

inductive QpFsmState where
  | GET_STATE | UPD_STATE
  deriving DecidableEq, Repr

structure QpInterface where
  qpFsmState : QpFsmState := .GET_STATE
  context : QpContext := default

structure QpInterfaceIn where
  contextIn : List QpContext := []
  stateTable2qpiRsp : List StateTableEntry := []

structure QpInterfaceOut where
  qpi2stateTableUpdReq : List IfStateReq := []
  if2msnTableInit : List IfMsnReq := []

/-- One call of `qp_interface`; the state of the queue pair is read and not looked at. -/
def qpInterface (s : QpInterface) (i : QpInterfaceIn) : QpInterface × QpInterfaceIn × QpInterfaceOut :=
  match s.qpFsmState, i.contextIn, i.stateTable2qpiRsp with
  | .GET_STATE, context :: rest, _ =>
    (⟨.UPD_STATE, context⟩, { i with contextIn := rest },
      { qpi2stateTableUpdReq := [{ qpn := context.qpNum.setWidth 16, write := false }] })
  | .UPD_STATE, _, _ :: rest =>
    let qpn := s.context.qpNum.setWidth 16
    ({ s with qpFsmState := .GET_STATE }, { i with stateTable2qpiRsp := rest },
      { qpi2stateTableUpdReq := [⟨qpn, s.context.remotePsn, s.context.localPsn, true⟩]
        if2msnTableInit := [⟨qpn, s.context.rKey⟩] })
  | _, _, _ => (s, i, {})

end FpgaNetworkStack.Roce
