import FpgaNetworkStack.Roce.ReadRequests

/-!
# What an accepted packet does (`ib_transport_protocol.cpp`, `msn_table.hpp`)

`ipUdpMetaHandler` passes the extended header and the UDP length of a packet on when `rx_ibh_fsm` has accepted
it, and `rx_exh_fsm` joins them with the base header and the entry of `msn_table`: it writes the payload to
memory, answers, and hands over read requests and negative acknowledgements.
-/

namespace FpgaNetworkStack.Roce

open IbOpCode

/-! ## `msn_table` -/

/-- `dmaState`, an entry of the table. -/
structure DmaState where
  msn : BitVec 24 := 0
  vaddr : BitVec 64 := 0
  dmaLength : BitVec 32 := 0
  rKey : BitVec 32 := 0
  lst : BitVec 1 := 0
  deriving DecidableEq, Inhabited

structure RxMsnReq where
  qpn : Qpn
  msn : BitVec 24 := 0
  vaddr : BitVec 64 := 0
  dmaLength : BitVec 32 := 0
  lst : BitVec 1 := 0
  write : Bool
  deriving DecidableEq

namespace RxMsnReq

def read (qpn : BitVec 24) : RxMsnReq := { qpn := qpn.setWidth 16, write := false }

/-- `rxMsnReq(qpn, msn)`: the address goes to zero. -/
def count (qpn : BitVec 24) (msn : BitVec 24) : RxMsnReq := { qpn := qpn.setWidth 16, msn, write := true }

def store (qpn : BitVec 24) (msn : BitVec 24) (vaddr : BitVec 64) (len : BitVec 32) (lst : BitVec 1) :
    RxMsnReq :=
  { qpn := qpn.setWidth 16, msn, vaddr, dmaLength := len, lst, write := true }

end RxMsnReq

structure IfMsnReq where
  qpn : Qpn
  rKey : BitVec 32
  deriving DecidableEq

structure TxMsnRsp where
  msn : BitVec 24
  rKey : BitVec 32
  deriving DecidableEq

structure MsnTableIn where
  rxExh2msnTableUpdReq : List RxMsnReq := []
  txExh2msnTableReq : List Qpn := []
  if2msnTableInit : List IfMsnReq := []

structure MsnTableOut where
  msnTable2rxExhRsp : List DmaState := []
  msnTable2txExhRsp : List TxMsnRsp := []

/-- An update by the receive path; the key stays. -/
def DmaState.update (e : DmaState) (r : RxMsnReq) : DmaState :=
  { e with msn := r.msn, vaddr := r.vaddr, dmaLength := r.dmaLength, lst := r.lst }

/-- One call of `msn_table`: the receive path goes first, then the transmit path, then connections. -/
def msnTable (table : Qpn → DmaState) (i : MsnTableIn) : (Qpn → DmaState) × MsnTableIn × MsnTableOut :=
  match i.rxExh2msnTableUpdReq, i.txExh2msnTableReq, i.if2msnTableInit with
  | r :: rest, _, _ =>
    if r.write then
      (Function.update table r.qpn ((table r.qpn).update r), { i with rxExh2msnTableUpdReq := rest }, {})
    else
      (table, { i with rxExh2msnTableUpdReq := rest }, { msnTable2rxExhRsp := [table r.qpn] })
  | [], qpn :: rest, _ =>
    (table, { i with txExh2msnTableReq := rest },
      { msnTable2txExhRsp := [⟨(table qpn).msn, (table qpn).rKey⟩] })
  | [], [], r :: rest =>
    (Function.update table r.qpn { rKey := r.rKey }, { i with if2msnTableInit := rest }, {})
  | [], [], [] => (table, i, {})

/-! ## `ipUdpMetaHandler` -/

structure IpUdpMetaIn where
  /-- The lengths of the UDP meta data; the addresses and ports are not used. -/
  input : List (BitVec 16) := []
  exHeaderInput : List (BitVec RETH_SIZE) := []
  dropMetaIn : List FwdPolicy := []

structure IpUdpMetaOut where
  exhLengthFifo : List (BitVec 16) := []
  exHeaderOutput : List (BitVec RETH_SIZE) := []

def ipUdpMetaHandler (i : IpUdpMetaIn) : IpUdpMetaIn × IpUdpMetaOut :=
  match i.input, i.exHeaderInput, i.dropMetaIn with
  | length :: lengths, header :: headers, policy :: policies =>
    (⟨lengths, headers, policies⟩,
      if policy.isDrop || policy.ackOnly then {} else ⟨[length], [header]⟩)
  | _, _, _ => (i, {})

/-! ## `rx_exh_fsm` -/

/-- `memCmd`, a command to the memory outside. -/
structure MemCmd where
  addr : BitVec 48
  len : BitVec 28
  ctl : BitVec 1
  strm : BitVec 1
  sync : BitVec 1
  host : BitVec 1
  tdst : BitVec 4
  pid : BitVec 6
  vfid : BitVec 4
  deriving DecidableEq

/-- `memCmd(addr, len, ctl, host, qpn)`: the upper bits of the address select the target. -/
def MemCmd.new (addr : BitVec 64) (len : BitVec 32) (ctl host : BitVec 1) (qpn : BitVec 24) : MemCmd :=
  { addr := addr.setWidth 48, len := len.setWidth 28, ctl, strm := addr.extractLsb' 52 1, sync := 0, host
    tdst := addr.extractLsb' 48 4, pid := qpn.extractLsb' 0 6, vfid := qpn.extractLsb' 6 4 }

def PKG_NF : BitVec 1 := 0
def PKG_F : BitVec 1 := 1
def PKG_INT : BitVec 1 := 0
def PKG_HOST : BitVec 1 := 1

inductive PkgShiftType where
  | SHIFT_AETH | SHIFT_RETH | SHIFT_NONE
  deriving DecidableEq, Repr

structure PkgShift where
  type : PkgShiftType
  qpn : BitVec 24
  deriving DecidableEq

inductive PeFsmState where
  | META | DMA_META | DATA
  deriving DecidableEq, Repr

structure RxExhFsm where
  peFsmState : PeFsmState := .META
  metaReg : IbhMeta := default
  exHeader : BitVec RETH_SIZE := 0
  dmaMeta : DmaState := {}
  udpLength : BitVec 16 := 0
  consumeReadInit : Bool := false
  readReqInit : RetransRdInit := ⟨0, 0⟩

structure RxExhFsmIn where
  metaIn : List IbhMeta := []
  udpLengthFifo : List (BitVec 16) := []
  msnTable2rxExhRsp : List DmaState := []
  retrans2rxInit : List RetransRdInit := []
  headerInput : List (BitVec RETH_SIZE) := []

structure RxExhFsmOut where
  rx2retransReq : List Retransmission := []
  memoryWriteCmd : List MemCmd := []
  readRequestFifo : List ReadRequest := []
  rxExh2msnTableUpdReq : List RxMsnReq := []
  rxExhEventMetaFifo : List AckEvent := []
  rxPkgSplitTypeFifo : List IbOpCode := []
  rxPkgShiftTypeFifo : List PkgShift := []

def getVirtualAddress (header : BitVec 128) : BitVec 64 :=
  reverse32 (header.extractLsb' 0 32) ++ reverse32 (header.extractLsb' 32 32)

namespace RxExhFsm

variable (s : RxExhFsm)

/-- The UDP length without `headers` bytes, as an `ap_uint<32>`. -/
def payLoadLength (headers : Nat) : BitVec 32 := s.udpLength.setWidth 32 - BitVec.ofNat 32 headers

/-- `ackEvent(qpn, psn, false)` for the packet. -/
def ack : List AckEvent := [⟨s.metaReg.destQp, s.metaReg.psn, true, false⟩]

def noHeader : Nat := 8 + 12 + 4

def aethHeader : Nat := 8 + 12 + 4 + 4

def rethHeader : Nat := 8 + 12 + 16 + 4

def send (ctl : BitVec 1) : RxExhFsmOut :=
  { memoryWriteCmd := [.new 0 (s.payLoadLength noHeader) ctl PKG_INT s.metaReg.destQp]
    rxExh2msnTableUpdReq := [.count s.metaReg.destQp (s.dmaMeta.msn + 1)]
    rxExhEventMetaFifo := s.ack
    rxPkgSplitTypeFifo := [s.metaReg.opCode]
    rxPkgShiftTypeFifo := [⟨.SHIFT_NONE, s.metaReg.destQp⟩] }

/-- A packet of a write, from address `vaddr` on. -/
def rdmaWrite (vaddr : BitVec 64) (total : BitVec 32) (headers : Nat) (ctl : BitVec 1)
    (type : PkgShiftType) : RxExhFsmOut :=
  let payLoadLength := s.payLoadLength headers
  { memoryWriteCmd := [.new vaddr payLoadLength ctl PKG_HOST s.metaReg.destQp]
    rxExh2msnTableUpdReq :=
      [.store s.metaReg.destQp (s.dmaMeta.msn + 1) (vaddr + payLoadLength.setWidth 64)
        (total - payLoadLength) 1]
    rxExhEventMetaFifo := s.ack
    rxPkgSplitTypeFifo := [s.metaReg.opCode]
    rxPkgShiftTypeFifo := [⟨type, s.metaReg.destQp⟩] }

/-- The first packet of a write; one without a length is never finished. -/
def rdmaWriteFirst (ctl : BitVec 1) : Option RxExhFsmOut :=
  if getLength s.exHeader ≠ 0 then
    some (s.rdmaWrite (getVirtualAddress s.exHeader) (getLength s.exHeader) rethHeader ctl .SHIFT_RETH)
  else none

def rdmaWriteNext (ctl : BitVec 1) : RxExhFsmOut :=
  s.rdmaWrite s.dmaMeta.vaddr s.dmaMeta.dmaLength noHeader ctl .SHIFT_NONE

def readRequest : RxExhFsmOut :=
  if getLength s.exHeader ≠ 0 then
    { readRequestFifo :=
        [{ qpn := s.metaReg.destQp, vaddr := getVirtualAddress s.exHeader
           dmaLength := getLength s.exHeader, psn := s.metaReg.psn }]
      rxExh2msnTableUpdReq := [.count s.metaReg.destQp (s.dmaMeta.msn + 1)] }
  else {}

/-- The retransmission that a negative AETH asks for. -/
def nak : List Retransmission :=
  if isNAK (s.exHeader.setWidth AETH_SIZE) then [⟨s.metaReg.destQp.setWidth 16, s.metaReg.psn⟩] else []

/-- A packet of a response that is stored from `vaddr` on. -/
def readResp (vaddr : BitVec 64) (headers : Nat) (ctl lst : BitVec 1) (type : PkgShiftType) :
    RxExhFsmOut :=
  let payLoadLength := s.payLoadLength headers
  { memoryWriteCmd := [.new vaddr payLoadLength ctl PKG_HOST s.metaReg.destQp]
    rxExh2msnTableUpdReq :=
      [.store s.metaReg.destQp s.dmaMeta.msn (vaddr + payLoadLength.setWidth 64) payLoadLength lst]
    rxPkgSplitTypeFifo := [s.metaReg.opCode]
    rxPkgShiftTypeFifo := [⟨type, s.metaReg.destQp⟩] }

/-- State `DATA`: the writes of the packet, or `none` when no branch is taken and the state stays. -/
def data : Option RxExhFsmOut :=
  match s.metaReg.opCode with
  | RC_SEND_ONLY | RC_SEND_LAST => some (s.send PKG_F)
  | RC_SEND_FIRST | RC_SEND_MIDDLE => some (s.send PKG_NF)
  | RC_RDMA_WRITE_ONLY => s.rdmaWriteFirst PKG_F
  | RC_RDMA_WRITE_FIRST => s.rdmaWriteFirst PKG_NF
  | RC_RDMA_WRITE_LAST => some (s.rdmaWriteNext PKG_F)
  | RC_RDMA_WRITE_MIDDLE => some (s.rdmaWriteNext PKG_NF)
  | RC_RDMA_READ_REQUEST => some s.readRequest
  | RC_RDMA_READ_RESP_FIRST =>
    some { s.readResp s.readReqInit.laddr aethHeader PKG_NF s.readReqInit.lst .SHIFT_AETH with
      rx2retransReq := s.nak }
  | RC_RDMA_READ_RESP_ONLY =>
    some { s.readResp s.readReqInit.laddr aethHeader s.readReqInit.lst s.readReqInit.lst .SHIFT_AETH with
      rx2retransReq := s.nak }
  | RC_RDMA_READ_RESP_LAST =>
    -- the table is left as it is
    some { s.readResp s.dmaMeta.vaddr aethHeader s.dmaMeta.lst s.dmaMeta.lst .SHIFT_AETH with
      rx2retransReq := s.nak, rxExh2msnTableUpdReq := [] }
  | RC_RDMA_READ_RESP_MIDDLE =>
    some (s.readResp s.dmaMeta.vaddr noHeader PKG_NF s.dmaMeta.lst .SHIFT_NONE)
  | RC_ACK => some { rx2retransReq := s.nak }
  | _ => none

variable {s}

/-- A packet never reads the table in state `DATA`. -/
theorem data_writes {out : RxExhFsmOut} (h : s.data = some out) :
    ∀ q ∈ out.rxExh2msnTableUpdReq, q.write = true := by
  have hrequest : ∀ q ∈ s.readRequest.rxExh2msnTableUpdReq, q.write = true := by
    unfold readRequest
    split <;> simp [RxMsnReq.count]
  unfold data rdmaWriteFirst at h
  split at h <;> (try split at h) <;> cases h <;>
    first
    | exact hrequest
    | simp [send, rdmaWrite, rdmaWriteNext, readResp, RxMsnReq.count, RxMsnReq.store]

end RxExhFsm

/-- The packet takes its address from the retransmitter. -/
def startsReadResp (op : IbOpCode) : Bool := op == RC_RDMA_READ_RESP_ONLY || op == RC_RDMA_READ_RESP_FIRST

def rxExhFsm (s : RxExhFsm) (i : RxExhFsmIn) : RxExhFsm × RxExhFsmIn × RxExhFsmOut :=
  match s.peFsmState with
  | .META =>
    match i.metaIn, i.headerInput with
    | m :: ms, header :: headers =>
      ({ s with
          peFsmState := .DMA_META, metaReg := m, exHeader := header
          consumeReadInit := startsReadResp m.opCode },
        { i with metaIn := ms, headerInput := headers },
        { rxExh2msnTableUpdReq := [.read m.destQp] })
    | _, _ => (s, i, {})
  | .DMA_META =>
    match i.msnTable2rxExhRsp, i.udpLengthFifo, s.consumeReadInit, i.retrans2rxInit with
    | dmaMeta :: rsps, udpLength :: lengths, true, readReqInit :: inits =>
      ({ s with peFsmState := .DATA, dmaMeta, udpLength, readReqInit },
        { i with msnTable2rxExhRsp := rsps, udpLengthFifo := lengths, retrans2rxInit := inits }, {})
    | dmaMeta :: rsps, udpLength :: lengths, false, _ =>
      ({ s with peFsmState := .DATA, dmaMeta, udpLength },
        { i with msnTable2rxExhRsp := rsps, udpLengthFifo := lengths }, {})
    | _, _, _, _ => (s, i, {})
  | .DATA =>
    match s.data with
    | some out => ({ s with peFsmState := .META }, i, out)
    | none => (s, i, {})

end FpgaNetworkStack.Roce
