import FpgaNetworkStack.Roce.StateTable
import FpgaNetworkStack.Toe.RxEngine

/-!
# The receive path of the RoCE stack (`ib_transport_protocol.cpp`)

`rx_process_exh` parses the extended header and passes the payload on, `rx_ibh_fsm` judges the packet
sequence number against the state of the queue pair, and `drop_ooo_ibh` applies its verdict to the payload.
Debug streams are left out.
-/

namespace FpgaNetworkStack.Roce

open IbOpCode
open Toe (NetAxis)

/-! ## `rx_process_exh` -/

inductive ExhState where
  | META | ACK_HEADER | RETH_HEADER | NO_HEADER
  deriving DecidableEq, Repr

structure RxProcessExh (W : Nat) where
  state : ExhState := .META
  rdmaHeader : PacketHeader W RETH_SIZE := {}
  ackHeader : PacketHeader W AETH_SIZE := {}
  metaWritten : Bool := false
  opCode : IbOpCode := RC_ACK

structure RxProcessExhIn (W : Nat) where
  input : List (NetAxis (BitVec W)) := []
  metaIn : List IbOpCode := []

/-- The extended header of a packet, `metaOut`, is the raw header of the type the opcode selects. -/
structure RxProcessExhOut (W : Nat) where
  exhMetaFifo : List ExhMeta := []
  metaOut : List (BitVec RETH_SIZE) := []
  output : List (NetAxis (BitVec W)) := []

/-- The state in which the words of a packet with this opcode are read. -/
def headerState (opCode : IbOpCode) : ExhState :=
  if checkIfAethHeader opCode then .ACK_HEADER
  else if checkIfRethHeader opCode then .RETH_HEADER
  else .NO_HEADER

def rethMeta (opCode : IbOpCode) (length : BitVec 32) : ExhMeta :=
  if opCode = RC_RDMA_READ_REQUEST then { isNak := false, numPkg := numPackets length }
  else { isNak := false }

def rxProcessExh {W : Nat} (s : RxProcessExh W) (i : RxProcessExhIn W) :
    RxProcessExh W × RxProcessExhIn W × RxProcessExhOut W :=
  match s.state, i.metaIn, i.input with
  | .META, opCode :: rest, _ =>
    ({ s with opCode, metaWritten := false, state := headerState opCode }, { i with metaIn := rest }, {})
  | .ACK_HEADER, _, currWord :: rest =>
    let h := s.ackHeader.parseWord currWord.data
    let first := h.ready && !s.metaWritten
    ({ s with
        ackHeader := if currWord.last then h.clear else h
        metaWritten := s.metaWritten || first
        state := if currWord.last then .META else .ACK_HEADER },
      { i with input := rest },
      { exhMetaFifo := if first then [{ isNak := isNAK h.header }] else []
        metaOut := if first then [h.header.setWidth _] else []
        -- an acknowledgement has no payload
        output := if h.ready && s.opCode ≠ RC_ACK then [currWord] else [] })
  | .RETH_HEADER, _, currWord :: rest =>
    let h := s.rdmaHeader.parseWord currWord.data
    let first := h.ready && !s.metaWritten
    ({ s with
        rdmaHeader := if currWord.last then h.clear else h
        metaWritten := s.metaWritten || first
        state := if currWord.last then .META else .RETH_HEADER },
      { i with input := rest },
      { exhMetaFifo := if first then [rethMeta s.opCode (getLength h.header)] else []
        metaOut := if first then [h.header] else []
        -- a header that fills whole words leaves the payload behind it aligned
        output := (if s.metaWritten && W ≤ RETH_SIZE then [currWord] else []) ++
          (if h.ready && checkIfWrite s.opCode && RETH_SIZE < W then [currWord] else []) })
  | .NO_HEADER, _, currWord :: rest =>
    ({ s with
        metaWritten := true
        state := if currWord.last then .META else .NO_HEADER },
      { i with input := rest },
      { exhMetaFifo := if s.metaWritten then [] else [{ isNak := false }]
        metaOut := if s.metaWritten then [] else [0]
        output := [currWord] })
  | _, _, _ => (s, i, {})

/-! ## `rx_ibh_fsm` -/

inductive IbhFsmState where
  | LOAD | PROCESS
  deriving DecidableEq, Repr

structure RxIbhFsm where
  fsmState : IbhFsmState := .LOAD
  metaReg : IbhMeta := default
  emeta : ExhMeta := default
  isResponse : Bool := false
  droppedPackets : BitVec 32 := 0

structure RxIbhFsmIn where
  metaIn : List IbhMeta := []
  exhMetaFifo : List ExhMeta := []
  stateTableRsp : List RxStateRsp := []

structure RxIbhFsmOut where
  stateTableUpdReq : List RxStateReq := []
  metaOut : List IbhMeta := []
  ibhEventFifo : List AckEvent := []
  ibhDropFifo : List Bool := []
  ibhDropMetaFifo : List FwdPolicy := []
  rxAckMeta : List AckMeta := []
  rxClearTimerReq : List RxTimerUpdate := []
  rx2retransUpd : List RetransUpdate := []

/-- The packet is the expected one, or an acknowledgement. -/
def inOrder (m : IbhMeta) (r : RxStateRsp) : Bool := r.epsn == m.psn || m.opCode == RC_ACK

/-- The number lies in the window of what was received before. -/
def duplicate (m : IbhMeta) (r : RxStateRsp) : Bool :=
  decide (r.oldestOutstandingPsn < r.epsn) && decide (m.psn < r.epsn) &&
      decide (r.oldestOutstandingPsn ≤ m.psn) ||
    decide (r.epsn < r.oldestOutstandingPsn) &&
      (decide (m.psn < r.epsn) || decide (r.oldestOutstandingPsn ≤ m.psn))

/-- The acknowledged number lies between the oldest unacknowledged and the last sent one. -/
def ackInWindow (m : IbhMeta) (r : RxStateRsp) : Bool :=
  decide (r.epsn ≤ m.psn) && decide (m.psn ≤ r.maxForward) ||
    (decide (r.epsn ≤ m.psn) || decide (m.psn ≤ r.maxForward)) && decide (r.maxForward < r.epsn)

def IbhMeta.forward (m : IbhMeta) : IbhMeta := { m with numPkg := 1 }

def processInOrder (m : IbhMeta) (emeta : ExhMeta) (isResponse : Bool) (r : RxStateRsp) : RxIbhFsmOut :=
  let acked := isResponse && !emeta.isNak
  { ibhDropFifo := if m.opCode ≠ RC_ACK ∧ m.opCode ≠ RC_RDMA_READ_REQUEST then [false] else []
    ibhDropMetaFifo := [⟨false, false⟩]
    metaOut := [m.forward]
    stateTableUpdReq :=
      if !emeta.isNak && (m.opCode != RC_ACK || ackInWindow m r) then
        [.accept m.destQp (m.psn + emeta.numPkg.setWidth 24) isResponse]
      else []
    rx2retransUpd := if acked then [⟨m.destQp.setWidth 16, m.psn, m.opCode⟩] else []
    rxAckMeta :=
      if acked && m.opCode != RC_RDMA_READ_RESP_FIRST && m.opCode != RC_RDMA_READ_RESP_MIDDLE then
        [⟨m.opCode == RC_ACK, m.destQp.setWidth 10, m.psn⟩]
      else []
    rxClearTimerReq :=
      if isResponse && m.opCode != RC_RDMA_READ_RESP_MIDDLE then
        [⟨m.destQp.setWidth 16, m.psn == r.maxForward⟩]
      else [] }

def processDuplicate (m : IbhMeta) : RxIbhFsmOut :=
  if m.opCode = RC_RDMA_READ_REQUEST then
    -- read again
    { ibhDropMetaFifo := [⟨false, false⟩], metaOut := [m.forward] }
  else if checkIfWrite m.opCode then
    { ibhEventFifo := [⟨m.destQp, m.psn, true, false⟩]
      ibhDropFifo := [true]
      ibhDropMetaFifo := [⟨false, true⟩] }
  else
    { ibhDropFifo := if m.opCode ≠ RC_ACK then [true] else []
      ibhDropMetaFifo := [⟨true, false⟩] }

def processInvalid (m : IbhMeta) (isResponse : Bool) (r : RxStateRsp) : RxIbhFsmOut :=
  if m.opCode ≠ RC_ACK then
    let nak := r.retryCounter == 7
    { ibhDropMetaFifo := [⟨true, false⟩]
      ibhDropFifo := [true]
      ibhEventFifo :=
        if nak then [⟨m.destQp, if isResponse then m.psn else r.epsn, true, true⟩] else []
      stateTableUpdReq :=
        [.retry m.destQp r.epsn (if nak then r.retryCounter - 1 else r.retryCounter) isResponse] }
  else { ibhDropMetaFifo := [⟨true, false⟩] }

/-- State `PROCESS` once the state of the queue pair is known. -/
def process (m : IbhMeta) (emeta : ExhMeta) (isResponse : Bool) (r : RxStateRsp) : RxIbhFsmOut :=
  if inOrder m r then processInOrder m emeta isResponse r
  else if duplicate m r then processDuplicate m
  else processInvalid m isResponse r

/-- Writes and everything out of the window count as dropped. -/
def countsDrop (m : IbhMeta) (r : RxStateRsp) : Bool :=
  !inOrder m r && (!duplicate m r || checkIfWrite m.opCode)

def rxIbhFsm (s : RxIbhFsm) (i : RxIbhFsmIn) : RxIbhFsm × RxIbhFsmIn × RxIbhFsmOut :=
  match s.fsmState, i.metaIn, i.exhMetaFifo, i.stateTableRsp with
  | .LOAD, m :: ms, e :: es, _ =>
    let isResponse := checkIfResponse m.opCode
    ({ s with fsmState := .PROCESS, metaReg := m, emeta := e, isResponse },
      { i with metaIn := ms, exhMetaFifo := es },
      { stateTableUpdReq := [.read m.destQp isResponse] })
  | .PROCESS, _, _, r :: rs =>
    ({ s with
        fsmState := .LOAD
        droppedPackets := if countsDrop s.metaReg r then s.droppedPackets + 1 else s.droppedPackets },
      { i with stateTableRsp := rs }, process s.metaReg s.emeta s.isResponse r)
  | _, _, _, _ => (s, i, {})

/-- A call takes up a packet, or it decides on one, or it waits. -/
theorem rxIbhFsm_cases (s : RxIbhFsm) (i : RxIbhFsmIn) :
    (∃ m ms e es, s.fsmState = .LOAD ∧ i.metaIn = m :: ms ∧ i.exhMetaFifo = e :: es ∧ rxIbhFsm s i =
      ({ s with fsmState := .PROCESS, metaReg := m, emeta := e, isResponse := checkIfResponse m.opCode },
        { i with metaIn := ms, exhMetaFifo := es },
        { stateTableUpdReq := [.read m.destQp (checkIfResponse m.opCode)] })) ∨
    (∃ r rs, s.fsmState = .PROCESS ∧ i.stateTableRsp = r :: rs ∧ rxIbhFsm s i =
      ({ s with
          fsmState := .LOAD
          droppedPackets := if countsDrop s.metaReg r then s.droppedPackets + 1 else s.droppedPackets },
        { i with stateTableRsp := rs }, process s.metaReg s.emeta s.isResponse r)) ∨
    rxIbhFsm s i = (s, i, {}) := by
  unfold rxIbhFsm
  split
  · next m ms e es hs hm he => exact .inl ⟨m, ms, e, es, hs, hm, he, rfl⟩
  · next r rs hs hr => exact .inr (.inl ⟨r, rs, hs, hr, rfl⟩)
  · exact .inr (.inr rfl)

/-! ## `drop_ooo_ibh` -/

inductive DropState where
  | META | FWD | DROP
  deriving DecidableEq, Repr

structure DropOooIbhIn (α : Type) where
  input : List (NetAxis α) := []
  metaIn : List Bool := []

/-- One call of `drop_ooo_ibh`; its counters are written and never read. -/
def dropOooIbh {α : Type} (s : DropState) (i : DropOooIbhIn α) :
    DropState × DropOooIbhIn α × List (NetAxis α) :=
  match s, i.metaIn, i.input with
  | .META, drop :: rest, _ => (if drop then .DROP else .FWD, { i with metaIn := rest }, [])
  | .FWD, _, currWord :: rest => (if currWord.last then .META else .FWD, { i with input := rest }, [currWord])
  | .DROP, _, currWord :: rest => (if currWord.last then .META else .DROP, { i with input := rest }, [])
  | s, _, _ => (s, i, [])

end FpgaNetworkStack.Roce
