import FpgaNetworkStack.Toe.Internals

/-!
# The tables of ports (`port_table.cpp`)

`listening_port_table` marks the ports below 32768 that are open, `free_port_table` those from 32768 on that are in
use, and hands out free ones ahead of time.  `check_in_multiplexer` sends the port checks of the receive path to the
table the port belongs to, and `check_out_multiplexer` brings the answers back into the order of the checks.
-/

namespace FpgaNetworkStack.Toe

structure ListeningPortTableIn where
  rxApp2portTableListenReq : List (BitVec 16) := []
  ptPortCheckListeningReqFifo : List (BitVec 15) := []

structure ListeningPortTableOut where
  portTable2rxAppListenRsp : List Bool := []
  ptPortCheckListeningRspFifo : List Bool := []

/-- One call of `listening_port_table`; its static variable is the table. -/
def listeningPortTable (s : BitVec 15 → Bool) (i : ListeningPortTableIn) :
    (BitVec 15 → Bool) × ListeningPortTableIn × ListeningPortTableOut :=
  match i.rxApp2portTableListenReq, i.ptPortCheckListeningReqFifo with
  | currPort :: rest, _ =>
    let index := currPort.setWidth 15
    let i' := { i with rxApp2portTableListenReq := rest }
    -- true also when the port is already open
    if s index && decide (currPort.toNat < 32768) then (s, i', { portTable2rxAppListenRsp := [true] })
    else if !s index && decide (currPort.toNat < 32768) then
      (Function.update s index true, i', { portTable2rxAppListenRsp := [true] })
    else (s, i', { portTable2rxAppListenRsp := [false] })
  | [], checkPort :: rest =>
    (s, { i with ptPortCheckListeningReqFifo := rest }, { ptPortCheckListeningRspFifo := [s checkPort] })
  | [], [] => (s, i, {})

structure FreePortTable where
  freePortTable : BitVec 15 → Bool := fun _ => false
  ptCursor : BitVec 15 := 0

structure FreePortTableIn where
  sLookup2portTableReleasePort : List (BitVec 16) := []
  ptPortCheckUsedReqFifo : List (BitVec 15) := []

structure FreePortTableOut where
  ptPortCheckUsedRspFifo : List Bool := []
  portTable2txAppPortRsp : List (BitVec 16) := []

/-- The number of the port at an index of the table. -/
def ephemeral (index : BitVec 15) : BitVec 16 := 1#1 ++ index

/-- The branches of `free_port_table` without the cursor; `full` tells whether the ports already handed out
fill their FIFO. -/
def freePortBranch (full : Bool) (s : FreePortTable) (i : FreePortTableIn) :
    FreePortTable × FreePortTableIn × FreePortTableOut :=
  match i.sLookup2portTableReleasePort, i.ptPortCheckUsedReqFifo with
  | currPort :: rest, _ =>
    (if 32768 ≤ currPort.toNat then
        { s with freePortTable := Function.update s.freePortTable (currPort.setWidth 15) false }
      else s,
      { i with sLookup2portTableReleasePort := rest }, {})
  | [], checkPort :: rest =>
    (s, { i with ptPortCheckUsedReqFifo := rest }, { ptPortCheckUsedRspFifo := [s.freePortTable checkPort] })
  | [], [] =>
    if !s.freePortTable s.ptCursor && !full then
      ({ s with freePortTable := Function.update s.freePortTable s.ptCursor true }, i,
        { portTable2txAppPortRsp := [ephemeral s.ptCursor] })
    else (s, i, {})

/-- One call of `free_port_table`; the cursor moves in any case. -/
def freePortTable (full : Bool) (s : FreePortTable) (i : FreePortTableIn) :
    FreePortTable × FreePortTableIn × FreePortTableOut :=
  let (s', i, out) := freePortBranch full s i
  ({ s' with ptCursor := s.ptCursor + 1 }, i, out)

structure CheckInOut where
  ptPortCheckListeningReqFifo : List (BitVec 15) := []
  ptPortCheckUsedReqFifo : List (BitVec 15) := []
  ptDstFifoOut : List Bool := []

/-- One call of `check_in_multiplexer`: the bytes of the port number are swapped first. -/
def checkInMultiplexer (rxEng2portTableCheckReq : List (BitVec 16)) : List (BitVec 16) × CheckInOut :=
  match rxEng2portTableCheckReq with
  | [] => ([], {})
  | checkPort :: rest =>
    let swappedCheckPort := reverse16 checkPort
    (rest,
      if swappedCheckPort.toNat < 32768 then
        { ptPortCheckListeningReqFifo := [swappedCheckPort.setWidth 15], ptDstFifoOut := [true] }
      else { ptPortCheckUsedReqFifo := [swappedCheckPort.setWidth 15], ptDstFifoOut := [false] })

/-- The states of `check_out_multiplexer`. -/
inductive CmFsmState where
  | READ_DST | READ_LISTENING | READ_USED
  deriving DecidableEq

structure CheckOutIn where
  ptDstFifoIn : List Bool := []
  ptPortCheckListeningRspFifo : List Bool := []
  ptPortCheckUsedRspFifo : List Bool := []

def checkOutMultiplexer (s : CmFsmState) (i : CheckOutIn) : CmFsmState × CheckOutIn × List Bool :=
  match s with
  | .READ_DST =>
    match i.ptDstFifoIn with
    | [] => (s, i, [])
    | dst :: rest => (if dst then .READ_LISTENING else .READ_USED, { i with ptDstFifoIn := rest }, [])
  | .READ_LISTENING =>
    match i.ptPortCheckListeningRspFifo with
    | [] => (s, i, [])
    | rsp :: rest => (.READ_DST, { i with ptPortCheckListeningRspFifo := rest }, [rsp])
  | .READ_USED =>
    match i.ptPortCheckUsedRspFifo with
    | [] => (s, i, [])
    | rsp :: rest => (.READ_DST, { i with ptPortCheckUsedRspFifo := rest }, [rsp])

/-! ## Port numbers -/

theorem ephemeral_toNat (k : BitVec 15) : (ephemeral k).toNat = 32768 + k.toNat := by
  have hk := k.isLt
  rw [ephemeral, BitVec.toNat_append]
  show 1 <<< 15 ||| k.toNat = _
  rw [← Nat.shiftLeft_add_eq_or_of_lt hk]
  rfl

theorem eq_ephemeral_iff (p : BitVec 16) (k : BitVec 15) :
    p = ephemeral k ↔ 32768 ≤ p.toNat ∧ p.setWidth 15 = k := by
  have hp := p.isLt
  have hk := k.isLt
  constructor
  · rintro rfl
    rw [ephemeral_toNat]
    refine ⟨Nat.le_add_right _ _, ?_⟩
    apply BitVec.eq_of_toNat_eq
    rw [BitVec.toNat_setWidth, ephemeral_toNat]
    omega
  · rintro ⟨hle, rfl⟩
    apply BitVec.eq_of_toNat_eq
    rw [ephemeral_toNat, BitVec.toNat_setWidth]
    omega

theorem ephemeral_injective {k k' : BitVec 15} : ephemeral k = ephemeral k' ↔ k = k' := by
  constructor
  · intro h
    have hnat := congrArg BitVec.toNat h
    rw [ephemeral_toNat, ephemeral_toNat] at hnat
    exact BitVec.eq_of_toNat_eq (by omega)
  · rintro rfl
    rfl

theorem reverse16_reverse16 (p : BitVec 16) : reverse16 (reverse16 p) = p := by
  unfold reverse16
  rw [BitVec.extractLsb'_append_eq_right, BitVec.extractLsb'_append_eq_left]
  exact BitVec.extractLsb'_append_extractLsb'

end FpgaNetworkStack.Toe
