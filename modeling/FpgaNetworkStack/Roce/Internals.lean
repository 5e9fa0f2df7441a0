import Mathlib.Data.Nat.ModEq
import Mathlib.Logic.Function.Basic
import Mathlib.Tactic.SplitIfs

/-!
# Data types of the RoCE stack (`ib_transport_protocol.hpp`, `ib_utils.cpp`, `packet.hpp`)

`ap_uint<N>` is `BitVec N`; arithmetic on `ap_uint` is exact and truncates at an assignment.  A queue pair
number has 24 bits in a packet and is cut to 16 bits where it names an entry of a table.  The build has
`RETRANS_EN`, and the packet sizes are those of `fns_config.hpp`.
-/

namespace FpgaNetworkStack.Roce

/-- Bytes of payload in one packet. -/
def PMTU : Nat := 4096

def BTH_SIZE : Nat := 96
def RETH_SIZE : Nat := 128
def AETH_SIZE : Nat := 32

/-- `ibOpCode`; `UNKNOWN` is a value of the eight bit field outside the enumeration. -/
inductive IbOpCode where
  | RC_SEND_FIRST | RC_SEND_MIDDLE | RC_SEND_LAST | RC_SEND_LAST_WITH_IMD
  | RC_SEND_ONLY | RC_SEND_ONLY_WITH_IMD
  | RC_RDMA_WRITE_FIRST | RC_RDMA_WRITE_MIDDLE | RC_RDMA_WRITE_LAST | RC_RDMA_WRITE_LAST_WITH_IMD
  | RC_RDMA_WRITE_ONLY | RC_RDMA_WRITE_ONLY_WIT_IMD
  | RC_RDMA_READ_REQUEST
  | RC_RDMA_READ_RESP_FIRST | RC_RDMA_READ_RESP_MIDDLE | RC_RDMA_READ_RESP_LAST | RC_RDMA_READ_RESP_ONLY
  | RC_ACK
  | UNKNOWN (code : BitVec 8)
  deriving DecidableEq, Repr, Inhabited

open IbOpCode

def checkIfResponse : IbOpCode → Bool
  | RC_RDMA_READ_RESP_FIRST | RC_RDMA_READ_RESP_MIDDLE | RC_RDMA_READ_RESP_LAST
  | RC_RDMA_READ_RESP_ONLY | RC_ACK => true
  | _ => false

def checkIfWrite : IbOpCode → Bool
  | RC_RDMA_WRITE_FIRST | RC_RDMA_WRITE_MIDDLE | RC_RDMA_WRITE_LAST | RC_RDMA_WRITE_ONLY => true
  | _ => false

def checkIfAethHeader : IbOpCode → Bool
  | RC_RDMA_READ_RESP_ONLY | RC_RDMA_READ_RESP_FIRST | RC_RDMA_READ_RESP_LAST | RC_ACK => true
  | _ => false

def checkIfRethHeader : IbOpCode → Bool
  | RC_RDMA_WRITE_ONLY | RC_RDMA_WRITE_FIRST | RC_RDMA_READ_REQUEST => true
  | _ => false

/-- Number of packets for `length` bytes, as an `ap_uint<22>`. -/
def numPackets (length : BitVec 32) : BitVec 22 := BitVec.ofNat 22 ((length.toNat + (PMTU - 1)) / PMTU)

/-- The base transport header as `rx_process_ibh` and `meta_merger` pass it on. -/
structure IbhMeta where
  opCode : IbOpCode
  partitionKey : BitVec 16
  destQp : BitVec 24
  psn : BitVec 24
  validPSN : Bool
  numPkg : BitVec 22 := 1
  deriving DecidableEq, Inhabited

/-- What the extended header adds: a NAK, and the number of packets asked for. -/
structure ExhMeta where
  isNak : Bool
  numPkg : BitVec 22 := 1
  deriving DecidableEq, Inhabited

structure FwdPolicy where
  isDrop : Bool
  ackOnly : Bool
  deriving DecidableEq

structure AckEvent where
  qpn : BitVec 24
  psn : BitVec 24
  validPsn : Bool
  isNak : Bool
  deriving DecidableEq

structure AckMeta where
  rd : Bool
  qpn : BitVec 10
  psn : BitVec 24
  deriving DecidableEq

structure RxTimerUpdate where
  qpn : BitVec 16
  stop : Bool
  deriving DecidableEq

structure RetransUpdate where
  qpn : BitVec 16
  latestAckedReq : BitVec 24
  opCode : IbOpCode
  deriving DecidableEq, Inhabited

/-! ## Headers that span words -/

/-- `packetHeader<W, HEADER_SIZE>`. -/
structure PacketHeader (W size : Nat) where
  ready : Bool := false
  idx : Nat := 0
  header : BitVec size := 0

namespace PacketHeader

variable {W size : Nat}

/-- The word goes to the bits from `idx * W` on; bits past the end of the header are cut off. -/
def parseWord (h : PacketHeader W size) (w : BitVec W) : PacketHeader W size :=
  if h.ready then h
  else
    { ready := decide (size ≤ h.idx * W + W)
      idx := h.idx + 1
      header := (h.header &&& ~~~((BitVec.allOnes W).setWidth size <<< (h.idx * W))) |||
        (w.setWidth size <<< (h.idx * W)) }

def clear (h : PacketHeader W size) : PacketHeader W size := { h with ready := false, idx := 0 }

end PacketHeader

/-- Reverse the order of the four bytes. -/
def reverse32 (x : BitVec 32) : BitVec 32 :=
  x.extractLsb' 0 8 ++ x.extractLsb' 8 8 ++ x.extractLsb' 16 8 ++ x.extractLsb' 24 8

def getLength (header : BitVec 128) : BitVec 32 := reverse32 (header.extractLsb' 96 32)

def isNAK (header : BitVec 32) : Bool := header.extractLsb' 5 2 == 3

end FpgaNetworkStack.Roce
