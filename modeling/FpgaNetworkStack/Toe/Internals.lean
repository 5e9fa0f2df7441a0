import Mathlib.Data.Nat.ModEq
import Mathlib.Logic.Function.Basic
import Mathlib.Tactic.SplitIfs

/-!
# Data types of the TCP offload engine (`toe.hpp`, `toe_internals.hpp`)

`ap_uint<N>` is `BitVec N`.  Vitis arithmetic on `ap_uint` is exact and truncates only at an
assignment, so comparisons of sums and differences are made on `Nat` or `Int` values below and
stored values are `BitVec` operations.  Fields that a constructor leaves uninitialised take a
default value; no modelled function reads them.
-/

namespace FpgaNetworkStack.Toe

/-- The compile-time options of `fns_config.hpp` and the `-D` flags of the TOE build. -/
structure Build where
  tcpNodelay : Bool
  rxDdrBypass : Bool
  fastRetransmit : Bool
  windowScale : Bool
  mss : BitVec 16
  maxSessions : BitVec 16
  deriving DecidableEq

namespace Build

def windowScaleBits : Nat := 2

def windowBits (b : Build) : Nat :=
  match b.windowScale with
  | true => 16 + windowScaleBits
  | false => 16

def bufferSize (b : Build) : Nat := 2 ^ b.windowBits

def congestionWindowMax (b : Build) : Nat := b.bufferSize - 2048

theorem windowBits_eq (b : Build) : b.windowBits = 18 ∨ b.windowBits = 16 := by
  unfold windowBits windowScaleBits
  cases b.windowScale
  · exact .inr rfl
  · exact .inl rfl

theorem windowBits_le (b : Build) : b.windowBits ≤ 32 := by
  have h := b.windowBits_eq
  omega

theorem le_windowBits (b : Build) : 16 ≤ b.windowBits := by
  have h := b.windowBits_eq
  omega

theorem bufferSize_eq (b : Build) : b.bufferSize = 262144 ∨ b.bufferSize = 65536 := by
  unfold bufferSize
  rcases b.windowBits_eq with h | h <;> rw [h] <;> decide

theorem bufferSize_pos (b : Build) : 0 < b.bufferSize := Nat.two_pow_pos _

theorem bufferSize_dvd (b : Build) : b.bufferSize ∣ 2 ^ 32 :=
  Nat.pow_dvd_pow 2 b.windowBits_le

/-- The default build of `CMakeLists.txt`, but with the receive path through memory. -/
def sample : Build :=
  { tcpNodelay := true, rxDdrBypass := false, fastRetransmit := true, windowScale := true,
    mss := 4096, maxSessions := 1000 }

end Build

abbrev SessionID := BitVec 16

inductive EventType where
  | TX | RT | ACK | SYN | SYN_ACK | FIN | RST | ACK_NODELAY
  deriving DecidableEq, Repr, Inhabited

inductive SessionState where
  | CLOSED | SYN_SENT | SYN_RECEIVED | ESTABLISHED | FIN_WAIT_1 | FIN_WAIT_2 | CLOSING
  | TIME_WAIT | LAST_ACK
  deriving DecidableEq, Repr, Inhabited

structure FourTuple where
  srcIp : BitVec 32
  dstIp : BitVec 32
  srcPort : BitVec 16
  dstPort : BitVec 16
  deriving DecidableEq, Inhabited

structure SessionLookupQuery where
  tuple : FourTuple
  allowCreation : Bool
  deriving DecidableEq

structure SessionLookupReply where
  sessionID : SessionID
  hit : Bool
  deriving DecidableEq, Inhabited

structure StateQuery where
  sessionID : SessionID
  state : SessionState
  write : Bool
  deriving DecidableEq, Inhabited

/-- `stateQuery(id)`: a locking read. -/
def StateQuery.read (id : SessionID) : StateQuery := ⟨id, .CLOSED, false⟩

def StateQuery.update (id : SessionID) (state : SessionState) : StateQuery := ⟨id, state, true⟩

variable (b : Build)

/-- `rxSarEntry`: `appd ≤ recvd ≤ offset ≤ head`, with `[recvd, offset)` missing while `gap`. -/
structure RxSarEntry where
  recvd : BitVec 32
  appd : BitVec b.windowBits
  winShift : BitVec 4
  head : BitVec 32
  offset : BitVec 32
  gap : Bool
  deriving DecidableEq, Inhabited

structure RxSarReply where
  recvd : BitVec 32
  winShift : BitVec 4
  windowSize : BitVec 16
  deriving DecidableEq, Inhabited

structure RxSarRecvd where
  sessionID : SessionID
  recvd : BitVec 32 := 0
  winShift : BitVec 4 := 0
  write : Bool
  init : Bool
  head : BitVec 32 := 0
  offset : BitVec 32 := 0
  gap : Bool := false
  deriving DecidableEq

def RxSarRecvd.read (id : SessionID) : RxSarRecvd :=
  { sessionID := id, write := false, init := false }

def RxSarRecvd.update (id : SessionID) (recvd head offset : BitVec 32) (gap : Bool) : RxSarRecvd :=
  { sessionID := id, recvd, head, offset, gap, write := true, init := false }

def RxSarRecvd.initialise (id : SessionID) (recvd head offset : BitVec 32) (gap : Bool)
    (winShift : BitVec 4) : RxSarRecvd :=
  { sessionID := id, recvd, head, offset, gap, winShift, write := true, init := true }

structure RxSarAppd where
  sessionID : SessionID
  appd : BitVec b.windowBits
  write : Bool
  deriving DecidableEq

structure TxSarEntry where
  ackd : BitVec 32
  notAckd : BitVec 32
  recvWindow : BitVec 16
  winShift : BitVec 4
  congWindow : BitVec b.windowBits
  slowstartThreshold : BitVec b.windowBits
  app : BitVec b.windowBits
  count : BitVec 2
  fastRetransmitted : Bool
  finReady : Bool
  finSent : Bool
  deriving DecidableEq, Inhabited

structure RxTxSarQuery where
  sessionID : SessionID
  ackd : BitVec 32
  recvWindow : BitVec 16
  congWindow : BitVec b.windowBits
  count : BitVec 2
  fastRetransmitted : Bool
  winShift : BitVec 4 := 0
  write : Bool
  init : Bool
  deriving DecidableEq

def RxTxSarQuery.read (id : SessionID) : RxTxSarQuery b :=
  { sessionID := id, ackd := 0, recvWindow := 0, congWindow := 0, count := 0,
    fastRetransmitted := false, write := false, init := false }

structure TxTxSarQuery where
  sessionID : SessionID
  notAckd : BitVec 32
  write : Bool
  init : Bool
  finReady : Bool
  finSent : Bool
  isRtQuery : Bool
  deriving DecidableEq

def TxTxSarQuery.read (id : SessionID) : TxTxSarQuery := ⟨id, 0, false, false, false, false, false⟩

def TxTxSarQuery.update (id : SessionID) (notAckd : BitVec 32) (init finReady finSent : Bool) :
    TxTxSarQuery := ⟨id, notAckd, true, init, finReady, finSent, false⟩

/-- `txTxSarRtQuery(id, ssthresh)`: the threshold travels in the `not_ackd` field. -/
def TxTxSarQuery.rt (id : SessionID) (ssthresh : BitVec b.windowBits) : TxTxSarQuery :=
  ⟨id, ssthresh.setWidth 32, true, false, false, false, true⟩

def TxTxSarQuery.getThreshold (q : TxTxSarQuery) : BitVec b.windowBits := q.notAckd.setWidth _

structure TxAppTxSarQuery where
  sessionID : SessionID
  mempt : BitVec b.windowBits
  write : Bool
  deriving DecidableEq

structure RxTxSarReply where
  prevAck : BitVec 32
  nextByte : BitVec 32
  congWindow : BitVec b.windowBits
  slowstartThreshold : BitVec b.windowBits
  count : BitVec 2
  fastRetransmitted : Bool
  deriving DecidableEq, Inhabited

structure TxAppTxSarReply where
  sessionID : SessionID
  ackd : BitVec b.windowBits
  mempt : BitVec b.windowBits
  minWindow : BitVec b.windowBits
  deriving DecidableEq

structure TxAppTxSarPush where
  sessionID : SessionID
  app : BitVec b.windowBits
  deriving DecidableEq

structure TxSarAckPush where
  sessionID : SessionID
  ackd : BitVec b.windowBits
  minWindow : BitVec b.windowBits
  init : Bool
  deriving DecidableEq

structure TxTxSarReply where
  ackd : BitVec 32
  notAckd : BitVec 32
  usableWindow : BitVec b.windowBits
  app : BitVec b.windowBits
  usedLength : BitVec b.windowBits
  finReady : Bool
  finSent : Bool
  deriving DecidableEq, Inhabited

structure RxRetransmitTimerUpdate where
  sessionID : SessionID
  stop : Bool
  deriving DecidableEq

structure TxRetransmitTimerSet where
  sessionID : SessionID
  type : EventType
  deriving DecidableEq

/-- `event`. -/
structure Event where
  type : EventType
  sessionID : SessionID
  address : BitVec b.windowBits := 0
  length : BitVec 16 := 0
  rtCount : BitVec 3 := 0
  deriving DecidableEq, Inhabited

/-- `extendedEvent`: an event with the tuple a session-less reset carries. -/
structure ExtendedEvent extends Event b where
  tuple : FourTuple
  deriving DecidableEq, Inhabited

/-- `rstEvent(id, seq, hasSessionID)`: the acknowledgement number travels in the address and
length fields, the session flag in the retry count. -/
def Event.rst (id : SessionID) (seq : BitVec 32) (hasSessionID : Bool) : Event b :=
  { type := .RST, sessionID := id, address := (seq.extractLsb' 16 16).setWidth _,
    length := seq.setWidth 16, rtCount := if hasSessionID then 1 else 0 }

def Event.getAckNumb (e : Event b) : BitVec 32 := e.address.setWidth 16 ++ e.length

def Event.hasSessionID (e : Event b) : Bool := e.rtCount != 0

structure MmCmd where
  bbt : BitVec 23
  saddr : BitVec 32
  deriving DecidableEq

def MmCmd.new (addr : BitVec 32) (len : BitVec 16) : MmCmd := ⟨len.setWidth 23, addr⟩

/-- The memory address `pkgAddr` that all engines build: session number above the buffer offset,
the two top bits zero. -/
def pkgAddr (sessionID : SessionID) (offset : BitVec b.windowBits) : BitVec 32 :=
  BitVec.ofNat 32 ((sessionID.toNat % 2 ^ (30 - b.windowBits)) * b.bufferSize + offset.toNat)

structure OpenStatus where
  sessionID : SessionID
  success : Bool
  ip : BitVec 32
  port : BitVec 16
  deriving DecidableEq

structure AppNotification where
  sessionID : SessionID
  length : BitVec 16
  ipAddress : BitVec 32
  dstPort : BitVec 16
  closed : Bool
  deriving DecidableEq

structure AppTxMeta where
  sessionID : SessionID
  length : BitVec 16
  deriving DecidableEq, Inhabited

structure AppTxRsp where
  sessionID : SessionID
  length : BitVec 16
  remainingSpace : BitVec 30
  error : BitVec 2
  deriving DecidableEq

structure RxEngineMetaData where
  seqNumb : BitVec 32
  ackNumb : BitVec 32
  winSize : BitVec 16
  winScale : BitVec 4
  length : BitVec 16
  ack : Bool
  rst : Bool
  syn : Bool
  fin : Bool
  deriving DecidableEq, Inhabited

structure RxFsmMetaData where
  sessionID : SessionID
  srcIpAddress : BitVec 32
  dstIpPort : BitVec 16
  metaData : RxEngineMetaData
  srcIpPort : BitVec 16
  deriving DecidableEq, Inhabited

/-- `reverse` on 32 bits: the byte order is inverted. -/
def reverse32 (x : BitVec 32) : BitVec 32 :=
  x.extractLsb' 0 8 ++ x.extractLsb' 8 8 ++ x.extractLsb' 16 8 ++ x.extractLsb' 24 8

def reverse16 (x : BitVec 16) : BitVec 16 := x.extractLsb' 0 8 ++ x.extractLsb' 8 8

end FpgaNetworkStack.Toe
