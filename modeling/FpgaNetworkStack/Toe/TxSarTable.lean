import FpgaNetworkStack.Toe.Internals

/-!
# The transmit window table (`tx_sar_table.cpp`)
-/

namespace FpgaNetworkStack.Toe

variable (b : Build)

structure TxSarTableIn where
  rxEng2txSarUpdReq : List (RxTxSarQuery b) := []
  txEng2txSarUpdReq : List TxTxSarQuery := []
  txApp2txSarAppPush : List (TxAppTxSarPush b) := []

structure TxSarTableOut where
  txSar2rxEngUpdRsp : List (RxTxSarReply b) := []
  txSar2txEngUpdRsp : List (TxTxSarReply b) := []
  txSar2txAppAckPush : List (TxSarAckPush b) := []

/-- `0x3908`, ten segments of 1460 bytes. -/
def initialCongWindow : BitVec b.windowBits := BitVec.ofNat _ 0x3908

/-- The advertised window of the peer; the bits below the shift are zero. -/
def scaledRecvWindow (recvWindow : BitVec 16) (winShift : BitVec 4) : BitVec 30 :=
  if b.windowScale then recvWindow.setWidth 30 <<< winShift.toNat else recvWindow.setWidth 30

/-- The smaller of congestion window and advertised window. -/
def minWindow (congWindow : BitVec b.windowBits) (recvWindow : BitVec 16) (winShift : BitVec 4) :
    BitVec b.windowBits :=
  if congWindow.toNat < (scaledRecvWindow b recvWindow winShift).toNat then congWindow
  else (scaledRecvWindow b recvWindow winShift).setWidth _

namespace TxSarEntry

variable {b}

/-- A write of the transmit engine. -/
def txEngUpdate (entry : TxSarEntry b) (q : TxTxSarQuery) : TxSarEntry b :=
  if q.isRtQuery then
    { entry with slowstartThreshold := q.getThreshold b, congWindow := initialCongWindow b }
  else
    let entry : TxSarEntry b :=
      if q.init then
        { entry with
          notAckd := q.notAckd, app := q.notAckd.setWidth _, ackd := q.notAckd - 1
          congWindow := initialCongWindow b, slowstartThreshold := BitVec.ofNat _ 0xFFFF
          finReady := q.finReady, finSent := q.finSent }
      else { entry with notAckd := q.notAckd }
    { entry with finReady := entry.finReady || q.finReady, finSent := entry.finSent || q.finSent }

/-- The push to the application interface that goes with an initialising write. -/
def initPush (q : TxTxSarQuery) : List (TxSarAckPush b) :=
  if !q.isRtQuery && q.init then
    [⟨q.sessionID, q.notAckd.setWidth _, if b.tcpNodelay then initialCongWindow b else 0, true⟩]
  else []

/-- The reply to the transmit engine.  `usableWindow` is computed with the comparison as the source
has it. -/
def txReply (entry : TxSarEntry b) : TxTxSarReply b :=
  let usedLength : BitVec b.windowBits := (entry.notAckd - entry.ackd).setWidth _
  let window := minWindow b entry.congWindow entry.recvWindow entry.winShift
  { ackd := entry.ackd, notAckd := entry.notAckd
    usableWindow := if window.toNat < usedLength.toNat then window - usedLength else 0
    app := entry.app, usedLength, finReady := entry.finReady, finSent := entry.finSent }

/-- A write of the receive engine. -/
def rxEngUpdate (entry : TxSarEntry b) (q : RxTxSarQuery b) : TxSarEntry b :=
  { entry with
    ackd := q.ackd, recvWindow := q.recvWindow, congWindow := q.congWindow, count := q.count
    fastRetransmitted := q.fastRetransmitted
    winShift := if b.windowScale && q.init then q.winShift else entry.winShift }

/-- The push to the application interface that goes with a write of the receive engine; `entry` is
the updated one. -/
def ackPush (entry : TxSarEntry b) (q : RxTxSarQuery b) : TxSarAckPush b :=
  ⟨q.sessionID, q.ackd.setWidth _,
    if b.tcpNodelay then minWindow b q.congWindow q.recvWindow entry.winShift else 0, false⟩

def rxReply (entry : TxSarEntry b) : RxTxSarReply b :=
  ⟨entry.ackd, entry.notAckd, entry.congWindow, entry.slowstartThreshold, entry.count,
    entry.fastRetransmitted⟩

end TxSarEntry

/-- One call of `tx_sar_table`: the transmit engine goes first, then the application, then the
receive engine. -/
def txSarTable (txTable : SessionID → TxSarEntry b) (i : TxSarTableIn b) :
    (SessionID → TxSarEntry b) × TxSarTableIn b × TxSarTableOut b :=
  match i.txEng2txSarUpdReq, i.txApp2txSarAppPush, i.rxEng2txSarUpdReq with
  | q :: rest, _, _ =>
    let i := { i with txEng2txSarUpdReq := rest }
    if q.write then
      (Function.update txTable q.sessionID ((txTable q.sessionID).txEngUpdate q), i,
        { txSar2txAppAckPush := TxSarEntry.initPush q })
    else (txTable, i, { txSar2txEngUpdRsp := [(txTable q.sessionID).txReply] })
  | [], push :: rest, _ =>
    (Function.update txTable push.sessionID { txTable push.sessionID with app := push.app },
      { i with txApp2txSarAppPush := rest }, {})
  | [], [], q :: rest =>
    let i := { i with rxEng2txSarUpdReq := rest }
    if q.write then
      let entry := (txTable q.sessionID).rxEngUpdate q
      (Function.update txTable q.sessionID entry, i, { txSar2txAppAckPush := [entry.ackPush q] })
    else (txTable, i, { txSar2rxEngUpdRsp := [(txTable q.sessionID).rxReply] })
  | [], [], [] => (txTable, i, {})

end FpgaNetworkStack.Toe
