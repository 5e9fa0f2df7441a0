import FpgaNetworkStack.Toe.TxSarTable

/-!
# The usable window (`tx_sar_table.cpp`)

The reply to the transmit engine is meant to say how many more bytes may be sent: the smaller of the
congestion window and the scaled window of the peer, less what is already in flight.  The source
guards the subtraction with `minWindow < usedLength`, so it yields zero whenever the window has room
and a wrapped difference when it has not.  The push to the application has no such guard and is right.
-/

namespace FpgaNetworkStack.Toe

variable {b : Build}

/-- The scale of the peer's window; a build without the option has none. -/
def windowShift (b : Build) (winShift : BitVec 4) : Nat :=
  if b.windowScale then winShift.toNat else 0

/-- What may be in flight: the smaller of the congestion window and the peer's window. -/
def sendLimit (congWindow : BitVec b.windowBits) (recvWindow : BitVec 16) (winShift : BitVec 4) : Nat :=
  min congWindow.toNat (recvWindow.toNat * 2 ^ windowShift b winShift)

namespace TxSarEntry

/-- What may be in flight in the session of the entry. -/
def limit (entry : TxSarEntry b) : Nat := sendLimit entry.congWindow entry.recvWindow entry.winShift

/-- What is in flight, as a pointer of `WINDOW_BITS` bits. -/
def inFlight (entry : TxSarEntry b) : Nat := (entry.notAckd - entry.ackd).toNat % 2 ^ b.windowBits

end TxSarEntry

/-! ## The window that is computed -/

-- A shift of at most 14 keeps all 16 bits of the advertised window inside the 30 bits it is put into.
theorem scaledRecvWindow_toNat (recvWindow : BitVec 16) {winShift : BitVec 4} (hshift : winShift.toNat ≤ 14) :
    (scaledRecvWindow b recvWindow winShift).toNat = recvWindow.toNat * 2 ^ windowShift b winShift := by
  have hw : recvWindow.toNat < 2 ^ 16 := recvWindow.isLt
  unfold scaledRecvWindow windowShift
  cases b.windowScale with
  | false =>
    simp only [Bool.false_eq_true, if_false, pow_zero, Nat.mul_one, BitVec.toNat_setWidth]
    omega
  | true =>
    have hle : recvWindow.toNat * 2 ^ winShift.toNat < 2 ^ 16 * 2 ^ 14 :=
      calc recvWindow.toNat * 2 ^ winShift.toNat
        _ < 2 ^ 16 * 2 ^ winShift.toNat := Nat.mul_lt_mul_of_pos_right hw (Nat.two_pow_pos _)
        _ ≤ 2 ^ 16 * 2 ^ 14 := Nat.mul_le_mul_left _ (Nat.pow_le_pow_right (by decide) hshift)
    have hmod : recvWindow.toNat % 2 ^ 30 = recvWindow.toNat := Nat.mod_eq_of_lt (by omega)
    simp only [if_true, BitVec.toNat_shiftLeft, BitVec.toNat_setWidth, hmod, Nat.shiftLeft_eq]
    exact Nat.mod_eq_of_lt (by omega)

/-- The cut to `WINDOW_BITS` loses nothing: the minimum is at most the congestion window. -/
theorem minWindow_toNat {congWindow : BitVec b.windowBits} {recvWindow : BitVec 16} {winShift : BitVec 4}
    (hshift : winShift.toNat ≤ 14) :
    (minWindow b congWindow recvWindow winShift).toNat = sendLimit congWindow recvWindow winShift := by
  have hscaled := scaledRecvWindow_toNat (b := b) recvWindow hshift
  have hcong := congWindow.isLt
  unfold minWindow sendLimit
  split
  · rename_i hlt
    omega
  · rename_i hlt
    rw [BitVec.toNat_setWidth, Nat.mod_eq_of_lt (by omega)]
    omega

namespace TxSarEntry

theorem limit_lt (entry : TxSarEntry b) : entry.limit < 2 ^ b.windowBits :=
  Nat.lt_of_le_of_lt (Nat.min_le_left _ _) entry.congWindow.isLt

theorem inFlight_lt (entry : TxSarEntry b) : entry.inFlight < 2 ^ b.windowBits :=
  Nat.mod_lt _ (Nat.two_pow_pos _)

/-- What the reply carries: nothing while there is room, a wrapped difference when there is not. -/
theorem txReply_usableWindow {entry : TxSarEntry b} (hshift : entry.winShift.toNat ≤ 14) :
    entry.txReply.usableWindow.toNat =
      if entry.limit < entry.inFlight then 2 ^ b.windowBits - (entry.inFlight - entry.limit) else 0 := by
  have hwindow : (minWindow b entry.congWindow entry.recvWindow entry.winShift).toNat = entry.limit :=
    minWindow_toNat hshift
  have hused : ((entry.notAckd - entry.ackd).setWidth b.windowBits).toNat = entry.inFlight :=
    BitVec.toNat_setWidth _ _
  have hlimit := entry.limit_lt
  have hflight := entry.inFlight_lt
  show (if (minWindow b entry.congWindow entry.recvWindow entry.winShift).toNat <
      ((entry.notAckd - entry.ackd).setWidth b.windowBits).toNat then _ else _ : BitVec _).toNat = _
  rw [hwindow, hused]
  by_cases hlt : entry.limit < entry.inFlight
  · rw [if_pos hlt, if_pos hlt, BitVec.toNat_sub, hwindow, hused, Nat.mod_eq_of_lt (by omega)]
    omega
  · rw [if_neg hlt, if_neg hlt]
    simp

end TxSarEntry

/-! ## The law -/

/-- What the table owes its readers for session `sid`. -/
structure UsableWindowLaw (txTable : SessionID → TxSarEntry b) (sid : SessionID) : Prop where
  /-- A read of the transmit engine is answered with the room that is left; the difference of naturals
  is zero when there is none. -/
  usable : ∀ (i : TxSarTableIn b) q rest, i.txEng2txSarUpdReq = q :: rest → q.write = false → q.sessionID = sid →
    ∃ r, (txSarTable b txTable i).2.2.txSar2txEngUpdRsp = [r] ∧
      r.usableWindow.toNat = (txTable sid).limit - (txTable sid).inFlight
  /-- A sender that adds the usable window to what it has in flight stays within the limit. -/
  safe : ∀ (i : TxSarTableIn b) q rest r, i.txEng2txSarUpdReq = q :: rest → q.write = false → q.sessionID = sid →
    (txSarTable b txTable i).2.2.txSar2txEngUpdRsp = [r] →
      (txTable sid).inFlight + r.usableWindow.toNat ≤ max (txTable sid).inFlight (txTable sid).limit
  /-- An update of the receive engine pushes the whole limit to the application. -/
  pushed : ∀ (i : TxSarTableIn b) q rest, i.txEng2txSarUpdReq = [] → i.txApp2txSarAppPush = [] →
    i.rxEng2txSarUpdReq = q :: rest → q.write = true → q.sessionID = sid → b.tcpNodelay = true →
      ((txTable sid).rxEngUpdate q).winShift.toNat ≤ 14 →
    ∃ p, (txSarTable b txTable i).2.2.txSar2txAppAckPush = [p] ∧
      p.minWindow.toNat = ((txTable sid).rxEngUpdate q).limit

-- How a call that serves a read of the transmit engine answers.
theorem txSarTable_read {txTable : SessionID → TxSarEntry b} {i : TxSarTableIn b} {q : TxTxSarQuery}
    {rest : List TxTxSarQuery} (hi : i.txEng2txSarUpdReq = q :: rest) (hread : q.write = false) :
    (txSarTable b txTable i).2.2.txSar2txEngUpdRsp = [(txTable q.sessionID).txReply] := by
  simp [txSarTable, hi, hread]

-- How a call that serves a write of the receive engine informs the application.
theorem txSarTable_push {txTable : SessionID → TxSarEntry b} {i : TxSarTableIn b} {q : RxTxSarQuery b}
    {rest : List (RxTxSarQuery b)} (htx : i.txEng2txSarUpdReq = []) (happ : i.txApp2txSarAppPush = [])
    (hi : i.rxEng2txSarUpdReq = q :: rest) (hwrite : q.write = true) :
    (txSarTable b txTable i).2.2.txSar2txAppAckPush =
      [((txTable q.sessionID).rxEngUpdate q).ackPush q] := by
  simp [txSarTable, htx, happ, hi, hwrite]

/-- A session with 1000 bytes in flight and a window of 250 units of four bytes. -/
def filledEntry : TxSarEntry .sample :=
  { ackd := 5000, notAckd := 6000, recvWindow := 250, winShift := 2, congWindow := 0x3908
    slowstartThreshold := 0xFFFF, app := 6000, count := 0, fastRetransmitted := false
    finReady := false, finSent := false }

end FpgaNetworkStack.Toe
