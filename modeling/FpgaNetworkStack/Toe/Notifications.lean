import FpgaNetworkStack.Toe.FsmBalance
import FpgaNetworkStack.Toe.RxSarTable

/-!
# What the notifications announce

`rxTcpFSM` moves `recvd` through the rx_sar table and announces the new bytes to the application in a
16-bit length field.  Each segment is accounted for on its own, against the entry the table holds when
it is handled; the sums over a run follow.  The one branch that can go wrong is the one that closes a
gap, where the announced length is not the length of the segment.
-/

namespace FpgaNetworkStack.Toe

open Lib

variable {b : Build}

/-! ## One segment -/

/-- How far `recvd` moves, in 32-bit sequence space. -/
def advance (before after : BitVec 32) : Nat := (after - before).toNat

theorem advance_self (x : BitVec 32) : advance x x = 0 := by
  rw [advance, BitVec.sub_self]
  rfl

/-- A handled segment: `recvd` before and after it, what was announced, and whether it was an accepted
FIN, whose phantom byte moves `recvd` without being announced. -/
structure Noted where
  sessionID : SessionID
  before : BitVec 32
  after : BitVec 32
  notes : List AppNotification
  fin : Bool

namespace Noted

def announced (x : Noted) : Nat := (x.notes.map (·.length.toNat)).sum

/-- At most one notification, for the segment's session, and its length is the advance of `recvd`. -/
structure Accounted (x : Noted) : Prop where
  single : x.notes.length ≤ 1
  session : ∀ n ∈ x.notes, n.sessionID = x.sessionID
  total : x.announced + x.fin.toNat = advance x.before x.after

end Noted

section Segment

variable (e : RxTcpFsmEnv b) (m : RxFsmMetaData) (tcpState : SessionState) (rxSar : RxSarEntry b)
  (txSar : RxTxSarReply b)

/-- The segment is a FIN that is taken. -/
def takesFin : Bool := controlBits m.metaData == .fin && finAccepted b m rxSar tcpState

/-- The segment closes a gap: it starts at `recvd` and ends where the premature block begins. -/
def closesGap : Bool :=
  controlBits m.metaData == .ack && ackState tcpState && m.metaData.length != 0 && !b.rxDdrBypass &&
    !inOrder b m rxSar && !outOfOrder b m rxSar && !afterHead b m rxSar && afterRecvd b m rxSar &&
    segmentEndWide m == rxSar.offset.toNat

/-- The segment and the premature block it reaches are together shorter than 2^16 bytes. -/
def fitsLength : Bool := decide ((rxSar.head - m.metaData.seqNumb).toNat < 2 ^ 16)

/-- What a segment did, given the writes of its transition. -/
def noted (out : RxTcpFsmOut b) : Noted :=
  { sessionID := m.sessionID
    before := rxSar.recvd
    after := (out.rxEng2rxSarUpdReq.getLast?.map (·.recvd)).getD rxSar.recvd
    notes := out.rxEng2rxAppNotification
    fin := takesFin m tcpState rxSar }

variable {e m tcpState rxSar txSar}

/-- Nothing is announced beyond the end of the connection, and `recvd` stays. -/
theorem accounted_of_still {out : RxTcpFsmOut b} (hfin : takesFin m tcpState rxSar = false)
    (hupd : out.rxEng2rxSarUpdReq = [])
    (hnotes : out.rxEng2rxAppNotification = [] ∨ ∃ c, out.rxEng2rxAppNotification = [notification m 0 c]) :
    (noted m tcpState rxSar out).Accounted := by
  constructor
  · rcases hnotes with h | ⟨c, h⟩ <;> simp [noted, h]
  · rcases hnotes with h | ⟨c, h⟩ <;> simp [noted, h, notification]
  · rcases hnotes with h | ⟨c, h⟩ <;>
      simp [noted, h, hupd, hfin, notification, Noted.announced, advance_self]

/-- An accepted payload is accounted for when its notification has the length of the advance. -/
theorem keepPayload_accounted_iff {recvd head offset : BitVec 32} {gap : Bool} {notified : BitVec 16}
    (hfin : takesFin m tcpState rxSar = false) :
    (noted m tcpState rxSar (keepPayload b m recvd head offset gap notified)).Accounted ↔
      notified.toNat = advance rxSar.recvd recvd := by
  have htotal : (noted m tcpState rxSar (keepPayload b m recvd head offset gap notified)).announced +
      (noted m tcpState rxSar (keepPayload b m recvd head offset gap notified)).fin.toNat =
        notified.toNat := by
    simp [noted, keepPayload, Noted.announced, notification, hfin]
  constructor
  · intro h
    exact htotal.symm.trans h.total
  · intro h
    refine ⟨by simp [noted, keepPayload], by simp [noted, keepPayload, notification], ?_⟩
    rw [htotal]
    exact h

/-- A segment that starts at `recvd` moves it by its length. -/
theorem advance_segmentEnd (h : m.metaData.seqNumb = rxSar.recvd) :
    advance rxSar.recvd (segmentEnd m) = m.metaData.length.toNat := by
  have hsub : segmentEnd m - rxSar.recvd = m.metaData.length.setWidth 32 := by
    rw [segmentEnd, h, BitVec.add_comm, BitVec.add_sub_cancel]
  rw [advance, hsub, BitVec.toNat_setWidth]
  exact Nat.mod_eq_of_lt (Nat.lt_trans m.metaData.length.isLt (by decide))

theorem advance_fin (h : m.metaData.seqNumb = rxSar.recvd) :
    advance rxSar.recvd (segmentEnd m + 1) = m.metaData.length.toNat + 1 := by
  have hsub : segmentEnd m + 1 - rxSar.recvd = m.metaData.length.setWidth 32 + 1 := by
    rw [segmentEnd, h, BitVec.add_assoc, BitVec.add_comm, BitVec.add_sub_cancel]
  have hlt := m.metaData.length.isLt
  rw [advance, hsub, BitVec.toNat_add, BitVec.toNat_setWidth,
    Nat.mod_eq_of_lt (show m.metaData.length.toNat < 2 ^ 32 by omega)]
  exact Nat.mod_eq_of_lt (show m.metaData.length.toNat + 1 < 2 ^ 32 by omega)

theorem closing_length (d : BitVec 32) :
    ((d.setWidth b.windowBits).setWidth 16).toNat = d.toNat % 2 ^ 16 := by
  rw [BitVec.toNat_setWidth, BitVec.toNat_setWidth,
    Nat.mod_mod_of_dvd _ (Nat.pow_dvd_pow 2 b.le_windowBits)]

-- The five ways to accept a payload; only the one that closes a gap announces another number than
-- the segment's own length or none.
theorem ackPayloadDdr_accounted_iff (hfin : takesFin m tcpState rxSar = false) :
    (noted m tcpState rxSar (ackPayloadDdr b m rxSar)).Accounted ↔
      ((!inOrder b m rxSar && !outOfOrder b m rxSar && !afterHead b m rxSar && afterRecvd b m rxSar &&
        segmentEndWide m == rxSar.offset.toNat) = true → fitsLength m rxSar = true) := by
  unfold ackPayloadDdr
  by_cases h1 : inOrder b m rxSar = true
  · have hseq : m.metaData.seqNumb = rxSar.recvd := by
      simp only [inOrder, Bool.and_eq_true, beq_iff_eq] at h1
      exact h1.1.2
    rw [if_pos h1, keepPayload_accounted_iff hfin, advance_segmentEnd hseq]
    simp [h1]
  by_cases h2 : outOfOrder b m rxSar = true
  · rw [if_neg h1, if_pos h2, keepPayload_accounted_iff hfin, advance_self]
    simp [h2]
  by_cases h3 : afterHead b m rxSar = true
  · rw [if_neg h1, if_neg h2, if_pos h3, keepPayload_accounted_iff hfin, advance_self]
    simp [h3]
  by_cases h4 : afterRecvd b m rxSar = true
  · have hseq : m.metaData.seqNumb = rxSar.recvd := by
      simp only [afterRecvd, Bool.and_eq_true, beq_iff_eq] at h4
      exact h4.2
    rw [if_neg h1, if_neg h2, if_neg h3, if_pos h4]
    by_cases h5 : segmentEndWide m = rxSar.offset.toNat
    · have hclose : (!inOrder b m rxSar && !outOfOrder b m rxSar && !afterHead b m rxSar &&
          afterRecvd b m rxSar && segmentEndWide m == rxSar.offset.toNat) = true := by
        simp [h1, h2, h3, h4, h5]
      have hmod := Nat.mod_eq_iff_lt (m := (rxSar.head - rxSar.recvd).toNat) (show 2 ^ 16 ≠ 0 by decide)
      rw [if_pos h5, keepPayload_accounted_iff hfin, closing_length, fitsLength, hseq,
        decide_eq_true_iff]
      exact ⟨fun h _ => hmod.mp h, fun h => hmod.mpr (h hclose)⟩
    · have hother : (segmentEndWide m == rxSar.offset.toNat) = false := by simp [h5]
      rw [if_neg h5]
      by_cases h6 : segmentEndWide m < rxSar.offset.toNat
      · rw [if_pos h6, keepPayload_accounted_iff hfin, advance_segmentEnd hseq, hother]
        simp
      · rw [if_neg h6, hother]
        exact iff_of_true (accounted_of_still hfin rfl (.inl rfl)) (by simp)
  · rw [if_neg h1, if_neg h2, if_neg h3, if_neg h4]
    exact iff_of_true (accounted_of_still hfin rfl (.inl rfl)) (by simp [h4])

theorem ackPayload_accounted_iff (hfin : takesFin m tcpState rxSar = false) :
    (noted m tcpState rxSar (ackPayload b e m rxSar)).Accounted ↔
      ((m.metaData.length != 0 && !b.rxDdrBypass && (!inOrder b m rxSar && !outOfOrder b m rxSar &&
        !afterHead b m rxSar && afterRecvd b m rxSar && segmentEndWide m == rxSar.offset.toNat)) =
          true → fitsLength m rxSar = true) := by
  unfold ackPayload
  by_cases hlen : m.metaData.length = 0
  · rw [if_pos hlen, hlen]
    exact iff_of_true (accounted_of_still hfin rfl (.inl rfl)) (by simp)
  have hne : (m.metaData.length != 0) = true := bne_iff_ne.mpr hlen
  rw [if_neg hlen, hne]
  cases hb : b.rxDdrBypass with
  | false => exact ackPayloadDdr_accounted_iff hfin
  | true =>
    rw [if_pos rfl, ackPayloadBypass]
    by_cases h : inOrderBypass b e m rxSar = true
    · have hseq : m.metaData.seqNumb = rxSar.recvd := by
        simp only [inOrderBypass, Bool.and_eq_true, beq_iff_eq] at h
        exact h.1
      rw [if_pos h]
      exact iff_of_true ((keepPayload_accounted_iff hfin).mpr (advance_segmentEnd hseq).symm) (by simp)
    · rw [if_neg h]
      exact iff_of_true (accounted_of_still hfin rfl (.inl rfl)) (by simp)

/-- A FIN is always accounted for. -/
theorem transitionFin_accounted (hc : controlBits m.metaData = .fin) :
    (noted m tcpState rxSar (transitionFin b m rxSar txSar tcpState)).Accounted := by
  have htakes : takesFin m tcpState rxSar = finAccepted b m rxSar tcpState := by simp [takesFin, hc]
  unfold transitionFin
  cases hf : finAccepted b m rxSar tcpState with
  | false =>
    simp only [Bool.false_eq_true, if_false]
    exact accounted_of_still (htakes.trans hf) rfl (.inl rfl)
  | true =>
    have hseq : m.metaData.seqNumb = rxSar.recvd := by
      simp only [finAccepted, Bool.and_eq_true, beq_iff_eq] at hf
      exact hf.2.symm
    have hadv := advance_fin hseq
    have hnotes : (finPayload b m tcpState).rxEng2rxAppNotification = [] ∧ m.metaData.length = 0 ∨
        (finPayload b m tcpState).rxEng2rxAppNotification = [notification m m.metaData.length true] := by
      unfold finPayload
      by_cases hlen : m.metaData.length = 0
      · rw [if_neg (not_not.mpr hlen), hlen]
        cases tcpState == .ESTABLISHED
        · exact .inl ⟨rfl, rfl⟩
        · exact .inr rfl
      · rw [if_pos hlen]
        exact .inr rfl
    rw [if_pos rfl]
    rcases hnotes with ⟨h, hlen⟩ | h
    · refine ⟨by simp [noted, h], by simp [noted, h], Eq.trans ?_ hadv.symm⟩
      simp [noted, h, Noted.announced, htakes, hf, hlen]
    · refine ⟨by simp [noted, h], by simp [noted, h, notification], Eq.trans ?_ hadv.symm⟩
      simp [noted, h, Noted.announced, htakes, hf, notification]

theorem controlBits_of_not_syn {m : RxEngineMetaData} (h : m.syn = false) :
    controlBits m ≠ .syn ∧ controlBits m ≠ .synAck := by
  unfold controlBits
  rw [h]
  cases m.rst <;> cases m.fin <;> cases m.ack <;> decide

/-- Exactly when an ACK, a FIN or a reset is accounted for. -/
theorem transition_accounted_iff (hsyn : m.metaData.syn = false) :
    (noted m tcpState rxSar (transition b e m tcpState rxSar txSar)).Accounted ↔
      (closesGap m tcpState rxSar = true → fitsLength m rxSar = true) := by
  unfold transition
  cases hc : controlBits m.metaData with
  | ack =>
    have hfin : takesFin m tcpState rxSar = false := by simp [takesFin, hc]
    cases hstate : ackState tcpState with
    | false =>
      have hnot : closesGap m tcpState rxSar = false := by simp [closesGap, hstate]
      refine iff_of_true (accounted_of_still hfin ?_ (.inl ?_)) (by simp [hnot])
      · simp [transitionAck, hstate]
      · simp [transitionAck, hstate]
    | true =>
      have hsame : noted m tcpState rxSar (transitionAck b e m rxSar txSar tcpState) =
          noted m tcpState rxSar (ackPayload b e m rxSar) := by
        simp only [transitionAck, hstate, if_true, noted]
      have hcloses : closesGap m tcpState rxSar =
          (m.metaData.length != 0 && !b.rxDdrBypass && (!inOrder b m rxSar &&
            !outOfOrder b m rxSar && !afterHead b m rxSar && afterRecvd b m rxSar &&
            segmentEndWide m == rxSar.offset.toNat)) := by
        simp [closesGap, hc, hstate, Bool.and_assoc]
      rw [hsame, hcloses]
      exact ackPayload_accounted_iff hfin
  | syn => exact absurd hc (controlBits_of_not_syn hsyn).1
  | synAck => exact absurd hc (controlBits_of_not_syn hsyn).2
  | fin =>
    have hnot : closesGap m tcpState rxSar = false := by simp [closesGap, hc]
    exact iff_of_true (transitionFin_accounted hc) (by simp [hnot])
  | other =>
    have hfin : takesFin m tcpState rxSar = false := by simp [takesFin, hc]
    have hnot : closesGap m tcpState rxSar = false := by simp [closesGap, hc]
    refine iff_of_true (accounted_of_still hfin ?_ ?_) (by simp [hnot])
    · simp only [transitionOther]
      split_ifs <;> rfl
    · simp only [transitionOther]
      split_ifs
      · exact .inl rfl
      · exact .inl rfl
      · exact .inr ⟨true, rfl⟩
      · exact .inl rfl
      · exact .inl rfl

/-- The rx_sar updates of a transition: none, or one for its own session. -/
theorem transition_rxSarUpd (e : RxTcpFsmEnv b) (m : RxFsmMetaData) (tcpState : SessionState)
    (rxSar : RxSarEntry b) (txSar : RxTxSarReply b) :
    (transition b e m tcpState rxSar txSar).rxEng2rxSarUpdReq = [] ∨
      ∃ q : RxSarRecvd, (transition b e m tcpState rxSar txSar).rxEng2rxSarUpdReq = [q] ∧
        q.write = true ∧ q.sessionID = m.sessionID := by
  unfold transition
  cases controlBits m.metaData with
  | ack =>
    simp only [transitionAck, ackPayload, ackPayloadDdr, ackPayloadBypass]
    split_ifs <;> first | exact .inl rfl | exact .inr ⟨_, rfl, rfl, rfl⟩
  | syn =>
    simp only [transitionSyn]
    split_ifs <;> first | exact .inl rfl | exact .inr ⟨_, rfl, rfl, rfl⟩
  | synAck =>
    simp only [transitionSynAck]
    split_ifs <;> first | exact .inl rfl | exact .inr ⟨_, rfl, rfl, rfl⟩
  | fin =>
    simp only [transitionFin]
    split
    · exact .inr ⟨_, rfl, rfl, rfl⟩
    · exact .inl rfl
  | other =>
    simp only [transitionOther]
    split_ifs <;> exact .inl rfl

end Segment

/-! ## What one call does -/

/-- A call of the table leaves every `recvd` and the receive engine's requests alone, or it serves
the oldest of them: a write or a read. -/
theorem rxSarTable_cases (table : SessionID → RxSarEntry b) (i : RxSarTableIn b) :
    ((∀ id, ((rxSarTable b table i).1 id).recvd = (table id).recvd) ∧
      (rxSarTable b table i).2.1.rxEng2rxSarUpdReq = i.rxEng2rxSarUpdReq ∧
      (rxSarTable b table i).2.2.rxSar2rxEngUpdRsp = []) ∨
    ∃ q rest, i.rxEng2rxSarUpdReq = q :: rest ∧
      (rxSarTable b table i).2.1.rxEng2rxSarUpdReq = rest ∧
      (q.write = true ∧ (rxSarTable b table i).2.2.rxSar2rxEngUpdRsp = [] ∧
          (rxSarTable b table i).1 =
            Function.update table q.sessionID ((table q.sessionID).recvdUpdate b q) ∨
        q.write = false ∧ (rxSarTable b table i).2.2.rxSar2rxEngUpdRsp = [table q.sessionID] ∧
          (rxSarTable b table i).1 = table) := by
  unfold rxSarTable
  split
  · exact .inl ⟨fun _ => rfl, rfl, rfl⟩
  · next q _ _ _ =>
      cases hw : q.write with
      | false => exact .inl ⟨fun _ => rfl, rfl, rfl⟩
      | true =>
        refine .inl ⟨fun id => ?_, rfl, rfl⟩
        rcases eq_or_ne id q.sessionID with rfl | hid
        · simp [Function.update_self]
        · simp [Function.update_of_ne hid]
  · next q rest _ _ hq =>
      refine .inr ⟨q, rest, hq, ?_⟩
      cases hw : q.write with
      | false => exact ⟨rfl, .inr ⟨rfl, rfl, rfl⟩⟩
      | true => exact ⟨rfl, .inl ⟨rfl, rfl, rfl⟩⟩
  · exact .inl ⟨fun _ => rfl, rfl, rfl⟩

/-! ## The network -/

variable (b) in
/-- `rxTcpFSM` and the rx_sar table with every FIFO between them.  `handled` records the segments
handled so far, `advanced` how far the table has moved `recvd` of each session. -/
structure NoteNet where
  fsm : RxTcpFsm
  fifo : RxTcpFsmIn b
  rxTable : SessionID → RxSarEntry b
  sarIn : RxSarTableIn b
  handled : List Noted
  advanced : SessionID → Nat

variable (b) in
/-- The segments, the replies of the other tables and the other clients of rx_sar are arbitrary. -/
inductive NoteLabel where
  | arrive (m : RxFsmMetaData)
  | stateTable (s : SessionState)
  | txSarTable (r : RxTxSarReply b)
  | rxAppStreamIf (q : RxSarAppd b)
  | txEngine (id : SessionID)
  | rxTcpFSM (e : RxTcpFsmEnv b)
  | rxSarTable

namespace NoteNet

/-- Any content of the rx_sar table, nothing under way. -/
def init (rxTable : SessionID → RxSarEntry b) : NoteNet b :=
  { fsm := .init, fifo := ⟨[], [], [], []⟩, rxTable, sarIn := {}, handled := [], advanced := fun _ => 0 }

/-- The segment a call of `rxTcpFSM` finishes, if it finishes one. -/
def finished (t : NoteNet b) (out : RxTcpFsmOut b) (fsm : RxTcpFsm) : List Noted :=
  match t.fsm.fsmState, fsm.fsmState, t.fifo.stateTable2rxEngUpdRsp, t.fifo.rxSar2rxEngUpdRsp with
  | .TRANSITION, .LOAD, tcpState :: _, rxSar :: _ => [noted t.fsm.fsmMeta tcpState rxSar out]
  | _, _, _, _ => []

def step (t : NoteNet b) : NoteLabel b → Option (NoteNet b)
  | .arrive m =>
    if m.metaData.syn = false then
      some { t with fifo := { t.fifo with fsmMetaDataFifo := t.fifo.fsmMetaDataFifo ++ [m] } }
    else none
  | .stateTable s =>
    some { t with fifo := { t.fifo with
      stateTable2rxEngUpdRsp := t.fifo.stateTable2rxEngUpdRsp ++ [s] } }
  | .txSarTable r =>
    some { t with fifo := { t.fifo with txSar2rxEngUpdRsp := t.fifo.txSar2rxEngUpdRsp ++ [r] } }
  | .rxAppStreamIf q =>
    some { t with sarIn := { t.sarIn with rxApp2rxSarUpdReq := t.sarIn.rxApp2rxSarUpdReq ++ [q] } }
  | .txEngine id =>
    some { t with sarIn := { t.sarIn with txEng2rxSarReq := t.sarIn.txEng2rxSarReq ++ [id] } }
  | .rxTcpFSM e =>
    let (fsm, fifo, out) := rxTcpFSM b e t.fsm t.fifo
    some { t with
      fsm, fifo
      sarIn := { t.sarIn with
        rxEng2rxSarUpdReq := t.sarIn.rxEng2rxSarUpdReq ++ out.rxEng2rxSarUpdReq }
      handled := t.handled ++ t.finished out fsm }
  | .rxSarTable =>
    let (rxTable, sarIn, out) := rxSarTable b t.rxTable t.sarIn
    some { t with
      rxTable, sarIn
      fifo := { t.fifo with
        rxSar2rxEngUpdRsp := t.fifo.rxSar2rxEngUpdRsp ++ out.rxSar2rxEngUpdRsp }
      advanced := fun id => t.advanced id + advance (t.rxTable id).recvd (rxTable id).recvd }

def announced (t : NoteNet b) (id : SessionID) : Nat :=
  ((t.handled.filter (·.sessionID = id)).map (·.announced)).sum

def fins (t : NoteNet b) (id : SessionID) : Nat :=
  ((t.handled.filter (·.sessionID = id)).map (·.fin.toNat)).sum

/-- How far queued updates move a session's `recvd`. -/
def moves (recvd : BitVec 32) (id : SessionID) (l : List RxSarRecvd) : Nat :=
  ((l.filter fun q => q.write && q.sessionID = id).map fun q => advance recvd q.recvd).sum

/-- How far an update that is still on its way to the table will move it. -/
def waiting (t : NoteNet b) (id : SessionID) : Nat :=
  moves (t.rxTable id).recvd id t.sarIn.rxEng2rxSarUpdReq

/-- The segment about to be handled does not close a gap, or what it announces then fits the length
field. -/
def fits (t : NoteNet b) : NoteLabel b → Bool
  | .rxTcpFSM _ =>
    match t.fifo.stateTable2rxEngUpdRsp, t.fifo.rxSar2rxEngUpdRsp with
    | tcpState :: _, rxSar :: _ =>
      !closesGap t.fsm.fsmMeta tcpState rxSar || fitsLength t.fsm.fsmMeta rxSar
    | _, _ => true
  | _ => true

/-- Every handled segment announces its own advance of `recvd`, and the sums over the run agree. -/
structure Accounts (t : NoteNet b) : Prop where
  each : ∀ x ∈ t.handled, x.Accounted
  total : ∀ id, t.announced id + t.fins id = t.advanced id + t.waiting id

/-! ### The invariant -/

/-- At most one update is on its way. -/
def Writes (l : List RxSarRecvd) : Prop := l = [] ∨ ∃ q : RxSarRecvd, l = [q] ∧ q.write = true

/-- The requests and replies between the two processes: in `TRANSITION` the read of the loaded segment
is queued behind the last update, or answered from a table no update can reach any more. -/
def Exchange (t : NoteNet b) : Prop :=
  match t.fsm.fsmState with
  | .LOAD => t.fifo.rxSar2rxEngUpdRsp = [] ∧ Writes t.sarIn.rxEng2rxSarUpdReq
  | .TRANSITION =>
    (t.fifo.rxSar2rxEngUpdRsp = [] ∧ ∃ ws, Writes ws ∧
      t.sarIn.rxEng2rxSarUpdReq = ws ++ [.read t.fsm.fsmMeta.sessionID]) ∨
    (t.sarIn.rxEng2rxSarUpdReq = [] ∧ ∃ r, t.fifo.rxSar2rxEngUpdRsp = [r] ∧
      r.recvd = (t.rxTable t.fsm.fsmMeta.sessionID).recvd)

structure Inv (t : NoteNet b) : Prop where
  noSyn : ∀ m ∈ t.fifo.fsmMetaDataFifo, m.metaData.syn = false
  loaded : t.fsm.fsmState = .TRANSITION → t.fsm.fsmMeta.metaData.syn = false
  exchange : t.Exchange
  accounts : t.Accounts

theorem inv_init (rxTable : SessionID → RxSarEntry b) : Inv (init rxTable) where
  noSyn := by simp [init]
  loaded := by simp [init, RxTcpFsm.init]
  exchange := ⟨rfl, .inl rfl⟩
  accounts := ⟨by simp [init], fun _ => rfl⟩

theorem moves_append (recvd : BitVec 32) (id : SessionID) (l l' : List RxSarRecvd) :
    moves recvd id (l ++ l') = moves recvd id l + moves recvd id l' := by
  simp [moves, List.filter_append]

theorem moves_read (recvd : BitVec 32) (id sid : SessionID) : moves recvd id [.read sid] = 0 := rfl

theorem announced_append (t : NoteNet b) (x : Noted) (id : SessionID) :
    NoteNet.announced { t with handled := t.handled ++ [x] } id =
      t.announced id + if x.sessionID = id then x.announced else 0 := by
  by_cases h : x.sessionID = id <;> simp [announced, List.filter_append, h]

theorem fins_append (t : NoteNet b) (x : Noted) (id : SessionID) :
    NoteNet.fins { t with handled := t.handled ++ [x] } id =
      t.fins id + if x.sessionID = id then x.fin.toNat else 0 := by
  by_cases h : x.sessionID = id <;> simp [fins, List.filter_append, h]

/-- The update a transition queues moves the session's `recvd` by what the segment did. -/
theorem moves_transition {e : RxTcpFsmEnv b} {m : RxFsmMetaData} {tcpState : SessionState}
    {rxSar : RxSarEntry b} {txSar : RxTxSarReply b} {recvd : BitVec 32} {id : SessionID} {x : Noted}
    (hx : noted m tcpState rxSar (transition b e m tcpState rxSar txSar) = x)
    (hrecvd : m.sessionID = id → rxSar.recvd = recvd) :
    moves recvd id (transition b e m tcpState rxSar txSar).rxEng2rxSarUpdReq =
      if x.sessionID = id then advance x.before x.after else 0 := by
  subst hx
  show _ = if m.sessionID = id then _ else _
  rcases transition_rxSarUpd e m tcpState rxSar txSar with h | ⟨q, h, hw, hsid⟩
  · simp [moves, noted, h, advance_self]
  · by_cases hid : m.sessionID = id
    · simp [moves, noted, h, hw, hsid, hid, hrecvd hid]
    · simp [moves, h, hw, hsid, hid]

theorem total_handled {t : NoteNet b} {x : Noted} {l : List RxSarRecvd} {id : SessionID}
    (hq : t.sarIn.rxEng2rxSarUpdReq = []) (hx : x.Accounted)
    (htotal : t.announced id + t.fins id = t.advanced id + t.waiting id)
    (hmoves : moves (t.rxTable id).recvd id l =
      if x.sessionID = id then advance x.before x.after else 0) :
    NoteNet.announced { t with handled := t.handled ++ [x] } id +
      NoteNet.fins { t with handled := t.handled ++ [x] } id =
        t.advanced id + moves (t.rxTable id).recvd id l := by
  have hwait : t.waiting id = 0 := by
    rw [waiting, hq]
    rfl
  have htot := hx.total
  rw [announced_append, fins_append, hmoves]
  by_cases hid : x.sessionID = id
  · rw [if_pos hid, if_pos hid, if_pos hid]
    omega
  · rw [if_neg hid, if_neg hid, if_neg hid]
    omega

/-! ### Every step keeps it -/

variable {t u : NoteNet b}

theorem inv_rxTcpFSM {e : RxTcpFsmEnv b} (h : Inv t)
    (hfits : t.fits (.rxTcpFSM e) = true) (hs : t.step (.rxTcpFSM e) = some u) : Inv u := by
  simp only [step, Option.some.injEq] at hs
  obtain ⟨hsyn, hload, hex, heach, htotal⟩ := h
  rcases rxTcpFSM_cases e t.fsm t.fifo with hc | ⟨m, rest, hL, hm, hc⟩ |
      ⟨tcpState, states, rxSar, entries, hT, hst, hrx, -, hc⟩
  · -- nothing to do
    have hfin : t.finished ({} : RxTcpFsmOut b) t.fsm = [] := by
      unfold finished
      cases t.fsm.fsmState <;> rfl
    rw [hc] at hs
    simp only [hfin, List.append_nil] at hs
    rw [← hs]
    exact ⟨hsyn, hload, hex, heach, htotal⟩
  · -- a segment is loaded
    have hfin : t.finished (loadRequests b m) ⟨.TRANSITION, m, t.fsm.fsmTxSarRequest || m.metaData.ack⟩ =
        [] := by
      unfold finished
      rw [hL]
    rw [hc] at hs
    simp only [hfin, List.append_nil] at hs
    rw [hm] at hsyn
    unfold Exchange at hex
    rw [hL] at hex
    rw [← hs]
    refine ⟨fun x hx => hsyn x (List.mem_cons_of_mem _ hx), fun _ => hsyn m (List.mem_cons_self ..),
      .inl ⟨hex.1, _, hex.2, rfl⟩, heach, fun id => ?_⟩
    have hwait := moves_append (t.rxTable id).recvd id t.sarIn.rxEng2rxSarUpdReq [.read m.sessionID]
    rw [moves_read, Nat.add_zero] at hwait
    exact (htotal id).trans (congrArg _ hwait.symm)
  · -- the loaded segment is handled; what it read of the tx_sar table does not matter
    generalize takeTxSar b e t.fsm.fsmMeta.metaData t.fifo.txSar2rxEngUpdRsp = taken at hc
    obtain ⟨txSar, replies⟩ := taken
    dsimp only at hc
    have hfin : t.finished (transition b e t.fsm.fsmMeta tcpState rxSar txSar)
        ⟨.LOAD, t.fsm.fsmMeta, false⟩ =
        [noted t.fsm.fsmMeta tcpState rxSar (transition b e t.fsm.fsmMeta tcpState rxSar txSar)] := by
      unfold finished
      rw [hT, hst, hrx]
    have hfit : closesGap t.fsm.fsmMeta tcpState rxSar = true → fitsLength t.fsm.fsmMeta rxSar = true := by
      simp only [fits, hst, hrx, Bool.or_eq_true, Bool.not_eq_true'] at hfits
      intro hclose
      exact hfits.resolve_left (by simp [hclose])
    have hacc : (noted t.fsm.fsmMeta tcpState rxSar
        (transition b e t.fsm.fsmMeta tcpState rxSar txSar)).Accounted :=
      (transition_accounted_iff (hload hT)).mpr hfit
    unfold Exchange at hex
    rw [hT, hrx] at hex
    rcases hex with ⟨hnil, -⟩ | ⟨hq, r, hr, hrecvd⟩
    · cases hnil
    obtain ⟨rfl, rfl⟩ := List.cons.inj hr
    rw [hc] at hs
    simp only [hfin, hq, List.nil_append] at hs
    rw [← hs]
    have hw : Writes (transition b e t.fsm.fsmMeta tcpState rxSar txSar).rxEng2rxSarUpdReq := by
      rcases transition_rxSarUpd e t.fsm.fsmMeta tcpState rxSar txSar with h | ⟨q, h, hw, -⟩
      · exact .inl h
      · exact .inr ⟨q, h, hw⟩
    refine ⟨hsyn, fun h => (by cases h), ⟨rfl, hw⟩, fun x hx => ?_, fun id => ?_⟩
    · rcases List.mem_append.mp hx with hx | hx
      · exact heach x hx
      · rw [List.mem_singleton.mp hx]
        exact hacc
    · exact total_handled hq hacc (htotal id)
        (moves_transition rfl fun hid => by rw [hrecvd, hid])

theorem Writes.of_cons {q : RxSarRecvd} {rest : List RxSarRecvd} (h : Writes (q :: rest)) :
    q.write = true ∧ rest = [] := by
  rcases h with h | ⟨k, h, hk⟩
  · cases h
  · obtain ⟨rfl, rfl⟩ := List.cons.inj h
    exact ⟨hk, rfl⟩

theorem Writes.of_cons_read {ws rest : List RxSarRecvd} {q : RxSarRecvd} {sid : SessionID}
    (h : Writes ws) (hq : q :: rest = ws ++ [.read sid]) :
    q.write = true ∧ rest = [.read sid] ∨ q = .read sid ∧ rest = [] := by
  rcases h with rfl | ⟨k, rfl, hk⟩
  · exact .inr (List.cons.inj hq)
  · obtain ⟨rfl, rfl⟩ := List.cons.inj hq
    exact .inl ⟨hk, rfl⟩

theorem inv_rxSarTable (h : Inv t) (hs : t.step .rxSarTable = some u) : Inv u := by
  simp only [step, Option.some.injEq] at hs
  obtain ⟨hsyn, hload, hex, heach, htotal⟩ := h
  rw [← hs]
  rcases rxSarTable_cases t.rxTable t.sarIn with ⟨hsame, hq, hr⟩ | ⟨q, rest, hq, hestq, hserve⟩
  · -- another client was served
    unfold Exchange at hex
    refine ⟨hsyn, hload, ?_, heach, fun id => ?_⟩
    · unfold Exchange
      dsimp only
      rw [hr, List.append_nil, hq]
      simp only [hsame]
      exact hex
    · show t.announced id + t.fins id =
        t.advanced id + advance _ _ + moves ((rxSarTable b t.rxTable t.sarIn).1 id).recvd id _
      rw [hsame, advance_self, hq]
      exact htotal id
  · rcases hserve with ⟨hw, hr, htab⟩ | ⟨hw, hr, htab⟩
    · -- an update reaches the table
      have hrest : t.fifo.rxSar2rxEngUpdRsp = [] ∧
          (t.fsm.fsmState = .LOAD ∧ rest = [] ∨
            t.fsm.fsmState = .TRANSITION ∧ rest = [.read t.fsm.fsmMeta.sessionID]) := by
        unfold Exchange at hex
        cases hst : t.fsm.fsmState with
        | LOAD =>
          rw [hst, hq] at hex
          exact ⟨hex.1, .inl ⟨rfl, hex.2.of_cons.2⟩⟩
        | TRANSITION =>
          rw [hst, hq] at hex
          rcases hex with ⟨hnil, ws, hws, hl⟩ | ⟨hl, -⟩
          · rcases hws.of_cons_read hl with ⟨-, h⟩ | ⟨h, -⟩
            · exact ⟨hnil, .inr ⟨rfl, h⟩⟩
            · rw [h] at hw
              cases hw
          · cases hl
      have hmoves (x : BitVec 32) (id : SessionID) : moves x id rest = 0 := by
        rcases hrest.2 with ⟨-, h⟩ | ⟨-, h⟩ <;> rw [h] <;> rfl
      refine ⟨hsyn, hload, ?_, heach, fun id => ?_⟩
      · unfold Exchange
        dsimp only
        rw [hr, List.append_nil, hestq]
        rcases hrest.2 with ⟨h, hrest'⟩ | ⟨h, hrest'⟩
        · rw [h, hrest']
          exact ⟨hrest.1, .inl rfl⟩
        · rw [h, hrest']
          exact .inl ⟨hrest.1, [], .inl rfl, rfl⟩
      · show t.announced id + t.fins id =
          t.advanced id + advance (t.rxTable id).recvd ((rxSarTable b t.rxTable t.sarIn).1 id).recvd +
            moves _ id (rxSarTable b t.rxTable t.sarIn).2.1.rxEng2rxSarUpdReq
        have hwait : t.waiting id =
            advance (t.rxTable id).recvd ((rxSarTable b t.rxTable t.sarIn).1 id).recvd := by
          have hcons : q :: rest = [q] ++ rest := rfl
          rw [waiting, hq, hcons, moves_append, hmoves, htab]
          by_cases hid : q.sessionID = id
          · simp [moves, hw, hid, RxSarEntry.recvdUpdate]
          · simp [moves, hid, Function.update_of_ne (Ne.symm hid), advance_self]
        rw [hestq, hmoves, htotal id, hwait]
        rfl
    · -- a read is answered
      have hread : t.fsm.fsmState = .TRANSITION ∧ t.fifo.rxSar2rxEngUpdRsp = [] ∧
          q = .read t.fsm.fsmMeta.sessionID ∧ rest = [] := by
        unfold Exchange at hex
        cases hst : t.fsm.fsmState with
        | LOAD =>
          rw [hst, hq] at hex
          rw [hex.2.of_cons.1] at hw
          cases hw
        | TRANSITION =>
          rw [hst, hq] at hex
          rcases hex with ⟨hnil, ws, hws, hl⟩ | ⟨hl, -⟩
          · rcases hws.of_cons_read hl with ⟨h, -⟩ | ⟨h, hrest⟩
            · rw [h] at hw
              cases hw
            · exact ⟨rfl, hnil, h, hrest⟩
          · cases hl
      obtain ⟨hT, hnil, rfl, rfl⟩ := hread
      refine ⟨hsyn, hload, ?_, heach, fun id => ?_⟩
      · unfold Exchange
        dsimp only
        rw [hT, hr, hestq, hnil, htab]
        exact .inr ⟨rfl, _, rfl, rfl⟩
      · show t.announced id + t.fins id =
          t.advanced id + advance _ _ + moves ((rxSarTable b t.rxTable t.sarIn).1 id).recvd id _
        rw [htab, advance_self, hestq, htotal id, waiting, hq]
        rfl

theorem inv_step {l : NoteLabel b} (h : Inv t) (hfits : t.fits l = true)
    (hs : t.step l = some u) : Inv u := by
  cases l with
  | arrive m =>
    simp only [step] at hs
    split at hs
    · next hm =>
        cases hs
        refine ⟨fun x hx => ?_, h.loaded, h.exchange, h.accounts.each, h.accounts.total⟩
        rcases List.mem_append.mp hx with hx | hx
        · exact h.noSyn x hx
        · rw [List.mem_singleton.mp hx]
          exact hm
    · cases hs
  | rxTcpFSM e => exact inv_rxTcpFSM h hfits hs
  | rxSarTable => exact inv_rxSarTable h hs
  | stateTable | txSarTable | rxAppStreamIf | txEngine =>
    cases hs
    exact { h with accounts := ⟨h.accounts.each, h.accounts.total⟩ }

/-- Every received byte is announced exactly once, in every run in which a closed gap and the block
behind it fit the length field. -/
theorem notifications_account (rxTable : SessionID → RxSarEntry b) (t : NoteNet b)
    (h : Reach step (fun t l => t.fits l = true) (init rxTable) t) : t.Accounts :=
  (h.invariant (P := Inv) (inv_init rxTable) fun _ _ _ hu hok hs => inv_step hu hok hs).accounts

/-! ### Two runs -/

def established : SessionID → RxSarEntry .sample := fun _ =>
  { recvd := 1, appd := 1, winShift := 2, head := 1, offset := 0, gap := false }

/-- A segment from its arrival to the update of the table. -/
def handle (fin : Bool) (seqNumb : BitVec 32) (length : BitVec 16) : List (NoteLabel .sample) :=
  [.arrive { (default : RxFsmMetaData) with
      metaData := { (default : RxEngineMetaData) with ack := true, fin, seqNumb, length } },
    .rxTcpFSM ⟨default, 0, 0⟩, .rxSarTable, .stateTable .ESTABLISHED, .txSarTable default,
    .rxTcpFSM ⟨default, 0, 0⟩, .rxSarTable]

/-- The first of 46 segments comes last. -/
def lateRun : List (NoteLabel .sample) :=
  (List.range 45).flatMap (fun k => handle false (BitVec.ofNat 32 (1461 + 1460 * k)) 1460) ++
    handle false 1 1460

-- 67160 bytes have arrived, and 67160 - 2^16 are announced.
theorem closed_gap_cut :
    ∃ t, run step (init established) lateRun = some t ∧
      t.announced 0 = 1624 ∧ t.advanced 0 = 67160 ∧ ¬ t.Accounts := by
  have h : (run step (init established) lateRun).map (fun t => ((t.announced 0, t.fins 0),
      (t.advanced 0, t.waiting 0))) = some ((1624, 0), (67160, 0)) := by
    decide +kernel
  obtain ⟨t, ht, hx⟩ := Option.map_eq_some_iff.mp h
  obtain ⟨h1, h2⟩ := Prod.mk.inj hx
  obtain ⟨hann, hfins⟩ := Prod.mk.inj h1
  obtain ⟨hadv, hwait⟩ := Prod.mk.inj h2
  refine ⟨t, ht, hann, hadv, fun hacc => ?_⟩
  have := hacc.total 0
  omega

/-- The second of two segments first, and then a FIN with 100 bytes. -/
def finRun : List (NoteLabel .sample) :=
  handle false 1461 1460 ++ handle false 1 1460 ++ handle true 2921 100

theorem notifications_account_fin :
    ∃ t, runIf step (fun t l => t.fits l = true) (init established) finRun = some t ∧
      (t.announced 0, t.fins 0, t.advanced 0) = (3020, 1, 3021) ∧ t.Accounts := by
  have h : (runIf step (fun t l => t.fits l = true) (init established) finRun).map
      (fun t => (t.announced 0, t.fins 0, t.advanced 0)) = some (3020, 1, 3021) := by
    decide +kernel
  obtain ⟨t, ht, hx⟩ := Option.map_eq_some_iff.mp h
  exact ⟨t, ht, hx, notifications_account established t (reach_of_runIf ht)⟩

end NoteNet

end FpgaNetworkStack.Toe
