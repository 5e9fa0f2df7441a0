import FpgaNetworkStack.Lib.Reach
import FpgaNetworkStack.Toe.RxEngine
import FpgaNetworkStack.Toe.RxSarTable
import FpgaNetworkStack.Toe.RxWindow

/-!
# Out-of-order reassembly of one session

The payload branches of `rxTcpFSM` refine the abstract window of `RxWindow`: its pointers are the
32-bit images of the positions, and its room tests are made on the low bits.  The refinement holds
except in two situations that the code does not tell apart from regular ones, see `Regular`.
-/

namespace FpgaNetworkStack.Toe

open Lib

variable {b : Build}

/-! ## One segment -/

/-- The four pointers of an entry are the images of the window's positions. -/
structure Represents (recvd head offset : BitVec 32) (gap : Bool)
    (w : RxWindow (2 ^ b.windowBits)) : Prop where
  recvd : recvd = BitVec.ofNat 32 w.recvd
  head : head = BitVec.ofNat 32 w.head
  gap : gap = w.gap
  offset : w.gap = true → offset = BitVec.ofNat 32 w.offset

/-- The segment lies inside the receive window that ends before `limit`. -/
def InWindow (w : RxWindow (2 ^ b.windowBits)) (limit p len : Nat) : Prop :=
  w.recvd ≤ p ∧ p + len < limit

/-- The segment begins before `recvd`, and so near that its sequence number is not one of the
window. -/
def Old (w : RxWindow (2 ^ b.windowBits)) (p : Nat) : Prop :=
  p < w.recvd ∧ w.recvd + 2 ^ b.windowBits ≤ p + 2 ^ 32

/-- No other position of the window has the sequence number of `p`. -/
def Located (w : RxWindow (2 ^ b.windowBits)) (p : Nat) : Prop :=
  ∀ q, w.recvd ≤ q → q ≤ w.head → BitVec.ofNat 32 p = BitVec.ofNat 32 q → p = q

theorem two_pow_windowBits_lt (b : Build) : 2 ^ b.windowBits < 2 ^ 31 :=
  Nat.pow_lt_pow_right (by decide) (by have := b.windowBits_eq; omega)

variable {r : RxSarEntry b}

theorem freeSpace_toNat {appd head : Nat} (ha : r.appd = BitVec.ofNat _ appd)
    (hh : r.head = BitVec.ofNat 32 head) (hle : appd ≤ head) (hlt : head < appd + 2 ^ b.windowBits) :
    (freeSpace b r).toNat = appd + 2 ^ b.windowBits - 1 - head := by
  have hk : freeSpace b r = BitVec.ofNat _ (appd + 2 ^ b.windowBits - 1 - head) := by
    rw [freeSpace, ha, hh, setWidth_ofNat b.windowBits_le, BitVec.sub_sub, BitVec.sub_eq_iff_eq_add,
      show (1 : BitVec b.windowBits) = BitVec.ofNat _ 1 from rfl, ← BitVec.ofNat_add,
      ← BitVec.ofNat_add, show appd + 2 ^ b.windowBits - 1 - head + (head + 1) =
        appd + 2 ^ b.windowBits by omega, ofNat_add_two_pow]
  rw [hk, BitVec.toNat_ofNat]
  exact Nat.mod_eq_of_lt (by omega)

section Segment

variable {m : RxFsmMetaData} {r : RxSarEntry b} {w : RxWindow (2 ^ b.windowBits)} {appd p : Nat}

/-- A segment whose sequence number equals the image of a position of the window is at that
position. -/
theorem located {len : Nat} (hpos : InWindow w (appd + 2 ^ b.windowBits) p len ∨ Old w p)
    (happd : appd ≤ w.appd) : Located w p := by
  intro q hlo hhi hq
  have h1 := w.appd_le
  have h2 := w.bounded
  have h3 := two_pow_windowBits_lt b
  rcases hpos with ⟨hr, hl⟩ | ⟨hr, hl⟩
  · exact ofNat_inj hq (by omega) (by omega)
  · exact ofNat_inj hq (by omega) (by omega)

/-- What the source compares with `offset`, when the segment starts at the gap. -/
theorem offset_toNat (hr : Represents r.recvd r.head r.offset r.gap w) (hg : w.gap = true)
    (hseq : m.metaData.seqNumb = BitVec.ofNat 32 w.recvd) :
    (segmentEndWide m < r.offset.toNat → w.recvd + m.metaData.length.toNat < w.offset) ∧
    (segmentEndWide m = r.offset.toNat → w.recvd + m.metaData.length.toNat = w.offset) := by
  obtain ⟨h1, h2⟩ := w.opened hg
  have h3 := w.bounded
  have h4 := w.appd_le
  have h5 := two_pow_windowBits_lt b
  have ho := toNat_ofNat_add w.recvd (w.offset - w.recvd) (w := 32) (by omega)
  rw [show w.recvd + (w.offset - w.recvd) = w.offset by omega] at ho
  rw [hr.offset hg, segmentEndWide, hseq]
  split at ho <;> constructor <;> intro h <;> omega

variable (hr : Represents r.recvd r.head r.offset r.gap w) (happd : r.appd = BitVec.ofNat _ appd)
  (hle : appd ≤ w.appd) (hlt : w.head < appd + 2 ^ b.windowBits)
  (hseq : m.metaData.seqNumb = BitVec.ofNat 32 p) (hloc : Located w p)

include hr happd hle hlt in
theorem room (hroom : m.metaData.length.toNat < (freeSpace b r).toNat) :
    w.head + m.metaData.length.toNat < appd + 2 ^ b.windowBits := by
  have h1 := w.appd_le
  have h2 := w.recvd_le_head
  rw [freeSpace_toNat happd hr.head (by omega) hlt] at hroom
  omega

include hr happd hle hlt hseq hloc in
theorem inOrder_delivers (h : inOrder b m r = true) :
    w.gap = false ∧ p = w.recvd ∧ w.recvd + m.metaData.length.toNat < appd + 2 ^ b.windowBits := by
  simp only [inOrder, Bool.and_eq_true, Bool.not_eq_true', beq_iff_eq, decide_eq_true_eq] at h
  obtain ⟨⟨hgap, heq⟩, hroom⟩ := h
  rw [hr.gap] at hgap
  rw [hr.recvd] at heq
  have hhead := w.closed hgap
  have hend := room hr happd hle hlt hroom
  exact ⟨hgap, hloc _ (Nat.le_refl _) (by omega) (hseq.symm.trans heq), by omega⟩

include hr hseq in
theorem outOfOrder_delivers
    (hwin : InWindow w (w.appd + 2 ^ b.windowBits) p m.metaData.length.toNat)
    (h : outOfOrder b m r = true) :
    w.gap = false ∧ w.recvd < p ∧ p + m.metaData.length.toNat < w.appd + 2 ^ b.windowBits := by
  simp only [outOfOrder, Bool.and_eq_true, Bool.not_eq_true', decide_eq_true_eq] at h
  obtain ⟨⟨hgap, hafter⟩, -⟩ := h
  rw [hr.gap] at hgap
  rw [hr.recvd, hseq] at hafter
  have hne : p ≠ w.recvd := by
    rintro rfl
    exact absurd hafter (BitVec.lt_irrefl _)
  have := hwin.1
  exact ⟨hgap, by omega, hwin.2⟩

include hr happd hle hlt hseq hloc in
theorem afterHead_delivers (h : afterHead b m r = true) :
    w.gap = true ∧ p = w.head ∧ w.head + m.metaData.length.toNat < appd + 2 ^ b.windowBits := by
  simp only [afterHead, Bool.and_eq_true, beq_iff_eq, decide_eq_true_eq] at h
  obtain ⟨⟨hgap, heq⟩, hroom⟩ := h
  rw [hr.gap] at hgap
  rw [hr.head] at heq
  exact ⟨hgap, hloc _ w.recvd_le_head (Nat.le_refl _) (hseq.symm.trans heq),
    room hr happd hle hlt hroom⟩

include hr hseq hloc in
theorem afterRecvd_delivers (h : afterRecvd b m r = true) : w.gap = true ∧ p = w.recvd := by
  simp only [afterRecvd, Bool.and_eq_true, beq_iff_eq] at h
  obtain ⟨hgap, heq⟩ := h
  rw [hr.gap] at hgap
  rw [hr.recvd] at heq
  exact ⟨hgap, hloc _ (Nat.le_refl _) w.recvd_le_head (hseq.symm.trans heq)⟩

theorem closing_notification (hr : Represents r.recvd r.head r.offset r.gap w)
    (hseq : m.metaData.seqNumb = BitVec.ofNat 32 w.recvd) :
    w.recvd + (((r.head - m.metaData.seqNumb).setWidth b.windowBits).setWidth 16).toNat ≤ w.head := by
  have h1 := w.recvd_le_head
  have h2 := w.bounded
  have h3 := w.appd_le
  have h4 := two_pow_windowBits_lt b
  have hd := ofNat_sub_toNat (w := 32) h1 (by omega)
  rw [hr.head, hseq, BitVec.toNat_setWidth, BitVec.toNat_setWidth, hd]
  have := Nat.mod_le ((w.head - w.recvd) % 2 ^ b.windowBits) (2 ^ 16)
  have := Nat.mod_le (w.head - w.recvd) (2 ^ b.windowBits)
  omega

/-- What accepting a payload emits, for some new pointers that represent a window reached by
`Deliver`, with a notification that covers no more than what has become readable. -/
structure Accepted (m : RxFsmMetaData) (w : RxWindow (2 ^ b.windowBits)) (p : Nat)
    (o : RxTcpFsmOut b) (w' : RxWindow (2 ^ b.windowBits)) : Prop where
  deliver : w.Deliver p m.metaData.length.toNat w'
  output : ∃ recvd head offset gap notified, o = keepPayload b m recvd head offset gap notified ∧
    Represents recvd head offset gap w' ∧ w.recvd + notified.toNat ≤ w'.recvd

theorem segmentEnd_eq {q : Nat} (h : m.metaData.seqNumb = BitVec.ofNat 32 q) :
    segmentEnd m = BitVec.ofNat 32 (q + m.metaData.length.toNat) := by
  rw [segmentEnd, h, BitVec.ofNat_add, BitVec.ofNat_toNat]

/-- The payload branches refine the abstract window: the payload is dropped, or it is accepted as the
window allows. -/
theorem ackPayloadDdr_refines (hr : Represents r.recvd r.head r.offset r.gap w)
    (happd : r.appd = BitVec.ofNat _ appd) (hle : appd ≤ w.appd)
    (hlt : w.head < appd + 2 ^ b.windowBits) (hlen : 0 < m.metaData.length.toNat)
    (hseq : m.metaData.seqNumb = BitVec.ofNat 32 p) (hloc : Located w p)
    (hwin : outOfOrder b m r = true →
      InWindow w (w.appd + 2 ^ b.windowBits) p m.metaData.length.toNat)
    (hover : afterRecvd b m r = true → segmentEndWide m ≤ r.offset.toNat) :
    ackPayloadDdr b m r = { dropDataFifoOut := [true] } ∨
      ∃ w', Accepted m w p (ackPayloadDdr b m r) w' := by
  unfold ackPayloadDdr
  split
  · next h =>
      obtain ⟨hg, rfl, hroom⟩ := inOrder_delivers hr happd hle hlt hseq hloc h
      refine .inr ⟨_, .extend rfl hg (by omega), _, _, _, _, _, rfl, ⟨?_, ?_, hr.gap, ?_⟩, Nat.le_refl _⟩
      · exact segmentEnd_eq hseq
      · exact segmentEnd_eq hseq
      · exact fun ho => (Bool.false_ne_true (hg.symm.trans ho)).elim
  split
  · next h =>
      obtain ⟨hg, hp, hroom⟩ := outOfOrder_delivers hr hseq (hwin h) h
      refine .inr ⟨_, .premature hg hp hlen (by omega), _, _, _, _, _, rfl, ⟨hr.recvd, ?_, rfl, ?_⟩, ?_⟩
      · exact segmentEnd_eq hseq
      · exact fun _ => hseq
      · exact Nat.le_refl _
  split
  · next h =>
      obtain ⟨hg, rfl, hroom⟩ := afterHead_delivers hr happd hle hlt hseq hloc h
      refine .inr ⟨_, .extendHead rfl hg (by omega), _, _, _, _, _, rfl,
        ⟨hr.recvd, ?_, hr.gap, hr.offset⟩, Nat.le_refl _⟩
      exact segmentEnd_eq hseq
  split
  · next h =>
      obtain ⟨hg, rfl⟩ := afterRecvd_delivers hr hseq hloc h
      obtain ⟨hless, hequal⟩ := offset_toNat hr hg hseq
      split
      · next he =>
          refine .inr ⟨_, .close hg rfl (hequal he), _, _, _, _, _, rfl,
            ⟨hr.head, hr.head, rfl, ?_⟩, closing_notification hr hseq⟩
          exact fun ho => (Bool.false_ne_true ho).elim
      · next he =>
          have hlt' : segmentEndWide m < r.offset.toNat := by
            have := hover h
            omega
          rw [if_pos hlt']
          refine .inr ⟨_, .shrink rfl hg (hless hlt'), _, _, _, _, _, rfl,
            ⟨segmentEnd_eq hseq, hr.head, hr.gap, hr.offset⟩, Nat.le_refl _⟩
  · exact .inl rfl

end Segment

/-! ## Runs of one session -/

section Ring

variable {α : Type}

/-- The payloads that pass the dropper: the `i`-th verdict belongs to the `i`-th payload. -/
def forwarded (payloads : List (List α)) (verdicts : List Bool) : List (List α) :=
  ((payloads.zip verdicts).filter (!·.2)).map (·.1)

/-- The session's buffer after the write commands have taken their payloads in order; a command that
passes the end of the buffer is split there and continues at its start (`rxEngMemWrite`). -/
def ringBuffer (mem : BitVec b.windowBits → α) (cmds : List MmCmd) (packets : List (List α)) :
    BitVec b.windowBits → α :=
  (cmds.zip packets).foldl
    (fun mem c => ringWrite mem (c.1.saddr.setWidth _) (c.2.take c.1.bbt.toNat)) mem

end Ring

/-- `rxTcpFSM` and the rx_sar table, as far as one session is concerned.  The histories hold what was
handed to the dropper, its verdicts and the write commands. -/
structure RxRun (b : Build) (α : Type) where
  fsm : RxTcpFsm
  rxTable : SessionID → RxSarEntry b
  reply : List (RxSarEntry b)
  /-- Position of the first byte of the loaded segment. -/
  position : Nat
  read : Nat
  notified : Nat
  payloads : List (List α)
  verdicts : List Bool
  cmds : List MmCmd

/-- `load`: the state machine takes an ACK segment and the table answers its read; `finish`: it
handles the segment, whatever state and tx_sar reply it gets; `appRead`: one read request of the
application. -/
inductive RxRunLabel (b : Build) where
  | load (m : RxFsmMetaData) (position : Nat)
  | finish (e : RxTcpFsmEnv b) (tcpState : SessionState) (txSar : RxTxSarReply b)
  | appRead (len : BitVec 16)

namespace RxRun

variable {α : Type} (sid : SessionID) (isn : BitVec 32) (stream : Nat → α)

/-- The session right after its SYN or SYN-ACK has initialised the table entry. -/
def init (rxTable : SessionID → RxSarEntry b) (winShift : BitVec 4) : RxRun b α :=
  { fsm := .init
    rxTable := (rxSarTable b rxTable
      { rxEng2rxSarUpdReq := [.initialise sid (isn + 1) (isn + 1) 0 false winShift] }).1
    reply := [], position := 0, read := 0, notified := 0, payloads := [], verdicts := [], cmds := [] }

def entry (t : RxRun b α) : RxSarEntry b := t.rxTable sid

/-- Position of the next byte the application reads; the stream starts at `isn + 1`. -/
def appdPos (t : RxRun b α) : Nat := isn.toNat + 1 + t.read

/-- Position of the next byte expected, in 32-bit order from the application's. -/
def recvdPos (t : RxRun b α) : Nat :=
  t.appdPos isn + ((t.entry sid).recvd - BitVec.ofNat 32 (t.appdPos isn)).toNat

/-- The segment lies in the receive window, or begins before it. -/
def admissible (t : RxRun b α) (m : RxFsmMetaData) (p : Nat) : Bool :=
  decide (isn.toNat + 1 ≤ p) &&
    ((decide (t.recvdPos sid isn ≤ p) &&
        decide (p + m.metaData.length.toNat < t.appdPos isn + b.bufferSize)) ||
      (decide (p < t.recvdPos sid isn) &&
        decide (t.recvdPos sid isn + b.bufferSize ≤ p + 2 ^ 32)))

def payload (m : RxFsmMetaData) (p : Nat) : List (List α) :=
  if m.metaData.length = 0 then [] else [slice stream p m.metaData.length.toNat]

/-- The table after the two accesses of `rx_app_stream_if` for one read request. -/
def appReadTable (rxTable : SessionID → RxSarEntry b) (len : BitVec 16) : SessionID → RxSarEntry b :=
  let first := rxAppStreamIf b ⟨0, false⟩ { appRxDataReq := [⟨sid, len⟩] }
  let rsp := (rxSarTable b rxTable { rxApp2rxSarUpdReq := first.2.2.rxApp2rxSarUpdReq }).2.2
  let second := rxAppStreamIf b first.1 { rxSar2rxAppUpdRsp := rsp.rxSar2rxAppUpdRsp }
  (rxSarTable b rxTable { rxApp2rxSarUpdReq := second.2.2.rxApp2rxSarUpdReq }).1

def step (t : RxRun b α) : RxRunLabel b → Option (RxRun b α)
  | .load m p =>
    if t.fsm.fsmState = .LOAD ∧ m.sessionID = sid ∧ controlBits m.metaData = .ack ∧
        m.metaData.seqNumb = BitVec.ofNat 32 p ∧ t.admissible sid isn m p = true then
      let (fsm, _, out) := rxTcpFSM b ⟨default, 0, 0⟩ t.fsm ⟨[m], [], [], []⟩
      let (_, _, rsp) := rxSarTable b t.rxTable { rxEng2rxSarUpdReq := out.rxEng2rxSarUpdReq }
      some { t with
        fsm, reply := rsp.rxSar2rxEngUpdRsp, position := p
        payloads := t.payloads ++ payload stream m p }
    else none
  | .finish e tcpState txSar =>
    if t.fsm.fsmState = .TRANSITION then
      let (fsm, i, out) := rxTcpFSM b e t.fsm ⟨[], [tcpState], t.reply, [txSar]⟩
      let (rxTable, _, _) := rxSarTable b t.rxTable { rxEng2rxSarUpdReq := out.rxEng2rxSarUpdReq }
      some { t with
        fsm, rxTable, reply := i.rxSar2rxEngUpdRsp
        notified := t.notified + (out.rxEng2rxAppNotification.map (·.length.toNat)).sum
        verdicts := t.verdicts ++ out.dropDataFifoOut
        cmds := t.cmds ++ out.rxBufferWriteCmd }
    else none
  | .appRead len =>
    if len ≠ 0 ∧ t.read + len.toNat ≤ t.notified then
      some { t with rxTable := appReadTable sid t.rxTable len, read := t.read + len.toNat }
    else none

/-- The step does not finish a payload in one of the two situations the code gets wrong: an old
segment that the plain comparison takes for one beyond `recvd`, and a segment that starts at the gap
and passes its end in the 33-bit comparison. -/
def regular (t : RxRun b α) (l : RxRunLabel b) : Bool :=
  match l, t.reply with
  | .finish _ tcpState _, r :: _ =>
    let m := t.fsm.fsmMeta
    decide (m.metaData.length = 0) || !ackState tcpState ||
      (!(decide (t.position < t.recvdPos sid isn) && outOfOrder b m r) &&
        !(afterRecvd b m r && decide (r.offset.toNat < segmentEndWide m)))
  | _, _ => true

/-- The ring buffer of the session, over its initial contents. -/
def ring (t : RxRun b α) (mem : BitVec b.windowBits → α) : BitVec b.windowBits → α :=
  ringBuffer mem t.cmds (forwarded t.payloads t.verdicts)

/-- The application's pointer as a 32-bit sequence number, and distances from it. -/
def appd (t : RxRun b α) : BitVec 32 := isn + 1 + BitVec.ofNat 32 t.read

def dist (t : RxRun b α) (x : BitVec 32) : Nat := (x - t.appd isn).toNat

/-- The entry and the buffer in 32-bit order from the application's pointer. -/
structure Reassembled (mem : BitVec b.windowBits → α) (t : RxRun b α) : Prop where
  appd : (t.entry sid).appd = (t.appd isn).setWidth _
  notified : t.read ≤ t.notified ∧ t.notified ≤ t.read + t.dist isn (t.entry sid).recvd
  noGap : (t.entry sid).gap = false → (t.entry sid).recvd = (t.entry sid).head
  gap : (t.entry sid).gap = true →
    t.dist isn (t.entry sid).recvd < t.dist isn (t.entry sid).offset ∧
      t.dist isn (t.entry sid).offset < t.dist isn (t.entry sid).head
  fits : t.dist isn (t.entry sid).head < b.bufferSize
  delivered : ∀ i < t.dist isn (t.entry sid).recvd,
    t.ring mem ((t.appd isn + BitVec.ofNat 32 i).setWidth _) = stream (t.appdPos isn + i)
  premature : (t.entry sid).gap = true → ∀ i, t.dist isn (t.entry sid).offset ≤ i →
    i < t.dist isn (t.entry sid).head →
    t.ring mem ((t.appd isn + BitVec.ofNat 32 i).setWidth _) = stream (t.appdPos isn + i)

/-! ### The invariant -/

/-- The segment the state machine has loaded, with the entry it was answered; only the application's
pointer may have moved since. -/
structure Loaded (t : RxRun b α) (w : RxWindow (2 ^ b.windowBits)) (r : RxSarEntry b)
    (appd : Nat) : Prop where
  reply : t.reply = [r]
  entry : r = { t.entry sid with appd := BitVec.ofNat _ appd }
  appd_le : appd ≤ w.appd
  fits : w.head < appd + 2 ^ b.windowBits
  session : t.fsm.fsmMeta.sessionID = sid
  ack : controlBits t.fsm.fsmMeta.metaData = .ack
  seqNumb : t.fsm.fsmMeta.metaData.seqNumb = BitVec.ofNat 32 t.position
  position : InWindow w (appd + 2 ^ b.windowBits) t.position t.fsm.fsmMeta.metaData.length.toNat ∨
    Old w t.position

/-- Payloads handed to the dropper for which the verdict is still to come. -/
def unjudged (t : RxRun b α) : List (List α) :=
  match t.fsm.fsmState with
  | .LOAD => []
  | .TRANSITION => payload stream t.fsm.fsmMeta t.position

structure Inv (mem : BitVec b.windowBits → α) (t : RxRun b α) (w : RxWindow (2 ^ b.windowBits)) :
    Prop where
  represents : Represents (t.entry sid).recvd (t.entry sid).head (t.entry sid).offset
    (t.entry sid).gap w
  appd : (t.entry sid).appd = BitVec.ofNat _ w.appd
  read : w.appd = t.appdPos isn
  notified : t.read ≤ t.notified ∧ isn.toNat + 1 + t.notified ≤ w.recvd
  stored : w.Stored (t.ring mem) stream
  loaded : t.fsm.fsmState = .TRANSITION → ∃ r appd, t.Loaded sid w r appd
  judged : ∃ done, t.payloads = done ++ t.unjudged stream ∧ done.length = t.verdicts.length ∧
    t.cmds.length = (forwarded done t.verdicts).length

/-- The verdicts and the write commands are in step with the payloads. -/
def Judged (stream : Nat → α) (t : RxRun b α) : Prop :=
  ∃ done, t.payloads = done ++ t.unjudged stream ∧ done.length = t.verdicts.length ∧
    t.cmds.length = (forwarded done t.verdicts).length

/-- The invariant without what it says about the loaded segment. -/
structure Base (mem : BitVec b.windowBits → α) (t : RxRun b α) (w : RxWindow (2 ^ b.windowBits)) :
    Prop where
  represents : Represents (t.entry sid).recvd (t.entry sid).head (t.entry sid).offset
    (t.entry sid).gap w
  appd : (t.entry sid).appd = BitVec.ofNat _ w.appd
  read : w.appd = t.appdPos isn
  notified : t.read ≤ t.notified ∧ isn.toNat + 1 + t.notified ≤ w.recvd
  stored : w.Stored (t.ring mem) stream
  judged : t.Judged stream

variable {sid isn stream}

theorem forwarded_append (payloads payloads' : List (List α)) (verdicts verdicts' : List Bool)
    (h : payloads.length = verdicts.length) :
    forwarded (payloads ++ payloads') (verdicts ++ verdicts') =
      forwarded payloads verdicts ++ forwarded payloads' verdicts' := by
  simp [forwarded, List.zip_append h]

theorem forwarded_prefix (payloads payloads' : List (List α)) (verdicts : List Bool)
    (h : payloads.length = verdicts.length) :
    forwarded (payloads ++ payloads') verdicts = forwarded payloads verdicts := by
  have := forwarded_append payloads payloads' verdicts [] h
  simpa [forwarded] using this

theorem ringBuffer_append (mem : BitVec b.windowBits → α) (cmds cmds' : List MmCmd)
    (packets packets' : List (List α)) (h : cmds.length = packets.length) :
    ringBuffer mem (cmds ++ cmds') (packets ++ packets') =
      ringBuffer (ringBuffer mem cmds packets) cmds' packets' := by
  simp [ringBuffer, List.zip_append h]

variable {m : RxFsmMetaData}

theorem ringBuffer_writeCmd (mem : BitVec b.windowBits → α) {p : Nat}
    (hseq : m.metaData.seqNumb = BitVec.ofNat 32 p) :
    ringBuffer mem [writeCmd b m] [slice stream p m.metaData.length.toNat] =
      ringWrite mem (BitVec.ofNat _ p) (slice stream p m.metaData.length.toNat) := by
  have hlen : (m.metaData.length.setWidth 23).toNat = m.metaData.length.toNat := by
    have := m.metaData.length.isLt
    rw [BitVec.toNat_setWidth, Nat.mod_eq_of_lt (by omega)]
  have haddr : (pkgAddr b m.sessionID (m.metaData.seqNumb.setWidth _)).setWidth b.windowBits =
      BitVec.ofNat _ p := by
    rw [hseq, setWidth_ofNat b.windowBits_le, pkgAddr, setWidth_ofNat b.windowBits_le]
    apply BitVec.eq_of_toNat_eq
    simp [Build.bufferSize]
  simp only [ringBuffer, writeCmd, MmCmd.new, List.zip_cons_cons, List.zip_nil_left,
    List.foldl_cons, List.foldl_nil, hlen, haddr]
  rw [List.take_of_length_le (by simp)]

/-- What a finished ACK segment leaves in the table, the histories and the notifications. -/
structure Effect (b : Build) where
  updates : List RxSarRecvd
  notified : List AppNotification
  drops : List Bool
  cmds : List MmCmd

def effect (o : RxTcpFsmOut b) : Effect b :=
  ⟨o.rxEng2rxSarUpdReq, o.rxEng2rxAppNotification, o.dropDataFifoOut, o.rxBufferWriteCmd⟩

/-- The state after the loaded segment has had the effect `o`. -/
def apply (t : RxRun b α) (o : Effect b) : RxRun b α :=
  { t with
    fsm := ⟨.LOAD, t.fsm.fsmMeta, false⟩
    rxTable := (rxSarTable b t.rxTable { rxEng2rxSarUpdReq := o.updates }).1
    reply := []
    notified := t.notified + (o.notified.map (·.length.toNat)).sum
    verdicts := t.verdicts ++ o.drops
    cmds := t.cmds ++ o.cmds }

variable {t u : RxRun b α}

theorem Judged.load (h : t.Judged stream) (hL : t.fsm.fsmState = .LOAD) (hT : u.fsm.fsmState = .TRANSITION)
    (hpay : u.payloads = t.payloads ++ payload stream u.fsm.fsmMeta u.position)
    (hverdicts : u.verdicts = t.verdicts) (hcmds : u.cmds = t.cmds) :
    u.Judged stream ∧ ∀ mem, u.ring mem = t.ring mem := by
  obtain ⟨done, hdone, hlen, hcmd⟩ := h
  simp only [unjudged, hL, List.append_nil] at hdone
  refine ⟨⟨done, ?_, ?_, ?_⟩, fun mem => ?_⟩
  · rw [hpay, hdone, unjudged, hT]
  · rw [hverdicts, hlen]
  · rw [hcmds, hverdicts, hcmd]
  · rw [ring, ring, hpay, hverdicts, hcmds, forwarded_prefix _ _ _ (by rw [hdone]; exact hlen)]

/-- A segment that writes nothing, for want of a payload or because it is dropped. -/
theorem Judged.drop (h : t.Judged stream) (hT : t.fsm.fsmState = .TRANSITION)
    (updates : List RxSarRecvd) (notified : List AppNotification) {drops : List Bool}
    (hdrops : drops = if t.fsm.fsmMeta.metaData.length = 0 then [] else [true]) :
    (t.apply ⟨updates, notified, drops, []⟩).Judged stream ∧
      ∀ mem, (t.apply ⟨updates, notified, drops, []⟩).ring mem = t.ring mem := by
  obtain ⟨done, hpay, hlen, hcmd⟩ := h
  simp only [unjudged, hT] at hpay
  have hnone : forwarded (payload stream t.fsm.fsmMeta t.position) drops = [] := by
    rw [hdrops, payload]
    split <;> simp [forwarded]
  have hpaylen : (payload stream t.fsm.fsmMeta t.position).length = drops.length := by
    rw [hdrops, payload]
    split <;> rfl
  have hfwd : forwarded t.payloads (t.verdicts ++ drops) = forwarded t.payloads t.verdicts := by
    rw [hpay, forwarded_append _ _ _ _ hlen, hnone, forwarded_prefix _ _ _ hlen, List.append_nil]
  refine ⟨⟨t.payloads, ?_, ?_, ?_⟩, fun mem => ?_⟩
  · simp [apply, unjudged]
  · simp [apply, hpay, hlen, hpaylen]
  · rw [hpay, forwarded_prefix _ _ _ hlen] at hfwd
    simp [apply, hpay, hfwd, hcmd]
  · simp [ring, apply, hfwd]

theorem Judged.keep (h : t.Judged stream) (hT : t.fsm.fsmState = .TRANSITION)
    (hlen0 : t.fsm.fsmMeta.metaData.length ≠ 0)
    (hseq : t.fsm.fsmMeta.metaData.seqNumb = BitVec.ofNat 32 t.position) (updates : List RxSarRecvd)
    (notified : List AppNotification) :
    (t.apply ⟨updates, notified, [false], [writeCmd b t.fsm.fsmMeta]⟩).Judged stream ∧
      ∀ mem, (t.apply ⟨updates, notified, [false], [writeCmd b t.fsm.fsmMeta]⟩).ring mem =
        ringWrite (t.ring mem) (BitVec.ofNat _ t.position)
          (slice stream t.position t.fsm.fsmMeta.metaData.length.toNat) := by
  obtain ⟨done, hpay, hlen, hcmd⟩ := h
  simp only [unjudged, hT, payload, if_neg hlen0] at hpay
  have hfwd : forwarded t.payloads (t.verdicts ++ [false]) = forwarded t.payloads t.verdicts ++
      [slice stream t.position t.fsm.fsmMeta.metaData.length.toNat] := by
    rw [hpay, forwarded_append _ _ _ _ hlen, forwarded_prefix _ _ _ hlen]
    rfl
  have hcmd' : t.cmds.length = (forwarded t.payloads t.verdicts).length := by
    rw [hpay, forwarded_prefix _ _ _ hlen, hcmd]
  refine ⟨⟨t.payloads, ?_, ?_, ?_⟩, fun mem => ?_⟩
  · simp [apply, unjudged]
  · simp [apply, hpay, hlen]
  · simp [apply, hfwd, hcmd']
  · simp only [ring, apply, hfwd]
    rw [ringBuffer_append _ _ _ _ _ hcmd', ringBuffer_writeCmd _ hseq]

variable {mem : BitVec b.windowBits → α} {w w' : RxWindow (2 ^ b.windowBits)}

theorem Inv.base (h : Inv sid isn stream mem t w) : Base sid isn stream mem t w :=
  { h with }

theorem Base.inv (h : Base sid isn stream mem t w)
    (hload : t.fsm.fsmState = .TRANSITION → ∃ r appd, t.Loaded sid w r appd) :
    Inv sid isn stream mem t w :=
  { h with loaded := hload }

/-- The position read off the stored `recvd` is the window's. -/
theorem Base.recvdPos_eq (h : Base sid isn stream mem t w) : t.recvdPos sid isn = w.recvd := by
  have h1 := w.appd_le
  have h2 := w.bounded
  have h3 := w.recvd_le_head
  have h4 := two_pow_windowBits_lt b
  rw [recvdPos, h.represents.recvd, ← h.read, ofNat_sub_toNat h1 (by omega)]
  omega

theorem inv_init (mem : BitVec b.windowBits → α) (rxTable : SessionID → RxSarEntry b)
    (winShift : BitVec 4) :
    Inv sid isn stream mem (init sid isn rxTable winShift)
      (.start (isn.toNat + 1) (Nat.two_pow_pos _)) := by
  have hentry : (init (α := α) sid isn rxTable winShift).entry sid =
      (rxTable sid).recvdUpdate b (.initialise sid (isn + 1) (isn + 1) 0 false winShift) := by
    rw [entry, init, rxSarTable_recvdWrite _ rfl]
    exact Function.update_self ..
  have hisn : isn + 1 = BitVec.ofNat 32 (isn.toNat + 1) := by
    rw [BitVec.ofNat_add, BitVec.ofNat_toNat, BitVec.setWidth_eq]
    rfl
  refine ⟨⟨?_, ?_, ?_, ?_⟩, ?_, rfl, ⟨Nat.le_refl _, Nat.le_refl _⟩, ⟨?_, ?_⟩, ?_, [], rfl, rfl, rfl⟩
  · rw [hentry]
    exact hisn
  · rw [hentry]
    exact hisn
  · rw [hentry]
    rfl
  · intro h
    cases h
  · rw [hentry, ← setWidth_ofNat b.windowBits_le]
    exact congrArg (BitVec.setWidth b.windowBits) hisn
  · exact .empty _ _ (Nat.le_refl _)
  · intro h
    cases h
  · intro h
    cases h

theorem Inv.load {p : Nat} (h : Inv sid isn stream mem t w)
    (hs : t.step sid isn stream (.load m p) = some u) : u.Loaded sid w (t.entry sid) w.appd := by
  simp only [step] at hs
  split at hs
  · next hg =>
      obtain ⟨hL, hid, hack, hseq, hadm⟩ := hg
      simp only [rxTcpFSM, hL, loadRequests, hid, rxSarTable, RxSarRecvd.read, Bool.false_eq_true,
        if_false, Option.some.injEq] at hs
      subst hs
      refine ⟨rfl, ?_, Nat.le_refl _, w.bounded, hid, hack, hseq, ?_⟩
      · rw [← h.appd]
        rfl
      · have hrp := h.base.recvdPos_eq
        simp only [admissible, hrp, ← h.read, Build.bufferSize, Bool.and_eq_true, Bool.or_eq_true,
          decide_eq_true_eq] at hadm
        exact hadm.2
  · cases hs

theorem inv_load {p : Nat} (h : Inv sid isn stream mem t w)
    (hs : t.step sid isn stream (.load m p) = some u) : Inv sid isn stream mem u w := by
  have hload := h.load hs
  simp only [step] at hs
  split at hs
  · next hg =>
      obtain ⟨hL, hid, -, -, -⟩ := hg
      simp only [rxTcpFSM, hL, loadRequests, hid, rxSarTable, RxSarRecvd.read, Bool.false_eq_true,
        if_false, Option.some.injEq] at hs
      obtain ⟨hrep, happd, hread, hnot, hst, hjudged⟩ := h.base
      subst hs
      have hjudged' := hjudged.load (u := { t with
          fsm := ⟨.TRANSITION, m, t.fsm.fsmTxSarRequest || m.metaData.ack⟩
          reply := [t.rxTable sid], position := p
          payloads := t.payloads ++ payload stream m p }) hL rfl rfl rfl rfl
      obtain ⟨hjudged', hring⟩ := hjudged'
      refine Base.inv ⟨hrep, happd, hread, hnot, ?_, hjudged'⟩ fun _ => ⟨_, _, hload⟩
      rw [hring]
      exact hst
  · cases hs

variable {len : BitVec 16}

theorem appRead_eq (hs : t.step sid isn stream (.appRead len) = some u) :
    t.read + len.toNat ≤ t.notified ∧
      u = { t with rxTable := appReadTable sid t.rxTable len, read := t.read + len.toNat } ∧
      u.entry sid = { t.entry sid with appd := (t.entry sid).appd + len.setWidth b.windowBits } := by
  simp only [step] at hs
  split at hs
  · next hg =>
      cases hs
      refine ⟨hg.2, rfl, ?_⟩
      rw [entry, appReadTable, rxAppStreamIf_advances _ hg.1]
      exact Function.update_self ..
  · cases hs

/-- The entry that was answered stays right when the application's pointer moves. -/
theorem Loaded.appRead {appd : Nat}
    (h : t.Loaded sid w r appd) (hs : t.step sid isn stream (.appRead len) = some u)
    (hle : w.appd + len.toNat ≤ w.recvd) : u.Loaded sid (w.take len.toNat hle) r appd := by
  obtain ⟨-, hu, hentry⟩ := appRead_eq hs
  have happd := h.appd_le
  have hr := h.entry
  refine ⟨?_, ?_, ?_, h.fits, ?_, ?_, ?_, ?_⟩
  · rw [hu]
    exact h.reply
  · rw [hentry]
    exact hr
  · simp only [RxWindow.take]
    omega
  · rw [hu]
    exact h.session
  · rw [hu]
    exact h.ack
  · rw [hu]
    exact h.seqNumb
  · rw [hu]
    exact h.position

theorem Base.appRead (h : Base sid isn stream mem t w)
    (hs : t.step sid isn stream (.appRead len) = some u) :
    ∃ hle : w.appd + len.toNat ≤ w.recvd, Base sid isn stream mem u (w.take len.toNat hle) := by
  obtain ⟨hle, hu, hentry⟩ := appRead_eq hs
  obtain ⟨hrep, happd, hread, hnot, hst, hjudged⟩ := h
  have hpos : t.appdPos isn = isn.toNat + 1 + t.read := rfl
  have hroom : w.appd + len.toNat ≤ w.recvd := by omega
  refine ⟨hroom, ?_, ?_, ?_, ?_, ?_, ?_⟩
  · rw [hentry]
    exact { hrep with }
  · rw [hentry]
    simp only [happd, RxWindow.take, BitVec.ofNat_add, BitVec.ofNat_toNat]
  · rw [hu]
    simp only [RxWindow.take, appdPos] at hread ⊢
    omega
  · rw [hu]
    exact ⟨hle, hnot.2⟩
  · rw [hu]
    exact hst.take
  · rw [hu]
    exact hjudged

theorem inv_appRead (h : Inv sid isn stream mem t w)
    (hs : t.step sid isn stream (.appRead len) = some u) :
    ∃ hle : w.appd + len.toNat ≤ w.recvd, Inv sid isn stream mem u (w.take len.toNat hle) := by
  obtain ⟨-, hu, -⟩ := appRead_eq hs
  obtain ⟨hroom, hbase⟩ := h.base.appRead hs
  refine ⟨hroom, hbase.inv fun hT => ?_⟩
  obtain ⟨r, appd, hr⟩ := h.loaded (by rw [hu] at hT; exact hT)
  exact ⟨r, appd, hr.appRead hs hroom⟩

/-- A finished ACK segment: nothing without payload, else dropped or accepted. -/
theorem ackEffect_cases
    {appd p : Nat} (hb : b.rxDdrBypass = false) (hr : Represents r.recvd r.head r.offset r.gap w)
    (happd : r.appd = BitVec.ofNat _ appd) (hle : appd ≤ w.appd)
    (hlt : w.head < appd + 2 ^ b.windowBits) (hseq : m.metaData.seqNumb = BitVec.ofNat 32 p)
    (hloc : Located w p) (e : RxTcpFsmEnv b) (tcpState : SessionState) (txSar : RxTxSarReply b)
    (hreg : m.metaData.length = 0 ∨ ackState tcpState = false ∨
      ((outOfOrder b m r = true → InWindow w (w.appd + 2 ^ b.windowBits) p m.metaData.length.toNat) ∧
        (afterRecvd b m r = true → segmentEndWide m ≤ r.offset.toNat))) :
    let o := effect (transitionAck b e m r txSar tcpState)
    (m.metaData.length = 0 ∧ o = ⟨[], [], [], []⟩) ∨
    (m.metaData.length ≠ 0 ∧ o = ⟨[], [], [true], []⟩) ∨
    (m.metaData.length ≠ 0 ∧ ∃ w' p', o = effect p' ∧ Accepted m w p p' w') := by
  intro o
  by_cases hl : m.metaData.length = 0
  · left
    refine ⟨hl, ?_⟩
    simp only [o, transitionAck]
    cases ackState tcpState <;> simp [effect, ackPayload, hl]
  · right
    cases hs : ackState tcpState with
    | false =>
      left
      refine ⟨hl, ?_⟩
      simp only [o, transitionAck, hs, Bool.false_eq_true, if_false, effect, if_neg hl]
    | true =>
      have ho : o = effect (ackPayloadDdr b m r) := by
        simp only [o, transitionAck, hs, if_true, effect, ackPayload, hb, Bool.false_eq_true,
          if_neg hl, if_false]
      obtain ⟨hwin, hover⟩ := (hreg.resolve_left hl).resolve_left (by simp [hs])
      have hlen : 0 < m.metaData.length.toNat := by
        rcases Nat.eq_zero_or_pos m.metaData.length.toNat with h0 | h0
        · exact absurd (BitVec.eq_of_toNat_eq h0) hl
        · exact h0
      rcases ackPayloadDdr_refines hr happd hle hlt hlen hseq hloc hwin hover with hdrop | ⟨w', hacc⟩
      · left
        exact ⟨hl, by rw [ho, hdrop]; rfl⟩
      · right
        exact ⟨hl, w', _, ho, hacc⟩

theorem effect_cases {appd : Nat} (hb : b.rxDdrBypass = false)
    (hr : Represents (t.entry sid).recvd (t.entry sid).head (t.entry sid).offset (t.entry sid).gap w)
    (hrecvd : t.recvdPos sid isn = w.recvd) (hload : t.Loaded sid w r appd) (e : RxTcpFsmEnv b)
    (tcpState : SessionState) (txSar txSar' : RxTxSarReply b)
    (hreg : t.regular sid isn (.finish e tcpState txSar) = true) :
    let m := t.fsm.fsmMeta
    let o := effect (transition b e m tcpState r txSar')
    (m.metaData.length = 0 ∧ o = ⟨[], [], [], []⟩) ∨
    (m.metaData.length ≠ 0 ∧ o = ⟨[], [], [true], []⟩) ∨
    (m.metaData.length ≠ 0 ∧ ∃ w' p', o = effect p' ∧ Accepted m w t.position p' w') := by
  intro m o
  have ho : o = effect (transitionAck b e m r txSar' tcpState) := by
    simp only [o, m, transition, hload.ack]
  have hreg' : m.metaData.length = 0 ∨ ackState tcpState = false ∨
      ((w.recvd ≤ t.position ∨ outOfOrder b m r = false) ∧
        (afterRecvd b m r = false ∨ segmentEndWide m ≤ r.offset.toNat)) := by
    simpa [regular, hload.reply, hrecvd, m, or_assoc] using hreg
  have hle := hload.appd_le
  rw [ho]
  apply ackEffect_cases hb (by rw [hload.entry]; exact hr) (by rw [hload.entry]) hle hload.fits
    hload.seqNumb (located hload.position hle)
  rcases hreg' with hl | hs | ⟨hwin, hover⟩
  · exact .inl hl
  · exact .inr (.inl hs)
  · refine .inr (.inr ⟨fun ho => ?_, fun ha => hover.resolve_left ?_⟩)
    · have hafter := hwin.resolve_right fun hn => Bool.false_ne_true (hn.symm.trans ho)
      -- a segment beyond `recvd` is not an old one
      rcases hload.position with ⟨h1, h2⟩ | ⟨h1, -⟩
      · exact ⟨h1, by omega⟩
      · omega
    · exact fun hn => Bool.false_ne_true (hn.symm.trans ha)

theorem inv_unchanged {drops : List Bool} (h : Base sid isn stream mem t w) (hT : t.fsm.fsmState = .TRANSITION)
    (hdrops : drops = if t.fsm.fsmMeta.metaData.length = 0 then [] else [true]) :
    Inv sid isn stream mem (t.apply ⟨[], [], drops, []⟩) w := by
  obtain ⟨hrep, happd, hread, hnot, hst, hjudged⟩ := h
  obtain ⟨hjudged', hring⟩ := hjudged.drop hT [] [] hdrops
  refine Base.inv ⟨hrep, happd, hread, hnot, ?_, hjudged'⟩ fun hL => ?_
  · rw [hring]
    exact hst
  · cases hL

theorem inv_accepted {o : RxTcpFsmOut b} (h : Base sid isn stream mem t w) (hT : t.fsm.fsmState = .TRANSITION)
    (hid : t.fsm.fsmMeta.sessionID = sid)
    (hseq : t.fsm.fsmMeta.metaData.seqNumb = BitVec.ofNat 32 t.position)
    (hlen0 : t.fsm.fsmMeta.metaData.length ≠ 0) (hacc : Accepted t.fsm.fsmMeta w t.position o w') :
    Inv sid isn stream mem (t.apply (effect o)) w' := by
  obtain ⟨hrep, happd, hread, hnot, hst, hjudged⟩ := h
  obtain ⟨hdel, recvd, head, offset, gap, notified, rfl, hrep', hnotified⟩ := hacc
  have hentry : (t.apply (effect (keepPayload b t.fsm.fsmMeta recvd head offset gap notified))).entry sid =
      (t.entry sid).recvdUpdate b (.update sid recvd head offset gap) := by
    simp only [entry, apply, effect, keepPayload, hid]
    rw [rxSarTable_recvdWrite _ rfl]
    exact Function.update_self ..
  obtain ⟨hjudged', hring⟩ := hjudged.keep hT hlen0 hseq
    [.update t.fsm.fsmMeta.sessionID recvd head offset gap] [notification t.fsm.fsmMeta notified false]
  refine Base.inv ⟨?_, ?_, ?_, ?_, ?_, hjudged'⟩ fun hL => ?_
  · rw [hentry]
    exact hrep'
  · rw [hentry, hdel.appd_eq]
    exact happd
  · rw [hdel.appd_eq]
    exact hread
  · have h1 := hnot.1
    have h2 := hnot.2
    simp only [apply, effect, keepPayload, notification, List.map_cons, List.map_nil, List.sum_cons,
      List.sum_nil]
    omega
  · have hring' : (t.apply (effect (keepPayload b t.fsm.fsmMeta recvd head offset gap notified))).ring mem =
        ringWrite (t.ring mem) (BitVec.ofNat _ t.position)
          (slice stream t.position t.fsm.fsmMeta.metaData.length.toNat) := hring mem
    rw [hring']
    exact hst.deliver hdel
  · cases hL

theorem inv_finish {e : RxTcpFsmEnv b} {tcpState : SessionState}
    {txSar : RxTxSarReply b} (hb : b.rxDdrBypass = false) (h : Inv sid isn stream mem t w)
    (hreg : t.regular sid isn (.finish e tcpState txSar) = true)
    (hs : t.step sid isn stream (.finish e tcpState txSar) = some u) :
    ∃ w', Inv sid isn stream mem u w' := by
  simp only [step] at hs
  split at hs
  · next hT =>
      obtain ⟨r, appd, hload⟩ := h.loaded hT
      have hu : u = t.apply (effect (transition b e t.fsm.fsmMeta tcpState r
          (takeTxSar b e t.fsm.fsmMeta.metaData [txSar]).1)) := by
        simp only [rxTcpFSM, hT, hload.reply, List.isEmpty_cons, Bool.and_false,
          Option.some.injEq] at hs
        exact hs.symm
      rw [hu]
      rcases effect_cases hb h.represents h.base.recvdPos_eq hload e tcpState txSar
          (takeTxSar b e t.fsm.fsmMeta.metaData [txSar]).1 hreg with
        ⟨hl, ho⟩ | ⟨hl, ho⟩ | ⟨hl, w', p', ho, hacc⟩
      · rw [ho]
        exact ⟨w, inv_unchanged h.base hT (by rw [if_pos hl])⟩
      · rw [ho]
        exact ⟨w, inv_unchanged h.base hT (by rw [if_neg hl])⟩
      · rw [ho]
        exact ⟨w', inv_accepted h.base hT hload.session hload.seqNumb hl hacc⟩
  · cases hs

theorem appd_eq (t : RxRun b α) : t.appd isn = BitVec.ofNat 32 (t.appdPos isn) := by
  rw [appd, appdPos, BitVec.ofNat_add, BitVec.ofNat_add, BitVec.ofNat_toNat, BitVec.setWidth_eq]
  rfl

/-- The invariant, read in 32-bit order from the application's pointer. -/
theorem Inv.reassembled (h : Inv sid isn stream mem t w) : Reassembled sid isn stream mem t := by
  obtain ⟨hrep, happd, hread, hnot, hst, -, -⟩ := h
  have h1 := w.appd_le
  have h2 := w.bounded
  have h3 := w.recvd_le_head
  have h4 := two_pow_windowBits_lt b
  have hpos : t.appdPos isn = isn.toNat + 1 + t.read := rfl
  have hdist {n : Nat} (hlo : w.appd ≤ n) (hhi : n ≤ w.head) :
      t.dist isn (BitVec.ofNat 32 n) = n - w.appd := by
    rw [dist, appd_eq, ← hread]
    exact ofNat_sub_toNat hlo (by omega)
  have hcell (i : Nat) : (t.appd isn + BitVec.ofNat 32 i).setWidth b.windowBits =
      BitVec.ofNat _ (w.appd + i) := by
    rw [appd_eq, ← hread, ← BitVec.ofNat_add, setWidth_ofNat b.windowBits_le]
  have hrecvd := hdist h1 h3
  have hhead := hdist (Nat.le_trans h1 h3) (Nat.le_refl _)
  rw [← hrep.recvd] at hrecvd
  rw [← hrep.head] at hhead
  refine ⟨?_, ⟨hnot.1, ?_⟩, ?_, ?_, ?_, ?_, ?_⟩
  · rw [happd, appd_eq, setWidth_ofNat b.windowBits_le, hread]
  · rw [hrecvd]
    omega
  · intro hg
    rw [hrep.recvd, hrep.head, w.closed (hrep.gap ▸ hg)]
  · intro hg
    have hg' : w.gap = true := hrep.gap ▸ hg
    obtain ⟨h5, h6⟩ := w.opened hg'
    rw [hrecvd, hhead, hrep.offset hg', hdist (by omega) (by omega)]
    omega
  · rw [hhead, Build.bufferSize]
    omega
  · intro i hi
    rw [hcell, ← hread]
    exact hst.1 _ (by omega) (by omega)
  · intro hg i hlo hhi
    have hg' : w.gap = true := hrep.gap ▸ hg
    obtain ⟨h5, h6⟩ := w.opened hg'
    rw [hrep.offset hg', hdist (by omega) (by omega)] at hlo
    rw [hcell, ← hread]
    exact hst.2 hg' _ (by omega) (by omega)

/-- Reassembly of one session, in every run without one of the two irregular steps and also across
the wrap of the sequence numbers. -/
theorem reassembly (hb : b.rxDdrBypass = false) (sid : SessionID) (isn : BitVec 32)
    (stream : Nat → α) (mem : BitVec b.windowBits → α) (rxTable : SessionID → RxSarEntry b)
    (winShift : BitVec 4) (t : RxRun b α)
    (h : Reach (step sid isn stream) (fun t l => t.regular sid isn l = true)
      (init sid isn rxTable winShift) t) :
    Reassembled sid isn stream mem t := by
  have hinv : ∃ w, Inv sid isn stream mem t w := by
    refine h.invariant (P := fun t => ∃ w, Inv sid isn stream mem t w)
      ⟨_, inv_init mem rxTable winShift⟩ ?_
    rintro u l v ⟨w, hw⟩ hreg hs
    cases l with
    | load m p => exact ⟨w, inv_load hw hs⟩
    | finish e tcpState txSar => exact inv_finish hb hw hreg hs
    | appRead len =>
      obtain ⟨hle, hw'⟩ := inv_appRead hw hs
      exact ⟨_, hw'⟩
  obtain ⟨w, hw⟩ := hinv
  exact hw.reassembled

/-! ### Two runs -/

def ackSegment (seqNumb : BitVec 32) (length : BitVec 16) : RxFsmMetaData :=
  { (default : RxFsmMetaData) with
    metaData := { (default : RxEngineMetaData) with ack := true, seqNumb, length } }

/-- A whole segment at position `p`, which is its sequence number while `p < 2 ^ 32`. -/
def handle (p : Nat) (length : BitVec 16) : List (RxRunLabel .sample) :=
  [.load (ackSegment (BitVec.ofNat 32 p) length) p, .finish ⟨default, 0, 0⟩ .ESTABLISHED default]

/-- Ten bytes up to the wrap of the sequence numbers, and the same segment once more. -/
def wrapRun : List (RxRunLabel .sample) := handle 4294967286 10 ++ handle 4294967286 10

-- The duplicate is taken for a block beyond `recvd`, and `offset` falls behind `recvd`.
theorem wrapped_duplicate_opens_gap :
    ∃ t, run (step 0 4294967285 fun n => n % 256) (init 0 4294967285 (fun _ => default) 0) wrapRun =
        some t ∧
      (t.entry 0).gap = true ∧ (t.entry 0).recvd = 0 ∧ (t.entry 0).offset = 4294967286 ∧
      ¬ Reassembled 0 4294967285 (fun n => n % 256) (fun _ => 0) t := by
  have h : (run (step 0 4294967285 fun n => n % 256) (init 0 4294967285 (fun _ => default) 0)
      wrapRun).map (fun t => (t.entry 0, t.read)) =
      some ({ recvd := 0, appd := 262134, winShift := 0, head := 0, offset := 4294967286, gap := true }, 0) := by
    decide +kernel
  obtain ⟨t, ht, hx⟩ := Option.map_eq_some_iff.mp h
  obtain ⟨hentry, hread⟩ := Prod.mk.inj hx
  refine ⟨t, ht, by rw [hentry], by rw [hentry], by rw [hentry], fun hr => ?_⟩
  have hg := hr.gap (by rw [hentry])
  simp only [dist, appd, hread, hentry] at hg
  exact absurd hg.1 (by decide)

/-- A block across the wrap of the sequence numbers, then the one before it, which closes the gap, and
a read of the application. -/
def gapRun : List (RxRunLabel .sample) :=
  handle 4294967286 15 ++ handle 4294967276 10 ++ [.appRead 15]

theorem reassembly_gap :
    ∃ t, runIf (step 0 4294967275 fun n => n % 256) (fun t l => t.regular 0 4294967275 l = true)
        (init 0 4294967275 (fun _ => default) 0) gapRun = some t ∧
      t.notified = 25 ∧ t.read = 15 ∧ Reassembled 0 4294967275 (fun n => n % 256) (fun _ => 0) t := by
  have h : (runIf (step 0 4294967275 fun n => n % 256) (fun t l => t.regular 0 4294967275 l = true)
      (init 0 4294967275 (fun _ => default) 0) gapRun).map (fun t => (t.notified, t.read)) =
      some (25, 15) := by
    decide +kernel
  obtain ⟨t, ht, hx⟩ := Option.map_eq_some_iff.mp h
  obtain ⟨hn, hr⟩ := Prod.mk.inj hx
  exact ⟨t, ht, hn, hr, reassembly rfl 0 4294967275 _ _ _ 0 t (reach_of_runIf ht)⟩

end RxRun

end FpgaNetworkStack.Toe
