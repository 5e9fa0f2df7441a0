import FpgaNetworkStack.Lib.Client
import FpgaNetworkStack.Lib.Reach
import FpgaNetworkStack.Toe.TxEngine
import FpgaNetworkStack.Toe.TxSarTable

/-!
# `metaLoader` against the tx_sar table

The transmit engine reads a tx_sar entry, works on the reply and writes the entry back; in between
the receive engine and the application update the same entry.  What they never touch is where the
next byte goes (`not_ackd`) and whether the FIN went out, so the reply stays right about these two.
-/

namespace FpgaNetworkStack.Toe

open Lib EventType

variable {b : Build}

/-- A first SYN or SYN-ACK: it initialises the tx_sar entry. -/
def ExtendedEvent.opens (e : ExtendedEvent b) : Bool :=
  (e.type == SYN || e.type == SYN_ACK) && e.rtCount == 0

/-- How far the event moves `not_ackd`. -/
def ExtendedEvent.advance (e : ExtendedEvent b) : Nat :=
  match e.type with
  | TX => e.length.toNat
  | FIN => 1
  | _ => 0

/-! ## One call of `metaLoader` -/

namespace MetaLoader

/-- The event is worked on with the replies kept in the registers. -/
def loaded (s : MetaLoader b) : Bool :=
  (s.mlCurEvent.type == RT || s.mlCurEvent.type == FIN) && s.mlSarLoaded

/-- The current event needs a tx_sar reply from the FIFO. -/
def asks (s : MetaLoader b) : Bool :=
  match s.mlCurEvent.type with
  | SYN => s.mlCurEvent.rtCount != 0
  | RST => s.mlCurEvent.toEvent.hasSessionID b
  | _ => !s.loaded

def waiting (s : MetaLoader b) : Bool := s.mlFsmState == .WORK && s.asks

/-- The current event needs an rx_sar reply from the FIFO. -/
def asksRx (s : MetaLoader b) : Bool :=
  match s.mlCurEvent.type with
  | SYN | RST => false
  | _ => !s.loaded

/-- What is done for the current event once its replies are there. -/
def handle (s : MetaLoader b) (rxSar : RxSarReply) (txSar : TxTxSarReply b) :
    MetaLoader b × MetaLoaderOut :=
  match s.mlCurEvent.type with
  | TX => mlTx s rxSar txSar
  | RT => mlRt s (!s.mlSarLoaded) rxSar txSar
  | ACK | ACK_NODELAY => mlAck s rxSar txSar
  | SYN => mlSyn s txSar.ackd
  | SYN_ACK => mlSynAck s rxSar txSar
  | FIN => mlFin s rxSar txSar
  | RST => if s.mlCurEvent.toEvent.hasSessionID b then mlRstSession s txSar else mlRstTuple s

/-- The tx_sar reply `txSar` a call works on, and the FIFOs it leaves. -/
structure Taken (s : MetaLoader b) (i i' : MetaLoaderIn b) (txSar : TxTxSarReply b) : Prop where
  event : i'.eventEng2txEngEvent = i.eventEng2txEngEvent
  fifo : i.txSar2txEngUpdRsp =
    if s.asks then txSar :: i'.txSar2txEngUpdRsp else i'.txSar2txEngUpdRsp
  register : s.loaded = true → txSar = s.txSarReg

/-- The rx_sar reply `rxSar` a call works on, and the FIFO it leaves. -/
structure TakenRx (s : MetaLoader b) (i i' : MetaLoaderIn b) (rxSar : RxSarReply) : Prop where
  fifo : i.rxSar2txEngRsp = if s.asksRx then rxSar :: i'.rxSar2txEngRsp else i'.rxSar2txEngRsp
  register : s.loaded = true → rxSar = s.rxSar

theorem mlBoth_cases (handler : MetaLoader b → RxSarReply → TxTxSarReply b → MetaLoader b × MetaLoaderOut)
    (s : MetaLoader b) (i : MetaLoaderIn b) (hask : s.asks = true) (hrx : s.asksRx = true)
    (hreg : s.loaded = false) :
    mlBoth b handler s i = (s, i, {}) ∨
      ∃ rxSar txSar i', Taken s i i' txSar ∧ TakenRx s i i' rxSar ∧
        mlBoth b handler s i = ((handler s rxSar txSar).1, i', (handler s rxSar txSar).2) := by
  unfold mlBoth
  split
  · next rxSar rxs txSar txs hrxs htx =>
      right
      refine ⟨rxSar, txSar, { i with rxSar2txEngRsp := rxs, txSar2txEngUpdRsp := txs }, ⟨rfl, ?_, ?_⟩, ⟨?_, ?_⟩, rfl⟩
      · rw [hask, if_pos rfl, htx]
      · intro h
        rw [hreg] at h
        cases h
      · rw [hrx, if_pos rfl, hrxs]
      · intro h
        rw [hreg] at h
        cases h
  · left
    rfl

variable {s : MetaLoader b}

/-- A call in state WORK waits for replies, or handles the event with them. -/
theorem metaLoader_work (i : MetaLoaderIn b) (hW : s.mlFsmState = .WORK) :
    metaLoader b s i = (s, i, {}) ∨
      ∃ rxSar txSar i', Taken s i i' txSar ∧ TakenRx s i i' rxSar ∧
        metaLoader b s i = ((s.handle rxSar txSar).1, i', (s.handle rxSar txSar).2) := by
  unfold metaLoader handle
  rw [hW]
  cases he : s.mlCurEvent.type with
  | TX => exact mlBoth_cases mlTx s i (by simp [asks, loaded, he]) (by simp [asksRx, loaded, he]) (by simp [loaded, he])
  | ACK => exact mlBoth_cases mlAck s i (by simp [asks, loaded, he]) (by simp [asksRx, loaded, he]) (by simp [loaded, he])
  | ACK_NODELAY =>
    exact mlBoth_cases mlAck s i (by simp [asks, loaded, he]) (by simp [asksRx, loaded, he]) (by simp [loaded, he])
  | SYN_ACK =>
    exact mlBoth_cases mlSynAck s i (by simp [asks, loaded, he]) (by simp [asksRx, loaded, he])
      (by simp [loaded, he])
  | RT =>
    cases hl : s.mlSarLoaded with
    | false =>
      simp only [Bool.false_eq_true, if_false, Bool.not_false]
      exact mlBoth_cases (fun s => mlRt s true) s i (by simp [asks, loaded, he, hl])
        (by simp [asksRx, loaded, he, hl]) (by simp [loaded, hl])
    | true =>
      exact .inr ⟨s.rxSar, s.txSarReg, i, ⟨rfl, by simp [asks, loaded, he, hl], fun _ => rfl⟩,
        ⟨by simp [asksRx, loaded, he, hl], fun _ => rfl⟩, rfl⟩
  | FIN =>
    cases hl : s.mlSarLoaded with
    | false =>
      exact mlBoth_cases mlFin s i (by simp [asks, loaded, he, hl]) (by simp [asksRx, loaded, he, hl])
        (by simp [loaded, hl])
    | true =>
      exact .inr ⟨s.rxSar, s.txSarReg, i, ⟨rfl, by simp [asks, loaded, he, hl], fun _ => rfl⟩,
        ⟨by simp [asksRx, loaded, he, hl], fun _ => rfl⟩, rfl⟩
  | SYN =>
    have hreg : s.loaded = false := by simp [loaded, he]
    have hrx (i' : MetaLoaderIn b) (h : i'.rxSar2txEngRsp = i.rxSar2txEngRsp) : TakenRx s i i' default :=
      ⟨by simp [asksRx, he, h], by simp [hreg]⟩
    by_cases hrt : s.mlCurEvent.rtCount = 0#3
    · -- a first SYN needs no reply; the argument of `mlSyn` is not used
      right
      refine ⟨default, { (default : TxTxSarReply b) with ackd := 0 }, i, ⟨rfl, ?_, ?_⟩, hrx i rfl, ?_⟩
      · simp [asks, he, hrt]
      · simp [hreg]
      · simp [hrt]
    · cases htx : i.txSar2txEngUpdRsp with
      | nil =>
        left
        simp [hrt]
      | cons txSar txs =>
        right
        refine ⟨default, txSar, { i with txSar2txEngUpdRsp := txs }, ⟨rfl, ?_, ?_⟩, hrx _ rfl, ?_⟩
        · simp [asks, he, hrt, htx]
        · simp [hreg]
        · simp [hrt]
  | RST =>
    have hreg : s.loaded = false := by simp [loaded, he]
    have hrx (i' : MetaLoaderIn b) (h : i'.rxSar2txEngRsp = i.rxSar2txEngRsp) : TakenRx s i i' default :=
      ⟨by simp [asksRx, he, h], by simp [hreg]⟩
    cases hid : s.mlCurEvent.toEvent.hasSessionID b with
    | false =>
      right
      exact ⟨default, default, i, ⟨rfl, by simp [asks, he, hid], by simp [hreg]⟩, hrx i rfl, by simp⟩
    | true =>
      cases htx : i.txSar2txEngUpdRsp with
      | nil =>
        left
        simp
      | cons txSar txs =>
        right
        refine ⟨default, txSar, { i with txSar2txEngUpdRsp := txs }, ⟨rfl, ?_, ?_⟩, hrx _ rfl, ?_⟩
        · simp [asks, he, hid, htx]
        · simp [hreg]
        · simp

/-- An event is finished by one handler call, except a retransmission, which may go on with the next
segment or with the FIN. -/
theorem handle_next (s : MetaLoader b) (rxSar : RxSarReply) (txSar : TxTxSarReply b) :
    (s.handle rxSar txSar).1.mlFsmState = .IDLE ∨
      s.mlCurEvent.type = RT ∧ (s.handle rxSar txSar).1.mlFsmState = .WORK ∧
      (s.handle rxSar txSar).1.loaded = true ∧
      ((s.handle rxSar txSar).1.mlCurEvent = s.mlCurEvent ∨
        txSar.finSent = true ∧
          (s.handle rxSar txSar).1.mlCurEvent = { s.mlCurEvent with type := FIN }) ∧
      (s.handle rxSar txSar).1.txSarReg.notAckd = txSar.notAckd ∧
      (s.handle rxSar txSar).1.txSarReg.finSent = txSar.finSent := by
  unfold handle
  cases he : s.mlCurEvent.type with
  | TX | ACK | ACK_NODELAY | SYN | SYN_ACK | FIN => exact .inl rfl
  | RST =>
    left
    dsimp only
    split <;> rfl
  | RT =>
    unfold mlRt loaded
    dsimp only
    by_cases hfull : b.mss.toNat < txSar.usedLength.toNat
    · by_cases hcount : s.mlSegmentCount = 3#2
      · left
        simp [hfull, hcount]
      · right
        simp [hfull, hcount, he]
    · cases hfin : txSar.finSent with
      | false =>
        left
        simp [hfull]
      | true =>
        right
        simp [hfull, hfin]

theorem handle_rt (h : s.mlCurEvent.type = RT) (rxSar : RxSarReply)
    (txSar : TxTxSarReply b) :
    ∀ q ∈ (s.handle rxSar txSar).2.txEng2txSarUpdReq, q.isRtQuery = true ∧ q.finSent = false := by
  intro q hq
  simp only [handle, h, mlRt] at hq
  split at hq
  · rw [List.mem_singleton] at hq
    rw [hq]
    exact ⟨rfl, rfl⟩
  · cases hq

/-- An event that does not open the session moves `not_ackd` by its advance (data, a first FIN) or
leaves it alone. -/
theorem handle_advance (h : s.mlCurEvent.opens = false) (rxSar : RxSarReply)
    (txSar : TxTxSarReply b) :
    (∀ q ∈ (s.handle rxSar txSar).2.txEng2txSarUpdReq, q.isRtQuery = true ∧ q.finSent = false) ∨
      (s.asks = true ∨ s.loaded = true) ∧
      (s.mlCurEvent.type = TX ∨ s.mlCurEvent.type = FIN ∧ s.mlCurEvent.rtCount = 0) ∧
        (s.handle rxSar txSar).2.txEng2txSarUpdReq =
          [.update s.mlCurEvent.sessionID
            (txSar.notAckd + BitVec.ofNat 32 s.mlCurEvent.advance) false (s.mlCurEvent.type == FIN)
            (s.mlCurEvent.type == FIN)] := by
  unfold handle ExtendedEvent.advance
  cases he : s.mlCurEvent.type with
  | TX =>
    right
    refine ⟨.inl (by simp [asks, loaded, he]), .inl rfl, ?_⟩
    simp [mlTx, BitVec.ofNat_toNat]
    rfl
  | RT =>
    left
    have hw := handle_rt he rxSar txSar
    simpa only [handle, he] using hw
  | FIN =>
    by_cases hrt : s.mlCurEvent.rtCount = 0#3
    · right
      refine ⟨?_, .inr ⟨rfl, hrt⟩, by simp [mlFin, hrt]⟩
      cases hl : s.loaded <;> simp [asks, he, hl]
    · left
      simp [mlFin, hrt]
  | SYN =>
    left
    simp [ExtendedEvent.opens, he] at h
    simp [mlSyn, mlOpen, h]
  | SYN_ACK =>
    left
    simp [ExtendedEvent.opens, he] at h
    simp [mlSynAck, mlOpen, h]
  | ACK | ACK_NODELAY => simp [mlAck, mlSegment]
  | RST =>
    left
    dsimp only
    split <;> simp [mlRstSession, mlRstTuple, mlSegment]

/-- A handler writes to the table, and only for the session of its event. -/
theorem handle_writes (s : MetaLoader b) (rxSar : RxSarReply) (txSar : TxTxSarReply b) :
    ∀ q ∈ (s.handle rxSar txSar).2.txEng2txSarUpdReq,
      q.write = true ∧ q.sessionID = s.mlCurEvent.sessionID := by
  intro q hq
  unfold handle at hq
  split at hq
  · simp [mlTx, TxTxSarQuery.update] at hq
    simp [hq]
  · simp only [mlRt] at hq
    split at hq
    · simp [TxTxSarQuery.rt] at hq
      simp [hq]
    · cases hq
  · cases hq
  · cases hq
  · simp only [mlSyn, mlOpen] at hq
    split at hq
    · cases hq
    · simp [TxTxSarQuery.update] at hq
      simp [hq]
  · simp only [mlSynAck, mlOpen] at hq
    split at hq
    · cases hq
    · simp [TxTxSarQuery.update] at hq
      simp [hq]
  · simp only [mlFin] at hq
    split at hq
    · cases hq
    · simp [TxTxSarQuery.update] at hq
      simp [hq]
  · split at hq <;> cases hq

theorem handle_reads (s : MetaLoader b) (rxSar : RxSarReply) (txSar : TxTxSarReply b) :
    (s.handle rxSar txSar).2.txEng2rxSarReq = [] ∧ (s.handle rxSar txSar).2.readCountFifo = 0 := by
  unfold handle
  split
  · simp only [mlTx]
    split <;> exact ⟨rfl, rfl⟩
  · simp only [mlRt]
    split <;> split <;> exact ⟨rfl, rfl⟩
  · exact ⟨rfl, rfl⟩
  · exact ⟨rfl, rfl⟩
  · exact ⟨rfl, rfl⟩
  · exact ⟨rfl, rfl⟩
  · exact ⟨rfl, rfl⟩
  · split <;> exact ⟨rfl, rfl⟩

theorem asks_of_loaded (h : s.loaded = true) : s.asks = false := by
  unfold asks
  split
  · next he => simp [loaded, he] at h
  · next he => simp [loaded, he] at h
  · simp [h]

end MetaLoader

/-! ## Where the next byte goes -/

/-- The part of a tx_sar entry that only the transmit engine writes. -/
structure SendPoint where
  notAckd : BitVec 32
  finSent : Bool
  deriving DecidableEq

def TxSarEntry.sendPoint (entry : TxSarEntry b) : SendPoint := ⟨entry.notAckd, entry.finSent⟩

def TxTxSarReply.sendPoint (r : TxTxSarReply b) : SendPoint := ⟨r.notAckd, r.finSent⟩

def SendPoint.update (p : SendPoint) (q : TxTxSarQuery) : SendPoint :=
  if q.isRtQuery then p else ⟨q.notAckd, (!q.init && p.finSent) || q.finSent⟩

theorem SendPoint.foldl_rt (p : SendPoint) (qs : List TxTxSarQuery)
    (h : ∀ q ∈ qs, q.isRtQuery = true) : qs.foldl SendPoint.update p = p := by
  induction qs with
  | nil => rfl
  | cons q qs ih =>
    have hq : p.update q = p := by
      simp [SendPoint.update, h q List.mem_cons_self]
    rw [List.foldl_cons, hq]
    exact ih fun q hq => h q (List.mem_cons_of_mem _ hq)

@[simp] theorem sendPoint_txEngUpdate (entry : TxSarEntry b) (q : TxTxSarQuery) :
    (entry.txEngUpdate q).sendPoint = entry.sendPoint.update q := by
  unfold TxSarEntry.txEngUpdate SendPoint.update TxSarEntry.sendPoint
  cases q.isRtQuery <;> cases q.init <;> simp

@[simp] theorem sendPoint_rxEngUpdate (entry : TxSarEntry b) (q : RxTxSarQuery b) :
    (entry.rxEngUpdate q).sendPoint = entry.sendPoint := rfl

@[simp] theorem sendPoint_txReply (entry : TxSarEntry b) :
    entry.txReply.sendPoint = entry.sendPoint := rfl

variable {s : MetaLoader b}

/-- The writes of a handler lead from the send point its reply shows to the next one. -/
theorem MetaLoader.handle_sendPoint {sid : SessionID}
    (hopen : s.mlCurEvent.opens = false) (hid : s.mlCurEvent.sessionID = sid) (rxSar : RxSarReply)
    (r : TxTxSarReply b) {p : SendPoint} (hr : s.asks = true ∨ s.loaded = true → r.sendPoint = p) :
    ((s.handle rxSar r).2.txEng2txSarUpdReq.filter (fun q => q.write && q.sessionID == sid)).foldl
        SendPoint.update p =
      if s.mlCurEvent.type = TX ∨ s.mlCurEvent.type = FIN ∧ s.mlCurEvent.rtCount = 0 then
        ⟨p.notAckd + BitVec.ofNat 32 s.mlCurEvent.advance, p.finSent || s.mlCurEvent.type == FIN⟩
      else p := by
  rcases handle_advance hopen rxSar r with hrt | ⟨hheld, htype, hone⟩
  · rw [SendPoint.foldl_rt _ _ fun q hq => (hrt q (List.mem_of_mem_filter hq)).1, if_neg]
    -- data and a first FIN would have written
    rintro (he | ⟨he, h0⟩)
    · have := (hrt (.update s.mlCurEvent.sessionID (r.notAckd + s.mlCurEvent.length.setWidth 32) false
        false false) (by simp [handle, he, mlTx])).1
      cases this
    · have := (hrt (.update s.mlCurEvent.sessionID (r.notAckd + 1) false true true)
        (by simp [handle, he, mlFin, h0])).1
      cases this
  · rw [if_pos htype, hone, ← hr hheld]
    simp [TxTxSarQuery.update, hid, SendPoint.update, TxTxSarReply.sendPoint]

/-- A TX event sends its data under `not_ackd`, and an empty one sends nothing. -/
theorem MetaLoader.handle_tx (h : s.mlCurEvent.type = TX) (rxSar : RxSarReply)
    (r : TxTxSarReply b) :
    (s.handle rxSar r).2.txEngTcpMetaFifoOut =
      if s.mlCurEvent.length = 0 then [] else [mlHeader s rxSar r.notAckd s.mlCurEvent.length] := by
  simp only [handle, h, mlTx]
  split <;> rfl

/-- The segment of an RT event: it starts at the `ackd` of the reply, is not longer than the bytes that
are outstanding, and is read from the buffer at the low bits of its sequence number. -/
theorem MetaLoader.handle_rtSegment (h : s.mlCurEvent.type = RT) (rxSar : RxSarReply)
    (r : TxTxSarReply b) {m : TxEngineMeta} (hm : m ∈ (s.handle rxSar r).2.txEngTcpMetaFifoOut) :
    m.seqNumb = r.ackd ∧ m.length ≠ 0 ∧ m.length.toNat ≤ r.usedLength.toNat ∧
      (s.handle rxSar r).2.txBufferReadCmd =
        [.new (pkgAddr b s.mlCurEvent.sessionID (m.seqNumb.setWidth _)) m.length] := by
  simp only [handle, h, mlRt] at hm ⊢
  generalize hlen : (if decide (b.mss.toNat < r.usedLength.toNat) = true then b.mss
    else r.usedLength.setWidth 16) = length at hm ⊢
  have hle : length.toNat ≤ r.usedLength.toNat := by
    rw [← hlen]
    split
    · next hfull => exact Nat.le_of_lt (of_decide_eq_true hfull)
    · rw [BitVec.toNat_setWidth]
      exact Nat.mod_le _ _
  by_cases h0 : length = 0#16
  · simp [mlHeader, h0] at hm
  · simp [mlHeader, h0, mlSegment] at hm
    subst hm
    refine ⟨rfl, h0, hle, ?_⟩
    simp [mlHeader, h0]

theorem MetaLoader.handle_rtRegister (h : s.mlCurEvent.type = RT) (rxSar : RxSarReply)
    (r : TxTxSarReply b) :
    (s.handle rxSar r).1.txSarReg = r ∨
      b.mss.toNat < r.usedLength.toNat ∧ (s.handle rxSar r).1.txSarReg =
        { r with ackd := r.ackd + b.mss.setWidth 32, usedLength := r.usedLength - b.mss.setWidth _ } := by
  simp only [handle, h, mlRt]
  by_cases hfull : b.mss.toNat < r.usedLength.toNat
  · right
    simp [hfull]
  · left
    simp [hfull]

/-! ## The network -/

variable (b) in
structure TxNet where
  ml : MetaLoader b
  fifo : MetaLoaderIn b
  table : SessionID → TxSarEntry b
  txReq : List TxTxSarQuery
  appPush : List (TxAppTxSarPush b)
  /-- Every segment emitted for a session. -/
  sent : List (SessionID × TxEngineMeta)

namespace TxNet

def callMl (t : TxNet b) : TxNet b × MetaLoaderOut :=
  let (ml, fifo, out) := metaLoader b t.ml t.fifo
  ({ t with
      ml, fifo
      txReq := t.txReq ++ out.txEng2txSarUpdReq
      sent := t.sent ++ out.txEng2sLookupRevReq.zip out.txEngTcpMetaFifoOut }, out)

/-- One call of `tx_sar_table`, with the requests of the receive engine; what is left of them and
what the table writes are returned. -/
def callTable (t : TxNet b) (rxReq : List (RxTxSarQuery b)) :
    TxNet b × List (RxTxSarQuery b) × TxSarTableOut b :=
  let (table, i, out) := txSarTable b t.table ⟨rxReq, t.txReq, t.appPush⟩
  ({ t with
      table, txReq := i.txEng2txSarUpdReq, appPush := i.txApp2txSarAppPush
      fifo := { t.fifo with
        txSar2txEngUpdRsp := t.fifo.txSar2txEngUpdRsp ++ out.txSar2txEngUpdRsp } },
    i.rxEng2txSarUpdReq, out)

/-- The send point of a session once the table has served all requests. -/
def sendPoint (t : TxNet b) (id : SessionID) : SendPoint :=
  (t.txReq.filter (fun q => q.write && q.sessionID == id)).foldl SendPoint.update (t.table id).sendPoint

/-- What one call of the table can do. -/
inductive Served (t : TxNet b) (rxReq : List (RxTxSarQuery b)) :
    TxNet b × List (RxTxSarQuery b) × TxSarTableOut b → Prop
  | txWrite (q : TxTxSarQuery) (rest : List TxTxSarQuery) (h : t.txReq = q :: rest)
      (hw : q.write = true) : Served t rxReq
        ({ t with
            table := Function.update t.table q.sessionID ((t.table q.sessionID).txEngUpdate q)
            txReq := rest }, rxReq, { txSar2txAppAckPush := TxSarEntry.initPush q })
  | txRead (q : TxTxSarQuery) (rest : List TxTxSarQuery) (h : t.txReq = q :: rest)
      (hw : q.write = false) : Served t rxReq
        ({ t with
            txReq := rest
            fifo := { t.fifo with
              txSar2txEngUpdRsp := t.fifo.txSar2txEngUpdRsp ++ [(t.table q.sessionID).txReply] } },
          rxReq, { txSar2txEngUpdRsp := [(t.table q.sessionID).txReply] })
  | app (push : TxAppTxSarPush b) (rest : List (TxAppTxSarPush b)) (ht : t.txReq = [])
      (h : t.appPush = push :: rest) : Served t rxReq
        ({ t with
            table := Function.update t.table push.sessionID
              { t.table push.sessionID with app := push.app }
            appPush := rest }, rxReq, {})
  | rxWrite (q : RxTxSarQuery b) (rest : List (RxTxSarQuery b)) (ht : t.txReq = [])
      (h : rxReq = q :: rest) (hw : q.write = true) : Served t rxReq
        ({ t with
            table := Function.update t.table q.sessionID ((t.table q.sessionID).rxEngUpdate q) },
          rest, { txSar2txAppAckPush := [((t.table q.sessionID).rxEngUpdate q).ackPush q] })
  | rxRead (q : RxTxSarQuery b) (rest : List (RxTxSarQuery b)) (ht : t.txReq = [])
      (h : rxReq = q :: rest) (hw : q.write = false) : Served t rxReq
        (t, rest, { txSar2rxEngUpdRsp := [(t.table q.sessionID).rxReply] })
  | none (ht : t.txReq = []) (h : rxReq = []) : Served t rxReq (t, rxReq, {})

theorem served (t : TxNet b) (rxReq : List (RxTxSarQuery b)) : Served t rxReq (t.callTable rxReq) := by
  obtain ⟨ml, fifo, table, txReq, appPush, sent⟩ := t
  unfold callTable txSarTable
  cases txReq with
  | cons q rest =>
    cases hw : q.write with
    | true => simpa [hw] using Served.txWrite q rest rfl hw
    | false => simpa [hw] using Served.txRead q rest rfl hw
  | nil =>
    cases appPush with
    | cons push rest => simpa using Served.app push rest rfl rfl
    | nil =>
      cases rxReq with
      | nil => simpa using Served.none rfl rfl
      | cons q rest =>
        cases hw : q.write with
        | true => simpa [hw] using Served.rxWrite q rest rfl rfl hw
        | false => simpa [hw] using Served.rxRead q rest rfl rfl hw

theorem sendPoint_update (table : SessionID → TxSarEntry b) (id id' : SessionID) (entry : TxSarEntry b)
    (h : entry.sendPoint = (table id').sendPoint) :
    (Function.update table id' entry id).sendPoint = (table id).sendPoint := by
  by_cases hid : id = id'
  · subst hid
    simpa using h
  · simp [hid]

theorem callTable_sendPoint (t : TxNet b) (rxReq : List (RxTxSarQuery b)) (id : SessionID) :
    (t.callTable rxReq).1.sendPoint id = t.sendPoint id := by
  generalize hu : t.callTable rxReq = u
  have h := t.served rxReq
  rw [hu] at h
  unfold sendPoint
  cases h with
  | txWrite q rest h hw =>
    by_cases hid : q.sessionID = id
    · subst hid
      simp [h, hw]
    · have hne : ¬id = q.sessionID := fun h => hid h.symm
      simp [h, hid, hne]
  | txRead q rest h hw => simp [h, hw]
  | app | rxWrite =>
    exact congrArg (fun p => List.foldl SendPoint.update p _) (sendPoint_update _ _ _ _ rfl)
  | rxRead | none => rfl

/-- `metaLoader` waits for at most one reply, and what it holds is right about the send point of its
session. -/
structure Inv (t : TxNet b) : Prop where
  client : TableClient TxTxSarQuery.write t.ml.waiting t.txReq t.fifo.txSar2txEngUpdRsp
  asked : ∀ q ∈ t.txReq, q.write = false → q.sessionID = t.ml.mlCurEvent.sessionID
  reply : ∀ r ∈ t.fifo.txSar2txEngUpdRsp, r.sendPoint = t.sendPoint t.ml.mlCurEvent.sessionID
  register : t.ml.mlFsmState = .WORK → t.ml.loaded = true →
    t.ml.txSarReg.sendPoint = t.sendPoint t.ml.mlCurEvent.sessionID

variable {t : TxNet b}

theorem Inv.callTable (h : Inv t) (rxReq : List (RxTxSarQuery b)) :
    Inv (t.callTable rxReq).1 := by
  have hpoint := t.callTable_sendPoint rxReq
  generalize hu : t.callTable rxReq = u at hpoint
  have hs := t.served rxReq
  rw [hu] at hs
  have hreply : ∀ r ∈ t.fifo.txSar2txEngUpdRsp,
      r.sendPoint = u.1.sendPoint t.ml.mlCurEvent.sessionID := by
    intro r hr
    rw [hpoint]
    exact h.reply r hr
  have hreg : t.ml.mlFsmState = .WORK → t.ml.loaded = true →
      t.ml.txSarReg.sendPoint = u.1.sendPoint t.ml.mlCurEvent.sessionID := by
    intro hW hl
    rw [hpoint]
    exact h.register hW hl
  have hc := h.client
  cases hs with
  | txWrite q rest hq hw =>
    rw [hq] at hc
    exact ⟨hc.serve_write hw, fun q' hq' => h.asked q' (hq ▸ List.mem_cons_of_mem q hq'), hreply, hreg⟩
  | txRead q rest hq hw =>
    rw [hq] at hc
    -- nothing stands behind the read, so the reply is about the settled entry
    obtain ⟨hbusy, rfl, hrsp⟩ := hc.serve_read hw
    have hid := h.asked q (hq ▸ List.mem_cons_self) hw
    refine ⟨?_, ?_, ?_, hreg⟩
    · show TableClient _ t.ml.waiting [] (t.fifo.txSar2txEngUpdRsp ++ _)
      rw [hbusy, hrsp]
      exact TableClient.answered _
    · intro q' hq'
      cases hq'
    · intro r hr
      rw [hrsp, List.nil_append, List.mem_singleton] at hr
      rw [hr, sendPoint_txReply, hid]
      rfl
  | app | rxWrite => exact ⟨hc, h.asked, hreply, hreg⟩
  | rxRead | none => exact h

/-- The send point a call of `metaLoader` leaves: its writes are added to the pending ones. -/
theorem callMl_sendPoint (t : TxNet b) (id : SessionID) :
    t.callMl.1.sendPoint id =
      (t.callMl.2.txEng2txSarUpdReq.filter (fun q => q.write && q.sessionID == id)).foldl
        SendPoint.update (t.sendPoint id) := by
  unfold sendPoint callMl
  simp [List.filter_append, List.foldl_append]

/-- What a call of `metaLoader` can do: it takes an event and asks for its replies, it does nothing,
or it handles its event with reply `r`, which is right about the send point. -/
inductive Called (t : TxNet b) : TxNet b × MetaLoaderOut → Prop
  | idle (ml : MetaLoader b) (hml : ml = t.ml ∨ t.ml.mlFsmState = .IDLE ∧ ml.mlFsmState = .IDLE) :
      Called t ({ t with ml }, {})
  | take (e : ExtendedEvent b) (rest : List (ExtendedEvent b)) (ml : MetaLoader b)
      (hI : t.ml.mlFsmState = .IDLE) (h : t.fifo.eventEng2txEngEvent = e :: rest)
      (hW : ml.mlFsmState = .WORK) (he : ml.mlCurEvent = e) (hl : ml.mlSarLoaded = false) :
      Called t
        ({ t with
            ml, fifo := { t.fifo with eventEng2txEngEvent := rest }
            txReq := t.txReq ++ (mlRequests e).txEng2txSarUpdReq }, mlRequests e)
  | work (rxSar : RxSarReply) (r : TxTxSarReply b) (fifo : MetaLoaderIn b)
      (hW : t.ml.mlFsmState = .WORK)
      (ht : t.ml.Taken t.fifo fifo r)
      (hr : t.ml.asks = true ∨ t.ml.loaded = true →
        r.sendPoint = t.sendPoint t.ml.mlCurEvent.sessionID) :
      Called t
        ({ t with
            ml := (t.ml.handle rxSar r).1, fifo
            txReq := t.txReq ++ (t.ml.handle rxSar r).2.txEng2txSarUpdReq
            sent := t.sent ++ (t.ml.handle rxSar r).2.txEng2sLookupRevReq.zip
              (t.ml.handle rxSar r).2.txEngTcpMetaFifoOut }, (t.ml.handle rxSar r).2)

theorem Inv.called (h : Inv t) : Called t t.callMl := by
  unfold callMl
  cases hs : t.ml.mlFsmState with
  | IDLE =>
    unfold metaLoader
    rw [hs]
    cases he : t.fifo.eventEng2txEngEvent with
    | nil =>
      simp only [List.append_nil, List.zip_nil_left]
      exact Called.idle { t.ml with mlFsmState := .IDLE, mlSegmentCount := 0 } (.inr ⟨hs, rfl⟩)
    | cons e rest =>
      have hsent : (mlRequests e).txEng2sLookupRevReq = [] := by
        unfold mlRequests
        split <;> rfl
      simpa [hsent] using Called.take e rest _ hs he rfl rfl rfl
  | WORK =>
    rcases MetaLoader.metaLoader_work t.fifo hs with hw | ⟨rxSar, r, fifo, ht, -, hw⟩
    · rw [hw]
      simpa using Called.idle t.ml (.inl rfl)
    · rw [hw]
      refine Called.work rxSar r fifo hs ht ?_
      rintro (ha | hl)
      · -- the reply comes from the FIFO
        apply h.reply
        rw [ht.fifo, ha, if_pos rfl]
        exact List.mem_cons_self
      · rw [ht.register hl]
        exact h.register hs hl

theorem mlRequests_asks (e : ExtendedEvent b) (ml : MetaLoader b) (he : ml.mlCurEvent = e)
    (hl : ml.mlSarLoaded = false) :
    (mlRequests e).txEng2txSarUpdReq = if ml.asks then [.read e.sessionID] else [] := by
  subst he
  unfold mlRequests MetaLoader.asks MetaLoader.loaded
  split <;> simp_all

theorem Inv.quiet (h : Inv t) (hw : t.ml.waiting = false) :
    t.fifo.txSar2txEngUpdRsp = [] ∧ ∀ q ∈ t.txReq, q.write = true := by
  have hc := h.client
  rw [hw] at hc
  exact ⟨hc.rsps_eq_nil, hc.writes⟩

theorem Inv.callMl (h : Inv t) : Inv t.callMl.1 := by
  have hpoint := t.callMl_sendPoint
  have hcalled := h.called
  generalize t.callMl = u at hcalled hpoint
  have hc := h.client
  cases hcalled with
  | idle ml hml =>
    rcases hml with rfl | ⟨hI, hI'⟩
    · exact h
    · have hw : t.ml.waiting = false := by simp [MetaLoader.waiting, hI]
      have hw' : ml.waiting = false := by simp [MetaLoader.waiting, hI']
      obtain ⟨hrsp, hq⟩ := h.quiet hw
      refine ⟨?_, ?_, ?_, ?_⟩
      · show TableClient _ ml.waiting t.txReq _
        rw [hw', ← hw]
        exact hc
      · intro q hm hf
        rw [hq q hm] at hf
        cases hf
      · intro r hr
        rw [hrsp] at hr
        cases hr
      · intro hW
        rw [hI'] at hW
        cases hW
  | take e rest ml hI hev hW he hl =>
    have hw : t.ml.waiting = false := by simp [MetaLoader.waiting, hI]
    have hw' : ml.waiting = ml.asks := by simp [MetaLoader.waiting, hW]
    obtain ⟨hrsp, hq⟩ := h.quiet hw
    have hreq := mlRequests_asks e ml he hl
    rw [hw] at hc
    refine ⟨?_, ?_, ?_, ?_⟩
    · show TableClient _ ml.waiting (t.txReq ++ _) t.fifo.txSar2txEngUpdRsp
      rw [hw', hreq]
      cases ml.asks with
      | true => exact hc.ask rfl
      | false => simpa using hc
    · intro q hm hf
      rw [hreq] at hm
      rcases List.mem_append.mp hm with hm | hm
      · rw [hq q hm] at hf
        cases hf
      · split at hm
        · rw [List.mem_singleton] at hm
          rw [hm, he]
          rfl
        · cases hm
    · intro r hr
      rw [show ({ t.fifo with eventEng2txEngEvent := rest } : MetaLoaderIn b).txSar2txEngUpdRsp = [] from hrsp] at hr
      cases hr
    · intro _ hload
      simp [MetaLoader.loaded, hl] at hload
  | work rxSar r fifo hW ht hr =>
    have hwrites := t.ml.handle_writes rxSar r
    have hnext := t.ml.handle_next rxSar r
    -- the reply is taken, so no request and no answer is left
    have hfifo : fifo.txSar2txEngUpdRsp = [] := by
      cases ha : t.ml.asks with
      | true =>
        have hf := ht.fifo
        rw [ha, if_pos rfl] at hf
        rw [hf] at hc
        exact hc.take.2.2
      | false =>
        have hf := ht.fifo
        rw [ha, if_neg (by simp)] at hf
        rw [← hf]
        exact (h.quiet (by simp [MetaLoader.waiting, ha])).1
    have hreqs : ∀ q ∈ t.txReq, q.write = true := by
      cases ha : t.ml.asks with
      | true =>
        have hf := ht.fifo
        rw [ha, if_pos rfl] at hf
        rw [hf] at hc
        rw [hc.take.2.1]
        simp
      | false => exact (h.quiet (by simp [MetaLoader.waiting, ha])).2
    have hidle : (t.ml.handle rxSar r).1.waiting = false := by
      rcases hnext with hI | ⟨-, -, hl, -⟩
      · simp [MetaLoader.waiting, hI]
      · simp [MetaLoader.waiting, MetaLoader.asks_of_loaded hl]
    refine ⟨?_, ?_, ?_, ?_⟩
    · show TableClient _ (t.ml.handle rxSar r).1.waiting (t.txReq ++ _) fifo.txSar2txEngUpdRsp
      rw [hidle, hfifo]
      exact (TableClient.quiet hreqs).push fun q hq => (hwrites q hq).1
    · intro q hm hf
      have hw : q.write = true := by
        rcases List.mem_append.mp hm with hm | hm
        · exact hreqs q hm
        · exact (hwrites q hm).1
      rw [hw] at hf
      cases hf
    · intro r' hr'
      rw [show _ = [] from hfifo] at hr'
      cases hr'
    · intro hW' _
      rcases hnext with hI | ⟨hrt, -, -, hcur, hreg⟩
      · rw [hI] at hW'
        cases hW'
      · have hid : (t.ml.handle rxSar r).1.mlCurEvent.sessionID = t.ml.mlCurEvent.sessionID := by
          rcases hcur with hcur | ⟨-, hcur⟩ <;> rw [hcur]
        have hload : t.ml.asks = true ∨ t.ml.loaded = true := by
          cases hl : t.ml.loaded <;> simp [MetaLoader.asks, hrt, hl]
        show (t.ml.handle rxSar r).1.txSarReg.sendPoint = _
        rw [hid, hpoint, SendPoint.foldl_rt _ _ fun q hq =>
          (MetaLoader.handle_rt hrt rxSar r q (List.mem_of_mem_filter hq)).1, ← hr hload]
        simp [TxTxSarReply.sendPoint, hreg]

end TxNet

end FpgaNetworkStack.Toe
