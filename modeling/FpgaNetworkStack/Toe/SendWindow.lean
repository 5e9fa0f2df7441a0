import FpgaNetworkStack.Lib.Pending
import FpgaNetworkStack.Toe.FsmBalance
import FpgaNetworkStack.Toe.TxNet

/-!
# The send window pointers

`rxTcpFSM` and `metaLoader` share the tx_sar table: the first moves `ackd`, the second `not_ackd`.
Both read the entry, work on the reply and write later, so the two pointers are followed as positions
that do not wrap, through everything that is still on its way to the table.
-/

namespace FpgaNetworkStack.Toe

open Lib EventType SessionState

variable {b : Build} {sid : SessionID}

/-! ## The network -/

variable (b) in
structure SendNet where
  rx : FsmNet b
  tx : TxNet b

variable (b) in
inductive SendLabel where
  | rx (l : FsmLabel b)
  | event (e : ExtendedEvent b)
  | rxSarRsp (r : RxSarReply)
  | appPush (p : TxAppTxSarPush b)
  | metaLoader
  | txSarTable

namespace SendNet

/-- The engines and the table; the state table, the rx_sar table and the sources of events are the
environment.  Session `sid` is not opened again. -/
def step (sid : SessionID) (t : SendNet b) : SendLabel b → Option (SendNet b)
  | .rx (.txSarTable _) => none
  | .rx l => (t.rx.step l).map fun rx => { t with rx }
  | .event e =>
    if e.sessionID = sid ∧ e.opens = true then none
    else some { t with tx := { t.tx with fifo := { t.tx.fifo with
      eventEng2txEngEvent := t.tx.fifo.eventEng2txEngEvent ++ [e] } } }
  | .rxSarRsp r =>
    some { t with tx := { t.tx with fifo := { t.tx.fifo with
      rxSar2txEngRsp := t.tx.fifo.rxSar2txEngRsp ++ [r] } } }
  | .appPush p => some { t with tx := { t.tx with appPush := t.tx.appPush ++ [p] } }
  | .metaLoader => some { t with tx := t.tx.callMl.1 }
  | .txSarTable =>
    let (tx, rest, out) := t.tx.callTable t.rx.txSarReq
    some
      { rx := { t.rx with
          txSarReq := rest
          fifo := { t.rx.fifo with
            txSar2rxEngUpdRsp := t.rx.fifo.txSar2rxEngUpdRsp ++ out.txSar2rxEngUpdRsp } }
        tx }

def entry (t : SendNet b) (sid : SessionID) : TxSarEntry b := t.tx.table sid

/-- The segment `rxTcpFSM` is about to finish updates `ackd` within the window it has read: a FIN that
is taken has an acknowledgement number in range, and a bare SYN is not taken. -/
def ackChecked (t : SendNet b) (sid : SessionID) : Bool :=
  match t.rx.fsm.fsmState, t.rx.fifo.stateTable2rxEngUpdRsp, t.rx.fifo.rxSar2rxEngUpdRsp with
  | .TRANSITION, tcpState :: _, rxSar :: _ =>
    let m := t.rx.fsm.fsmMeta
    m.sessionID != sid ||
      match controlBits m.metaData with
      | .fin => !finAccepted b m rxSar tcpState ||
          t.rx.fifo.txSar2rxEngUpdRsp.all (ackInRange b m)
      | .syn => !(tcpState == CLOSED || tcpState == SYN_SENT)
      | _ => true
  | _, _, _ => true

/-- The event `metaLoader` works on leaves less than `2 ^ 32` bytes in flight. -/
def flightBounded (t : SendNet b) (sid : SessionID) : Bool :=
  t.tx.ml.mlFsmState != .WORK || t.tx.ml.mlCurEvent.sessionID != sid ||
    decide (((t.tx.sendPoint sid).notAckd - (t.entry sid).ackd).toNat + t.tx.ml.mlCurEvent.advance
      < 2 ^ 32)

def checked (sid : SessionID) (t : SendNet b) : SendLabel b → Bool
  | .rx (.call _) => t.ackChecked sid
  | .metaLoader => t.flightBounded sid
  | _ => true

end SendNet

/-! ## The acknowledgement test -/

/-- The range test with its wrap case is the modular interval `[prevAck, nextByte]`. -/
theorem ackInRange_iff (m : RxFsmMetaData) (r : RxTxSarReply b) :
    ackInRange b m r = true ↔
      (m.metaData.ackNumb - r.prevAck).toNat ≤ (r.nextByte - r.prevAck).toNat := by
  have hx := m.metaData.ackNumb.isLt
  have hp := r.prevAck.isLt
  have hn := r.nextByte.isLt
  simp only [ackInRange, Bool.or_eq_true, Bool.and_eq_true, decide_eq_true_eq, BitVec.le_def,
    BitVec.lt_def, BitVec.toNat_sub]
  omega

theorem ackInRange_of_pos {m : RxFsmMetaData} {r : RxTxSarReply b} {A N : Nat}
    (hA : r.prevAck = BitVec.ofNat 32 A) (hN : r.nextByte = BitVec.ofNat 32 N) (hle : A ≤ N)
    (hlt : N < A + 2 ^ 32) (h : ackInRange b m r = true) :
    ∃ x, m.metaData.ackNumb = BitVec.ofNat 32 x ∧ A ≤ x ∧ x ≤ N := by
  rw [ackInRange_iff, hN, hA, ofNat_sub_toNat hle hlt, ← hA] at h
  refine ⟨A + (m.metaData.ackNumb - r.prevAck).toNat, ?_, by omega, by omega⟩
  rw [hA]
  exact eq_ofNat_add A _

theorem ackTxSar_window (m : RxFsmMetaData) (r : RxTxSarReply b) :
    (ackTxSar b m r).prevAck = r.prevAck ∧ (ackTxSar b m r).nextByte = r.nextByte := by
  unfold ackTxSar
  split_ifs <;> exact ⟨rfl, rfl⟩

theorem controlBits_ack {m : RxEngineMetaData} (h : controlBits m ≠ .syn) (h' : controlBits m ≠ .other) :
    m.ack = true := by
  unfold controlBits at h h'
  cases hr : m.rst <;> cases hf : m.fin <;> cases hs : m.syn <;> cases ha : m.ack <;> simp_all

/-- What a transition writes to `ackd`: an acknowledgement number that passed the test (the one of a
SYN-ACK does, being `nextByte`), the unchecked one of an accepted FIN, or the zero of an accepted
SYN. -/
theorem transition_ackd (e : RxTcpFsmEnv b) (m : RxFsmMetaData) (tcpState : SessionState)
    (rxSar : RxSarEntry b) (r : RxTxSarReply b) :
    ∀ q ∈ (transition b e m tcpState rxSar r).rxEng2txSarUpdReq, q.sessionID = m.sessionID ∧
      (q.ackd = m.metaData.ackNumb ∧ m.metaData.ack = true ∧ ackInRange b m r = true ∨
        q.ackd = m.metaData.ackNumb ∧ controlBits m.metaData = .fin ∧
          finAccepted b m rxSar tcpState = true ∨
        controlBits m.metaData = .syn ∧ (tcpState == CLOSED || tcpState == SYN_SENT) = true) := by
  intro q hq
  unfold transition at hq
  cases hc : controlBits m.metaData with
  | ack =>
    simp only [hc, transitionAck] at hq
    split at hq
    · simp only at hq
      split at hq
      · next hin =>
          rw [List.mem_singleton] at hq
          refine ⟨by rw [hq]; rfl, .inl ⟨by rw [hq]; rfl, controlBits_ack (by simp [hc]) (by simp [hc]), ?_⟩⟩
          obtain ⟨hp, hn⟩ := ackTxSar_window m r
          rw [ackInRange_iff, hp, hn] at hin
          exact (ackInRange_iff m r).mpr hin
      · cases hq
    · cases hq
  | syn =>
    simp only [hc, transitionSyn] at hq
    split at hq
    · next hst =>
        simp only [synInit, List.mem_singleton] at hq
        exact ⟨by rw [hq], .inr (.inr ⟨rfl, hst⟩)⟩
    · split_ifs at hq <;> cases hq
  | synAck =>
    simp only [hc, transitionSynAck] at hq
    split at hq
    · next hst =>
        simp only [synInit, List.mem_singleton] at hq
        simp only [Bool.and_eq_true, beq_iff_eq] at hst
        refine ⟨by rw [hq], .inl ⟨by rw [hq], controlBits_ack (by simp [hc]) (by simp [hc]), ?_⟩⟩
        rw [ackInRange_iff, hst.2]
    · split_ifs at hq <;> cases hq
  | fin =>
    simp only [hc, transitionFin] at hq
    split at hq
    · next hacc =>
        simp only [List.mem_singleton] at hq
        exact ⟨by rw [hq], .inr (.inl ⟨by rw [hq], rfl, hacc⟩)⟩
    · cases hq
  | other =>
    simp only [hc, transitionOther] at hq
    split_ifs at hq <;> cases hq

/-! ## Updates on their way to the table -/

/-- The update of `not_ackd` of session `sid` in a request of the transmit engine. -/
def TxTxSarQuery.moves (sid : SessionID) (q : TxTxSarQuery) : Option (BitVec 32) :=
  if q.write = true ∧ q.sessionID = sid ∧ q.isRtQuery = false then some q.notAckd else none

/-- The update of `ackd` of session `sid` in a request of the receive engine. -/
def RxTxSarQuery.moves (sid : SessionID) (q : RxTxSarQuery b) : Option (BitVec 32) :=
  if q.write = true ∧ q.sessionID = sid then some q.ackd else none

theorem RxTxSarQuery.eq_of_moves {q : RxTxSarQuery b} {x : BitVec 32} (h : q.moves sid = some x) :
    q.ackd = x := by
  unfold RxTxSarQuery.moves at h
  split at h
  · exact Option.some.inj h
  · cases h

theorem settled_notAckd (qs : List TxTxSarQuery) (p : SendPoint) :
    ((qs.filter (fun q => q.write && q.sessionID == sid)).foldl SendPoint.update p).notAckd =
      (qs.filterMap (TxTxSarQuery.moves sid)).foldl (fun _ x => x) p.notAckd := by
  induction qs generalizing p with
  | nil => rfl
  | cons q qs ih =>
    by_cases hq : q.write = true ∧ q.sessionID = sid
    · rw [List.filter_cons_of_pos (by simp [hq]), List.foldl_cons, ih]
      cases hrt : q.isRtQuery with
      | true =>
        rw [List.filterMap_cons_none (by simp [TxTxSarQuery.moves, hrt])]
        simp [SendPoint.update, hrt]
      | false =>
        rw [List.filterMap_cons_some (b := q.notAckd) (by simp [TxTxSarQuery.moves, hq, hrt]),
          List.foldl_cons]
        simp [SendPoint.update, hrt]
    · have hnone : q.moves sid = none := if_neg fun h => hq ⟨h.1, h.2.1⟩
      rw [List.filter_cons_of_neg (by simpa using hq), List.filterMap_cons_none hnone, ih]

/-! ## The invariant -/

namespace SendNet

/-- The pointers of `sid` as positions: `ackd` at `A`, `not_ackd` at `N`, and at `P` once the pending
writes are served.  A reply `rxTcpFSM` holds for `sid` shows the present `ackd` and a `not_ackd` that
may be old. -/
structure Window (sid : SessionID) (t : SendNet b) (A N P : Nat) : Prop where
  ackd : (t.entry sid).ackd = BitVec.ofNat 32 A
  notAckd : (t.entry sid).notAckd = BitVec.ofNat 32 N
  le : A ≤ N
  lt : P < A + 2 ^ 32
  tx : Moves (TxTxSarQuery.moves sid) N P t.tx.txReq
  rx : ∃ B, B ≤ N ∧ Moves (RxTxSarQuery.moves sid) A B t.rx.txSarReq
  reply : ∀ r ∈ t.rx.fifo.txSar2rxEngUpdRsp, t.rx.fsm.fsmMeta.sessionID = sid →
    r.prevAck = BitVec.ofNat 32 A ∧ ∃ M, r.nextByte = BitVec.ofNat 32 M ∧ A ≤ M ∧ M ≤ N

/-- The state machine has asked the tx_sar table and not yet taken the answer. -/
def rxAsks (s : RxTcpFsm) : Bool := s.fsmState == .TRANSITION && s.fsmMeta.metaData.ack

/-- What holds whatever the pointers are. -/
structure Engines (sid : SessionID) (t : SendNet b) : Prop where
  tx : t.tx.Inv
  rx : FsmInv t.rx
  client : TableClient RxTxSarQuery.write (rxAsks t.rx.fsm) t.rx.txSarReq t.rx.fifo.txSar2rxEngUpdRsp
  asked : ∀ q ∈ t.rx.txSarReq, q.write = false → q.sessionID = t.rx.fsm.fsmMeta.sessionID
  once : ∀ q ∈ t.tx.txReq, q.moves sid ≠ none → q.init = false
  events : ∀ e ∈ t.tx.fifo.eventEng2txEngEvent, ¬(e.sessionID = sid ∧ e.opens = true)
  event : t.tx.ml.mlFsmState = .WORK →
    ¬(t.tx.ml.mlCurEvent.sessionID = sid ∧ t.tx.ml.mlCurEvent.opens = true)

variable {t u : SendNet b} {A N P A' N' P' : Nat}

theorem Window.sendPoint (h : Window sid t A N P) : (t.tx.sendPoint sid).notAckd = BitVec.ofNat 32 P := by
  rw [TxNet.sendPoint, settled_notAckd, ← h.tx.settled, ← h.notAckd]
  rfl

theorem Window.rxSkip (h : Window sid t A N P)
    {ws : List (RxTxSarQuery b)} (hws : ∀ q ∈ ws, ¬(q.write = true ∧ q.sessionID = sid)) :
    ∃ B, B ≤ N ∧ Moves (RxTxSarQuery.moves sid) A B (t.rx.txSarReq ++ ws) := by
  obtain ⟨B, hB, hm⟩ := h.rx
  exact ⟨B, hB, hm.append (Moves.skip fun q hq => if_neg (hws q hq))⟩

theorem call_cases (rx rx' : FsmNet b) (e : RxTcpFsmEnv b) (h : rx.step (.call e) = some rx') :
    (rx'.fsm = rx.fsm ∧ rx'.txSarReq = rx.txSarReq ∧
        rx'.fifo.txSar2rxEngUpdRsp = rx.fifo.txSar2rxEngUpdRsp) ∨
      (∃ m, rx.fsm.fsmState = .LOAD ∧ rx'.fsm.fsmState = .TRANSITION ∧ rx'.fsm.fsmMeta = m ∧
        rx'.txSarReq = rx.txSarReq ++ (if m.metaData.ack then [.read b m.sessionID] else []) ∧
        rx'.fifo.txSar2rxEngUpdRsp = rx.fifo.txSar2rxEngUpdRsp) ∨
      (∃ tcpState states rxSar entries, rx.fsm.fsmState = .TRANSITION ∧
        rx.fifo.stateTable2rxEngUpdRsp = tcpState :: states ∧
        rx.fifo.rxSar2rxEngUpdRsp = rxSar :: entries ∧
        (rx.fsm.fsmTxSarRequest && rx.fifo.txSar2rxEngUpdRsp.isEmpty) = false ∧
        rx'.fsm.fsmState = .LOAD ∧ rx'.fsm.fsmMeta = rx.fsm.fsmMeta ∧
        rx'.txSarReq = rx.txSarReq ++
          (transition b e rx.fsm.fsmMeta tcpState rxSar
            (takeTxSar b e rx.fsm.fsmMeta.metaData rx.fifo.txSar2rxEngUpdRsp).1).rxEng2txSarUpdReq ∧
        rx'.fifo.txSar2rxEngUpdRsp =
          (takeTxSar b e rx.fsm.fsmMeta.metaData rx.fifo.txSar2rxEngUpdRsp).2) := by
  simp only [FsmNet.step, Option.some.injEq] at h
  subst h
  rcases rxTcpFSM_cases e rx.fsm rx.fifo with hc | ⟨m, rest, hL, -, hc⟩ |
    ⟨tcpState, states, rxSar, entries, hT, hst, hrx, hr, hc⟩
  · left
    simp [hc]
  · right; left
    rw [hc]
    exact ⟨m, hL, rfl, rfl, rfl, rfl⟩
  · right; right
    rw [hc]
    exact ⟨tcpState, states, rxSar, entries, hT, hst, hrx, hr, rfl, rfl, rfl, rfl⟩

/-- The answers at hand when a transition is ready: with ACK exactly one and no request behind it,
without ACK none. -/
theorem Engines.ready (h : Engines sid t) (hT : t.rx.fsm.fsmState = .TRANSITION)
    (hr : (t.rx.fsm.fsmTxSarRequest && t.rx.fifo.txSar2rxEngUpdRsp.isEmpty) = false) :
    (t.rx.fsm.fsmMeta.metaData.ack = true ∧ t.rx.txSarReq = [] ∧
        ∃ r, t.rx.fifo.txSar2rxEngUpdRsp = [r]) ∨
      (t.rx.fsm.fsmMeta.metaData.ack = false ∧ t.rx.fifo.txSar2rxEngUpdRsp = [] ∧
        rxAsks t.rx.fsm = false) := by
  have hc := h.client
  have hreq := h.rx.request
  rw [show t.rx.fsm.current = [t.rx.fsm.fsmMeta] by simp [RxTcpFsm.current, hT]] at hreq
  cases ha : t.rx.fsm.fsmMeta.metaData.ack with
  | false =>
    have hask : rxAsks t.rx.fsm = false := by simp [rxAsks, ha]
    rw [hask] at hc
    exact .inr ⟨rfl, hc.rsps_eq_nil, hask⟩
  | true =>
    cases hrsp : t.rx.fifo.txSar2rxEngUpdRsp with
    | nil => simp [hreq, ha, hrsp] at hr
    | cons r rest =>
      rw [hrsp] at hc
      obtain ⟨-, hreqs, hrest⟩ := hc.take
      exact .inl ⟨rfl, hreqs, r, by rw [hrest]⟩

variable {rx : FsmNet b}

theorem Engines.rxSame (h : Engines sid t) (hrx : FsmInv rx)
    (hfsm : rx.fsm = t.rx.fsm) (hreq : rx.txSarReq = t.rx.txSarReq)
    (hrsp : rx.fifo.txSar2rxEngUpdRsp = t.rx.fifo.txSar2rxEngUpdRsp) :
    Engines sid { t with rx } := by
  refine ⟨h.tx, hrx, ?_, ?_, h.once, h.events, h.event⟩
  · show TableClient _ (rxAsks rx.fsm) rx.txSarReq rx.fifo.txSar2rxEngUpdRsp
    rw [hfsm, hreq, hrsp]
    exact h.client
  · show ∀ q ∈ rx.txSarReq, _ → _ = rx.fsm.fsmMeta.sessionID
    rw [hfsm, hreq]
    exact h.asked

theorem Window.rxSame (h : Window sid t A N P)
    (hfsm : rx.fsm = t.rx.fsm) (hreq : rx.txSarReq = t.rx.txSarReq)
    (hrsp : rx.fifo.txSar2rxEngUpdRsp = t.rx.fifo.txSar2rxEngUpdRsp) :
    Window sid { t with rx } A N P := by
  refine { h with rx := ?_, reply := ?_ }
  · show ∃ B, B ≤ N ∧ Moves _ A B rx.txSarReq
    rw [hreq]
    exact h.rx
  · show ∀ r ∈ rx.fifo.txSar2rxEngUpdRsp, rx.fsm.fsmMeta.sessionID = sid → _
    rw [hfsm, hrsp]
    exact h.reply

variable {e : RxTcpFsmEnv b}

theorem Engines.rxCall (h : Engines sid t)
    (hs : t.rx.step (.call e) = some rx) : Engines sid { t with rx } := by
  have hrx := inv_step h.rx hs
  have hc := h.client
  rcases call_cases t.rx rx e hs with ⟨hfsm, hreq, hrsp⟩ | ⟨m, hL, hT, hm, hreq, hrsp⟩ |
    ⟨tcpState, states, rxSar, entries, hT, hst, hent, hr, hL, hm, hreq, hrsp⟩
  · exact h.rxSame hrx hfsm hreq hrsp
  · have hquiet : rxAsks t.rx.fsm = false := by simp [rxAsks, hL]
    rw [hquiet] at hc
    refine ⟨h.tx, hrx, ?_, ?_, h.once, h.events, h.event⟩
    · show TableClient _ (rxAsks rx.fsm) rx.txSarReq rx.fifo.txSar2rxEngUpdRsp
      rw [hreq, hrsp]
      cases ha : m.metaData.ack with
      | true =>
        rw [show rxAsks rx.fsm = true by simp [rxAsks, hT, hm, ha]]
        exact hc.ask rfl
      | false =>
        rw [show rxAsks rx.fsm = false by simp [rxAsks, hm, ha]]
        simpa using hc
    · intro q hq hf
      change q ∈ rx.txSarReq at hq
      show q.sessionID = rx.fsm.fsmMeta.sessionID
      rw [hreq] at hq
      rcases List.mem_append.mp hq with hq | hq
      · rw [hc.writes q hq] at hf
        cases hf
      · split at hq
        · rw [List.mem_singleton] at hq
          rw [hq, hm]
          rfl
        · cases hq
  · have hw := transition_txSarReq e t.rx.fsm.fsmMeta tcpState rxSar
      (takeTxSar b e t.rx.fsm.fsmMeta.metaData t.rx.fifo.txSar2rxEngUpdRsp).1
    have hleft := (takeTxSar_ready e h.rx hT hr).1
    rw [hleft] at hrsp
    have hwrites : ∀ q ∈ t.rx.txSarReq, q.write = true := by
      rcases h.ready hT hr with ⟨-, hnil, -⟩ | ⟨-, hnil, hask⟩
      · rw [hnil]
        simp
      · rw [hask] at hc
        exact hc.writes
    have hall : ∀ q ∈ rx.txSarReq, q.write = true := by
      intro q hq
      rw [hreq] at hq
      rcases List.mem_append.mp hq with hq | hq
      · exact hwrites q hq
      · exact hw q hq
    refine ⟨h.tx, hrx, ?_, ?_, h.once, h.events, h.event⟩
    · show TableClient _ (rxAsks rx.fsm) rx.txSarReq rx.fifo.txSar2rxEngUpdRsp
      rw [show rxAsks rx.fsm = false by simp [rxAsks, hL], hrsp]
      exact TableClient.quiet hall
    · intro q hq hf
      rw [hall q hq] at hf
      cases hf

/-- What a checked transition writes for `sid` lies in the window that `rxTcpFSM` has read. -/
theorem Window.transition_writes
    {tcpState : SessionState} {states : List SessionState} {rxSar : RxSarEntry b}
    {entries : List (RxSarEntry b)} {r : RxTxSarReply b} (hw : Window sid t A N P)
    (hok : t.ackChecked sid = true) (hT : t.rx.fsm.fsmState = .TRANSITION)
    (hst : t.rx.fifo.stateTable2rxEngUpdRsp = tcpState :: states)
    (hent : t.rx.fifo.rxSar2rxEngUpdRsp = rxSar :: entries)
    (hrsp : t.rx.fifo.txSar2rxEngUpdRsp = [r]) (hid : t.rx.fsm.fsmMeta.sessionID = sid)
    (hsyn : controlBits t.rx.fsm.fsmMeta.metaData ≠ .syn) :
    ∃ x, A ≤ x ∧ x ≤ N ∧
      ∀ q ∈ (transition b e t.rx.fsm.fsmMeta tcpState rxSar r).rxEng2txSarUpdReq,
        q.ackd = BitVec.ofNat 32 x := by
  obtain ⟨hA, M, hM, hAM, hMN⟩ := hw.reply r (by simp [hrsp]) hid
  have hlt : M < A + 2 ^ 32 := by
    have := hw.tx.le
    have := hw.lt
    omega
  have hq := transition_ackd e t.rx.fsm.fsmMeta tcpState rxSar r
  by_cases hin : ackInRange b t.rx.fsm.fsmMeta r = true
  · obtain ⟨x, hx, hAx, hxM⟩ := ackInRange_of_pos hA hM hAM hlt hin
    refine ⟨x, hAx, by omega, ?_⟩
    intro q hm
    rcases (hq q hm).2 with ⟨hack, -⟩ | ⟨hack, -⟩ | ⟨hc, -⟩
    · rw [hack, hx]
    · rw [hack, hx]
    · exact absurd hc hsyn
  · -- out of range: only an accepted FIN would write, and the check excludes it
    refine ⟨A, Nat.le_refl A, hw.le, ?_⟩
    intro q hm
    exfalso
    rcases (hq q hm).2 with ⟨-, -, hin'⟩ | ⟨-, hfin, hacc⟩ | ⟨hc, -⟩
    · exact hin hin'
    · apply hin
      simpa [ackChecked, hT, hst, hent, hid, hfin, hacc, hrsp] using hok
    · exact hsyn hc

theorem Window.rxCall
    (h : Engines sid t) (hw : Window sid t A N P) (hok : t.ackChecked sid = true)
    (hs : t.rx.step (.call e) = some rx) : Window sid { t with rx } A N P := by
  rcases call_cases t.rx rx e hs with ⟨hfsm, hreq, hrsp⟩ | ⟨m, hL, hT, hm, hreq, hrsp⟩ |
    ⟨tcpState, states, rxSar, entries, hT, hst, hent, hr, hL, hm, hreq, hrsp⟩
  · exact hw.rxSame hfsm hreq hrsp
  · have hquiet : rxAsks t.rx.fsm = false := by simp [rxAsks, hL]
    have hc := h.client
    rw [hquiet] at hc
    refine { hw with rx := ?_, reply := ?_ }
    · show ∃ B, B ≤ N ∧ Moves _ A B rx.txSarReq
      rw [hreq]
      refine hw.rxSkip ?_
      intro q hq
      split at hq
      · rw [List.mem_singleton] at hq
        simp [hq, RxTxSarQuery.read]
      · cases hq
    · show ∀ r ∈ rx.fifo.txSar2rxEngUpdRsp, _
      rw [hrsp, hc.rsps_eq_nil]
      simp
  · rw [(takeTxSar_ready e h.rx hT hr).1] at hrsp
    refine { hw with rx := ?_, reply := ?_ }
    · show ∃ B, B ≤ N ∧ Moves _ A B rx.txSarReq
      rw [hreq]
      by_cases hid : t.rx.fsm.fsmMeta.sessionID = sid
      · rcases h.ready hT hr with ⟨hack, hnil, r, hone⟩ | ⟨hack, hnil, -⟩
        · -- the window was read, and no update has been queued since
          have hsyn := controlBits_ne_syn hack
          obtain ⟨x, hAx, hxN, hx⟩ := hw.transition_writes (e := e) hok hT hst hent hone hid hsyn
          rw [hnil, hone, takeTxSar_singleton e _ r hack]
          have hone : ∀ q ∈ (transition b e t.rx.fsm.fsmMeta tcpState rxSar r).rxEng2txSarUpdReq,
              ∀ y, q.moves sid = some y → y = BitVec.ofNat 32 x := by
            intro q hq y hy
            rw [← hx q hq]
            exact (RxTxSarQuery.eq_of_moves hy).symm
          obtain ⟨B, hB, hm⟩ := Moves.const hAx hone
          exact ⟨B, Nat.le_trans hB hxN, hm⟩
        · -- without ACK only an accepted SYN would write
          refine hw.rxSkip ?_
          intro q hq
          rcases (transition_ackd e _ _ _ _ q hq).2 with ⟨-, ha, -⟩ | ⟨-, hfin, -⟩ | ⟨hc, hsyn⟩
          · rw [hack] at ha
            cases ha
          · rw [controlBits_ack (by simp [hfin]) (by simp [hfin])] at hack
            cases hack
          · exfalso
            simp [ackChecked, hT, hst, hent, hid, hc] at hok
            simp [hok] at hsyn
      · refine hw.rxSkip ?_
        intro q hq hq'
        exact hid ((transition_ackd e _ _ _ _ q hq).1 ▸ hq'.2)
    · show ∀ r ∈ rx.fifo.txSar2rxEngUpdRsp, _
      rw [hrsp]
      simp

theorem mlRequests_moves {e : ExtendedEvent b} {ml : MetaLoader b} (he : ml.mlCurEvent = e)
    (hl : ml.mlSarLoaded = false) :
    ∀ q ∈ (mlRequests e).txEng2txSarUpdReq, q.moves sid = none := by
  intro q hq
  rw [TxNet.mlRequests_asks e ml he hl] at hq
  split at hq
  · rw [List.mem_singleton] at hq
    simp [hq, TxTxSarQuery.moves, TxTxSarQuery.read]
  · cases hq

theorem moves_eq_none {q : TxTxSarQuery} (h : q.sessionID = sid → q.isRtQuery = true) :
    q.moves sid = none := by
  refine if_neg ?_
  rintro ⟨-, hid, hrt⟩
  rw [h hid] at hrt
  cases hrt

/-- A handler initialises the entry of `sid` for an opening event only. -/
theorem handle_once {ml : MetaLoader b} {rxSar : RxSarReply} {r : TxTxSarReply b}
    (h : ¬(ml.mlCurEvent.sessionID = sid ∧ ml.mlCurEvent.opens = true)) :
    ∀ q ∈ (ml.handle rxSar r).2.txEng2txSarUpdReq, q.moves sid ≠ none → q.init = false := by
  intro q hq hmv
  by_cases hid : ml.mlCurEvent.sessionID = sid
  · have hopen : ml.mlCurEvent.opens = false := by simpa [hid] using h
    rcases MetaLoader.handle_advance hopen rxSar r with hrt | ⟨-, -, hone⟩
    · exact absurd (moves_eq_none fun _ => (hrt q hq).1) hmv
    · rw [hone, List.mem_singleton] at hq
      rw [hq]
      rfl
  · refine absurd (moves_eq_none fun hq' => ?_) hmv
    exact absurd ((ml.handle_writes rxSar r q hq).2 ▸ hq') hid

theorem Engines.metaLoader (h : Engines sid t) : Engines sid { t with tx := t.tx.callMl.1 } := by
  have htx := h.tx.callMl
  have hcalled := h.tx.called
  generalize t.tx.callMl = u at htx hcalled
  cases hcalled with
  | idle ml hml =>
    refine { h with tx := htx, event := ?_ }
    rcases hml with rfl | ⟨-, hI⟩
    · exact h.event
    · intro hW
      rw [show ml.mlFsmState = _ from hI] at hW
      cases hW
  | take e rest ml hI hev hW he hl =>
    have hevents := h.events
    rw [hev] at hevents
    refine ⟨htx, h.rx, h.client, h.asked, ?_, ?_, ?_⟩
    · intro q hq hmv
      rcases List.mem_append.mp hq with hq | hq
      · exact h.once q hq hmv
      · exact absurd (mlRequests_moves he hl q hq) hmv
    · exact fun e' he' => hevents e' (List.mem_cons_of_mem e he')
    · intro _
      rw [show ml.mlCurEvent = e from he]
      exact hevents e List.mem_cons_self
  | work rxSar r fifo hW ht hr =>
    refine ⟨htx, h.rx, h.client, h.asked, ?_, ?_, ?_⟩
    · intro q hq hmv
      rcases List.mem_append.mp hq with hq | hq
      · exact h.once q hq hmv
      · exact handle_once (h.event hW) q hq hmv
    · show ∀ e ∈ fifo.eventEng2txEngEvent, _
      rw [ht.event]
      exact h.events
    · intro hW'
      rcases t.tx.ml.handle_next rxSar r with hI | ⟨hrt, -, -, hcur, -⟩
      · rw [show (t.tx.ml.handle rxSar r).1.mlFsmState = _ from hI] at hW'
        cases hW'
      · -- a retransmission goes on as a retransmission or as the FIN
        rintro ⟨-, ho⟩
        change (t.tx.ml.handle rxSar r).1.mlCurEvent.opens = true at ho
        rcases hcur with hcur | ⟨-, hcur⟩
        · rw [hcur] at ho
          simp [ExtendedEvent.opens, hrt] at ho
        · rw [hcur] at ho
          simp [ExtendedEvent.opens] at ho

theorem Window.metaLoader (h : Engines sid t) (hw : Window sid t A N P) (hok : t.flightBounded sid = true) :
    ∃ P', Window sid { t with tx := t.tx.callMl.1 } A N P' := by
  have hcalled := h.tx.called
  generalize t.tx.callMl = u at hcalled
  cases hcalled with
  | idle ml hml => exact ⟨P, hw.ackd, hw.notAckd, hw.le, hw.lt, hw.tx, hw.rx, hw.reply⟩
  | take e rest ml hI hev hW he hl =>
    exact ⟨P, hw.ackd, hw.notAckd, hw.le, hw.lt,
      hw.tx.append (Moves.skip (mlRequests_moves he hl)), hw.rx, hw.reply⟩
  | work rxSar r fifo hW ht hr =>
    have hwrites := t.tx.ml.handle_writes rxSar r
    by_cases hid : t.tx.ml.mlCurEvent.sessionID = sid
    · have hopen : t.tx.ml.mlCurEvent.opens = false := by
        have := h.event hW
        simpa [hid] using this
      rcases MetaLoader.handle_advance hopen rxSar r with hrt | ⟨hheld, -, hone⟩
      · refine ⟨P, hw.ackd, hw.notAckd, hw.le, hw.lt, hw.tx.append (Moves.skip ?_), hw.rx, hw.reply⟩
        exact fun q hq => moves_eq_none fun _ => (hrt q hq).1
      · have hpos := hw.sendPoint
        have hle := Nat.le_trans hw.le hw.tx.le
        -- the reply shows the settled `not_ackd`
        have hr' : r.notAckd = BitVec.ofNat 32 P := by
          rw [← hpos, ← hid, ← hr hheld]
          rfl
        have hflight : P + t.tx.ml.mlCurEvent.advance < A + 2 ^ 32 := by
          simp only [flightBounded, hW, hid, hpos, hw.ackd, ofNat_sub_toNat hle hw.lt, bne_self_eq_false,
            Bool.false_or, decide_eq_true_eq] at hok
          omega
        refine ⟨P + t.tx.ml.mlCurEvent.advance, hw.ackd, hw.notAckd, hw.le, hflight,
          hw.tx.append ?_, hw.rx, hw.reply⟩
        rw [show (t.tx.ml.handle rxSar r).2.txEng2txSarUpdReq = _ from hone]
        refine Moves.single (x := r.notAckd + BitVec.ofNat 32 t.tx.ml.mlCurEvent.advance) ?_ ?_
          (Nat.le_add_right _ _)
        · simp [TxTxSarQuery.moves, TxTxSarQuery.update, hid]
        · rw [hr', BitVec.ofNat_add]
    · refine ⟨P, hw.ackd, hw.notAckd, hw.le, hw.lt, hw.tx.append (Moves.skip ?_), hw.rx, hw.reply⟩
      exact fun q hq => moves_eq_none fun hq' => absurd ((hwrites q hq).2 ▸ hq') hid

/-- The network after a call of the table. -/
def served (t : SendNet b) (u : TxNet b × List (RxTxSarQuery b) × TxSarTableOut b) : SendNet b :=
  { rx := { t.rx with
      txSarReq := u.2.1
      fifo := { t.rx.fifo with
        txSar2rxEngUpdRsp := t.rx.fifo.txSar2rxEngUpdRsp ++ u.2.2.txSar2rxEngUpdRsp } }
    tx := u.1 }

theorem Engines.table (h : Engines sid t) : Engines sid (t.served (t.tx.callTable t.rx.txSarReq)) := by
  have htx := h.tx.callTable t.rx.txSarReq
  have hs := t.tx.served t.rx.txSarReq
  generalize t.tx.callTable t.rx.txSarReq = u at htx hs
  have hc := h.client
  cases hs with
  | txWrite q rest hq hw =>
    simp only [served, List.append_nil]
    exact ⟨htx, h.rx, hc, h.asked, fun q' hq' => h.once q' (hq ▸ List.mem_cons_of_mem q hq'),
      h.events, h.event⟩
  | txRead q rest hq hw =>
    simp only [served, List.append_nil]
    exact ⟨htx, h.rx, hc, h.asked, fun q' hq' => h.once q' (hq ▸ List.mem_cons_of_mem q hq'),
      h.events, h.event⟩
  | app push rest ht hp =>
    simp only [served, List.append_nil]
    exact { h with tx := htx, client := hc }
  | rxWrite q rest ht hq hw =>
    have hstep : t.rx.step (.txSarTable default) = some { t.rx with
        txSarReq := rest
        fifo := { t.rx.fifo with txSar2rxEngUpdRsp := t.rx.fifo.txSar2rxEngUpdRsp ++ [] } } := by
      simp [FsmNet.step, hq, hw]
    rw [hq] at hc
    refine ⟨htx, inv_step h.rx hstep, ?_, ?_, h.once, h.events, h.event⟩
    · show TableClient _ _ rest (t.rx.fifo.txSar2rxEngUpdRsp ++ [])
      rw [List.append_nil]
      exact hc.serve_write hw
    · exact fun q' hq' => h.asked q' (hq ▸ List.mem_cons_of_mem q hq')
  | rxRead q rest ht hq hw =>
    have hstep : t.rx.step (.txSarTable (t.tx.table q.sessionID).rxReply) = some { t.rx with
        txSarReq := rest
        fifo := { t.rx.fifo with txSar2rxEngUpdRsp :=
          t.rx.fifo.txSar2rxEngUpdRsp ++ [(t.tx.table q.sessionID).rxReply] } } := by
      simp [FsmNet.step, hq, hw]
    rw [hq] at hc
    obtain ⟨hbusy, rfl, hrsp⟩ := hc.serve_read hw
    refine ⟨htx, inv_step h.rx hstep, ?_, ?_, h.once, h.events, h.event⟩
    · show TableClient _ (rxAsks t.rx.fsm) [] (t.rx.fifo.txSar2rxEngUpdRsp ++ _)
      rw [hbusy, hrsp]
      exact TableClient.answered _
    · intro q' hq'
      cases hq'
  | none ht hq =>
    simp only [served, List.append_nil]
    exact h

theorem entry_update {id : SessionID} {f : TxSarEntry b → TxSarEntry b} :
    Function.update t.tx.table id (f (t.tx.table id)) sid =
      if id = sid then f (t.entry sid) else t.entry sid := by
  by_cases hid : id = sid
  · subst hid
    simp [entry]
  · rw [if_neg hid, Function.update_of_ne (fun h => hid h.symm)]
    rfl

/-- What one call of the table tells the application about `sid`: nothing, or that `ackd` is at `A'`. -/
inductive Pushed (sid : SessionID) (A A' : Nat) : List (TxSarAckPush b) → Prop
  | none (ps : List (TxSarAckPush b)) (h : ∀ p ∈ ps, p.sessionID ≠ sid) (hA : A' = A) : Pushed sid A A' ps
  | ackd (p : TxSarAckPush b) (hid : p.sessionID = sid) (hinit : p.init = false)
      (hp : p.ackd = BitVec.ofNat _ A') : Pushed sid A A' [p]

theorem initPush_other {q : TxTxSarQuery} (hwr : q.write = true)
    (honce : q.moves sid ≠ none → q.init = false) :
    ∀ p ∈ (TxSarEntry.initPush q : List (TxSarAckPush b)), p.sessionID ≠ sid := by
  intro p hp hid
  unfold TxSarEntry.initPush at hp
  split at hp
  · next hi =>
      rw [List.mem_singleton] at hp
      subst hp
      simp only [Bool.and_eq_true, Bool.not_eq_true'] at hi
      have h0 := honce (by simp [TxTxSarQuery.moves, hwr, show q.sessionID = sid from hid, hi.1])
      rw [hi.2] at h0
      cases h0
  · cases hp

/-- The table moves `ackd` and `not_ackd` forward, and `ackd` within the window; the application learns
of every move of `ackd`. -/
theorem Window.table (h : Engines sid t) (hw : Window sid t A N P) :
    ∃ A' N', Window sid (t.served (t.tx.callTable t.rx.txSarReq)) A' N' P ∧
      A ≤ A' ∧ A' ≤ N ∧ N ≤ N' ∧
      Pushed sid A A' (t.tx.callTable t.rx.txSarReq).2.2.txSar2txAppAckPush := by
  have hs := t.tx.served t.rx.txSarReq
  generalize t.tx.callTable t.rx.txSarReq = u at hs
  have hc := h.client
  have stay (u : TxNet b) (hq : Moves (TxTxSarQuery.moves sid) N P u.txReq)
      (hA : (u.table sid).ackd = (t.entry sid).ackd)
      (hN : (u.table sid).notAckd = (t.entry sid).notAckd) :
      Window sid { t with tx := u } A N P :=
    ⟨hA.trans hw.ackd, hN.trans hw.notAckd, hw.le, hw.lt, hq, hw.rx, hw.reply⟩
  cases hs with
  | txWrite q rest hq hwr =>
    have htx := hw.tx
    have honce := h.once q (hq ▸ List.mem_cons_self)
    rw [hq] at htx
    have hpush := initPush_other (b := b) hwr honce
    simp only [served, List.append_nil]
    by_cases hmv : q.write = true ∧ q.sessionID = sid ∧ q.isRtQuery = false
    · have hsome : q.moves sid = some q.notAckd := if_pos hmv
      have hinit := honce (by simp [hsome])
      obtain ⟨M, hM, hNM, htx⟩ := (Moves.cons_some hsome).mp htx
      refine ⟨A, M, ⟨?_, ?_, Nat.le_trans hw.le hNM, hw.lt, htx, ?_, ?_⟩,
        Nat.le_refl A, hw.le, hNM, .none _ hpush rfl⟩
      · show (Function.update t.tx.table q.sessionID _ sid).ackd = _
        rw [entry_update (f := fun entry => entry.txEngUpdate q), if_pos hmv.2.1, ← hw.ackd]
        simp [TxSarEntry.txEngUpdate, hmv.2.2, hinit]
      · show (Function.update t.tx.table q.sessionID _ sid).notAckd = _
        rw [entry_update (f := fun entry => entry.txEngUpdate q), if_pos hmv.2.1, ← hM]
        simp [TxSarEntry.txEngUpdate, hmv.2.2, hinit]
      · obtain ⟨B, hB, hm⟩ := hw.rx
        exact ⟨B, Nat.le_trans hB hNM, hm⟩
      · intro r hr hid
        obtain ⟨hA, M', hM', hAM', hMN'⟩ := hw.reply r hr hid
        exact ⟨hA, M', hM', hAM', Nat.le_trans hMN' hNM⟩
    · have hnone : q.moves sid = none := if_neg hmv
      refine ⟨A, N, stay _ ((Moves.cons_none hnone).mp htx) ?_ ?_, Nat.le_refl A, hw.le, Nat.le_refl N,
        .none _ hpush rfl⟩
      all_goals
        dsimp only
        rw [entry_update (f := fun entry => entry.txEngUpdate q)]
        split
        · next hid =>
            have hrt : q.isRtQuery = true := by simpa [hwr, hid] using hmv
            simp [TxSarEntry.txEngUpdate, hrt]
        · rfl
  | txRead q rest hq hwr =>
    have htx := hw.tx
    rw [hq, Moves.cons_none (by simp [TxTxSarQuery.moves, hwr])] at htx
    simp only [served, List.append_nil]
    exact ⟨A, N, stay _ htx rfl rfl, Nat.le_refl A, hw.le, Nat.le_refl N, .none _ (by simp) rfl⟩
  | app push rest ht hp =>
    simp only [served, List.append_nil]
    refine ⟨A, N, stay _ hw.tx ?_ ?_, Nat.le_refl A, hw.le, Nat.le_refl N, .none _ (by simp) rfl⟩
    all_goals
      dsimp only
      rw [entry_update (f := fun entry => { entry with app := push.app })]
      split <;> rfl
  | rxWrite q rest ht hq hwr =>
    obtain ⟨B, hB, hrx⟩ := hw.rx
    rw [hq] at hc hrx
    -- no reply is held while an update is pending
    have hrsp : t.rx.fifo.txSar2rxEngUpdRsp = [] := by
      cases hr : t.rx.fifo.txSar2rxEngUpdRsp with
      | nil => rfl
      | cons r rs =>
        rw [hr] at hc
        cases hc.take.2.1
    have hreply (A' : Nat) : ∀ r ∈ (t.rx.fifo.txSar2rxEngUpdRsp ++ ([] : List (RxTxSarReply b))),
        t.rx.fsm.fsmMeta.sessionID = sid →
        r.prevAck = BitVec.ofNat 32 A' ∧ ∃ M, r.nextByte = BitVec.ofNat 32 M ∧ A' ≤ M ∧ M ≤ N := by
      simp [hrsp]
    by_cases hid : q.sessionID = sid
    · have hsome : q.moves sid = some q.ackd := if_pos ⟨hwr, hid⟩
      obtain ⟨x, hx, hAx, hrx⟩ := (Moves.cons_some hsome).mp hrx
      have hxN := Nat.le_trans hrx.le hB
      have hackd : q.ackd.setWidth b.windowBits = BitVec.ofNat _ x := by
        rw [hx, setWidth_ofNat b.windowBits_le]
      refine ⟨x, N, ⟨?_, ?_, hxN, ?_, hw.tx, ⟨B, hB, hrx⟩, hreply x⟩, hAx, hxN, Nat.le_refl N,
        .ackd _ hid rfl hackd⟩
      · show (Function.update t.tx.table q.sessionID _ sid).ackd = _
        rw [entry_update (f := fun entry => entry.rxEngUpdate q), if_pos hid]
        exact hx
      · show (Function.update t.tx.table q.sessionID _ sid).notAckd = _
        rw [entry_update (f := fun entry => entry.rxEngUpdate q), if_pos hid]
        exact hw.notAckd
      · have := hw.lt
        omega
    · have hnone : q.moves sid = none := if_neg fun h => hid h.2
      rw [Moves.cons_none hnone] at hrx
      refine ⟨A, N, ⟨?_, ?_, hw.le, hw.lt, hw.tx, ⟨B, hB, hrx⟩, hreply A⟩, Nat.le_refl A, hw.le,
        Nat.le_refl N, .none _ (by simpa [TxSarEntry.ackPush] using hid) rfl⟩
      · show (Function.update t.tx.table q.sessionID _ sid).ackd = _
        rw [entry_update (f := fun entry => entry.rxEngUpdate q), if_neg hid]
        exact hw.ackd
      · show (Function.update t.tx.table q.sessionID _ sid).notAckd = _
        rw [entry_update (f := fun entry => entry.rxEngUpdate q), if_neg hid]
        exact hw.notAckd
  | rxRead q rest ht hq hwr =>
    obtain ⟨B, hB, hrx⟩ := hw.rx
    rw [hq] at hc hrx
    rw [Moves.cons_none (by simp [RxTxSarQuery.moves, hwr])] at hrx
    obtain ⟨-, -, hrsp⟩ := hc.serve_read hwr
    have hasked := h.asked q (hq ▸ List.mem_cons_self) hwr
    refine ⟨A, N, ⟨hw.ackd, hw.notAckd, hw.le, hw.lt, hw.tx, ⟨B, hB, hrx⟩, ?_⟩, Nat.le_refl A, hw.le,
      Nat.le_refl N, .none _ (by simp) rfl⟩
    -- the reply shows the window as it is now
    intro r hr hid
    simp only [served, hrsp, List.nil_append, List.mem_singleton] at hr
    rw [hr, hasked, show t.rx.fsm.fsmMeta.sessionID = sid from hid]
    exact ⟨hw.ackd, N, hw.notAckd, hw.le, Nat.le_refl N⟩
  | none ht hq =>
    simp only [served, List.append_nil]
    exact ⟨A, N, hw, Nat.le_refl A, hw.le, Nat.le_refl N, .none _ (by simp) rfl⟩

def Inv (sid : SessionID) (t : SendNet b) : Prop := Engines sid t ∧ ∃ A N P, Window sid t A N P

/-- What one step does to the pointers: `ackd` moves within `[ackd, not_ackd]`, and `not_ackd` is not
passed after the step either. -/
structure Forward (sid : SessionID) (t u : SendNet b) : Prop where
  ackd : ((u.entry sid).ackd - (t.entry sid).ackd).toNat ≤
    ((t.entry sid).notAckd - (t.entry sid).ackd).toNat
  notAckd : ((t.entry sid).notAckd - (t.entry sid).ackd).toNat ≤
    ((u.entry sid).notAckd - (t.entry sid).ackd).toNat

theorem Window.forward (ht : Window sid t A N P)
    (hu : Window sid u A' N' P') (hA : A ≤ A') (hA' : A' ≤ N) (hN : N ≤ N') (hlt : N' < A + 2 ^ 32) :
    Forward sid t u := by
  have hle := ht.le
  constructor
  · rw [hu.ackd, ht.ackd, ht.notAckd, ofNat_sub_toNat hA (by omega), ofNat_sub_toNat hle (by omega)]
    omega
  · rw [hu.notAckd, ht.ackd, ht.notAckd, ofNat_sub_toNat hle (by omega),
      ofNat_sub_toNat (by omega) hlt]
    omega

/-- A step of the receive side is a call of `rxTcpFSM` or an arrival that leaves the state machine and its tx_sar
FIFOs alone. -/
theorem rx_cases {l : FsmLabel b} (hs : t.step sid (.rx l) = some u) :
    ∃ rx, t.rx.step l = some rx ∧ u = { t with rx } ∧
      ((∃ e, l = .call e) ∨
        rx.fsm = t.rx.fsm ∧ rx.txSarReq = t.rx.txSarReq ∧
          rx.fifo.txSar2rxEngUpdRsp = t.rx.fifo.txSar2rxEngUpdRsp) := by
  cases l with
  | txSarTable r => cases hs
  | call e =>
    simp only [SendNet.step, Option.map_eq_some_iff] at hs
    obtain ⟨rx, hrx, rfl⟩ := hs
    exact ⟨rx, hrx, rfl, .inl ⟨e, rfl⟩⟩
  | arrive m =>
    simp only [SendNet.step, Option.map_eq_some_iff] at hs
    obtain ⟨rx, hrx, rfl⟩ := hs
    refine ⟨rx, hrx, rfl, .inr ?_⟩
    cases hrx
    exact ⟨rfl, rfl, rfl⟩
  | stateTable | rxSarTable =>
    simp only [SendNet.step, Option.map_eq_some_iff] at hs
    obtain ⟨rx, hrx, rfl⟩ := hs
    refine ⟨rx, hrx, rfl, .inr ?_⟩
    simp only [FsmNet.step] at hrx
    split at hrx <;> cases hrx
    exact ⟨rfl, rfl, rfl⟩

theorem Engines.step {l : SendLabel b} (h : Engines sid t) (hs : t.step sid l = some u) : Engines sid u := by
  cases l with
  | rx l =>
    obtain ⟨rx, hrx, rfl, ⟨e, rfl⟩ | ⟨hfsm, hreq, hrsp⟩⟩ := rx_cases hs
    · exact h.rxCall hrx
    · exact h.rxSame (Toe.inv_step h.rx hrx) hfsm hreq hrsp
  | event e =>
    simp only [SendNet.step] at hs
    split at hs
    · cases hs
    · next hopen =>
        cases hs
        refine { h with tx := ⟨h.tx.client, h.tx.asked, h.tx.reply, h.tx.register⟩, events := ?_ }
        intro e' he'
        rcases List.mem_append.mp he' with he' | he'
        · exact h.events e' he'
        · rw [List.mem_singleton] at he'
          rw [he']
          exact hopen
  | rxSarRsp | appPush =>
    cases hs
    exact { h with tx := ⟨h.tx.client, h.tx.asked, h.tx.reply, h.tx.register⟩ }
  | metaLoader =>
    cases hs
    exact h.metaLoader
  | txSarTable =>
    cases hs
    exact h.table

theorem inv_step {l : SendLabel b} (h : Inv sid t) (hok : checked sid t l = true)
    (hs : t.step sid l = some u) : Inv sid u ∧ Forward sid t u := by
  obtain ⟨he, A, N, P, hw⟩ := h
  have hNP := hw.tx.le
  have hlt := hw.lt
  have he' : Engines sid u := he.step hs
  -- the pointers stay where they are
  have stay {P' : Nat} (hw' : Window sid u A N P') : Inv sid u ∧ Forward sid t u :=
    ⟨⟨he', A, N, P', hw'⟩, hw.forward hw' (Nat.le_refl A) hw.le (Nat.le_refl N) (by omega)⟩
  cases l with
  | rx l =>
    obtain ⟨rx, hrx, rfl, ⟨e, rfl⟩ | ⟨hfsm, hreq, hrsp⟩⟩ := rx_cases hs
    · exact stay (hw.rxCall he hok hrx)
    · exact stay (hw.rxSame hfsm hreq hrsp)
  | event e =>
    simp only [SendNet.step] at hs
    split at hs
    · cases hs
    · cases hs
      exact stay { hw with }
  | rxSarRsp | appPush =>
    cases hs
    exact stay { hw with }
  | metaLoader =>
    cases hs
    obtain ⟨P', hw'⟩ := hw.metaLoader he hok
    exact stay hw'
  | txSarTable =>
    cases hs
    obtain ⟨A', N', hw', hA, hA', hN, -⟩ := hw.table he
    have := hw'.tx.le
    exact ⟨⟨he', A', N', P, hw'⟩, hw.forward hw' hA hA' hN (by omega)⟩

/-! ## Main result -/

/-- The moment after the initialising write of `sid` with `not_ackd = n`: no write for `sid`, no reply
to `rxTcpFSM` about `sid` and no further opening of `sid` is on its way.  Otherwise the engines are in
any consistent state. -/
structure Opened (sid : SessionID) (n : BitVec 32) (t : SendNet b) : Prop where
  engines : Engines sid t
  entry : ∃ entry : TxSarEntry b, t.entry sid = entry.txEngUpdate (.update sid n true false false)
  tx : ∀ q ∈ t.tx.txReq, q.write = true → q.sessionID ≠ sid
  rx : ∀ q ∈ t.rx.txSarReq, q.write = true → q.sessionID ≠ sid
  reply : t.rx.fifo.txSar2rxEngUpdRsp ≠ [] → t.rx.fsm.fsmMeta.sessionID ≠ sid

theorem Opened.window {n : BitVec 32} (h : Opened sid n t) :
    Window sid t (n - 1).toNat ((n - 1).toNat + 1) ((n - 1).toNat + 1) := by
  obtain ⟨entry, hentry⟩ := h.entry
  refine ⟨?_, ?_, by omega, by omega, Moves.skip ?_, ⟨(n - 1).toNat, by omega, Moves.skip ?_⟩, ?_⟩
  · rw [hentry, BitVec.ofNat_toNat, BitVec.setWidth_eq]
    rfl
  · rw [hentry, BitVec.ofNat_add, BitVec.ofNat_toNat, BitVec.setWidth_eq]
    exact (BitVec.sub_add_cancel n 1).symm
  · intro q hq
    exact if_neg fun hq' => h.tx q hq hq'.1 hq'.2.1
  · intro q hq
    exact if_neg fun hq' => h.rx q hq hq'.1 hq'.2
  · intro r hr hid
    exact absurd hid (h.reply (List.ne_nil_of_mem hr))

theorem Opened.inv {n : BitVec 32} (h : Opened sid n t) : Inv sid t :=
  ⟨h.engines, _, _, _, h.window⟩

/-- In every run from the initialisation of a session whose steps are checked, every step moves `ackd`
within `[ackd, not_ackd]`, and every update of `ackd` that is on its way, whatever segment caused it,
lies in that interval. -/
theorem ackd_within_window {n : BitVec 32} {t₀ t : SendNet b} (h₀ : Opened sid n t₀)
    (h : Reach (step sid) (fun t l => checked sid t l = true) t₀ t) :
    (∀ l u, checked sid t l = true → t.step sid l = some u → Forward sid t u) ∧
      ∀ q ∈ t.rx.txSarReq, q.write = true → q.sessionID = sid →
        (q.ackd - (t.entry sid).ackd).toNat ≤ ((t.entry sid).notAckd - (t.entry sid).ackd).toNat := by
  have hinv : Inv sid t := h.invariant h₀.inv fun u l v hu hok hs => (inv_step hu hok hs).1
  refine ⟨fun l u hok hs => (inv_step hinv hok hs).2, ?_⟩
  obtain ⟨-, A, N, P, hw⟩ := hinv
  obtain ⟨B, hB, hm⟩ := hw.rx
  have hNP := hw.tx.le
  have hAB := hm.le
  have hlt := hw.lt
  intro q hq hwr hid
  have hx := hm.within (Nat.le_refl A) (by omega) hq (if_pos ⟨hwr, hid⟩)
  rw [ofNat_sub_toNat hAB (by omega)] at hx
  rw [hw.ackd, hw.notAckd, ofNat_sub_toNat hw.le (by omega)]
  omega

variable (b) in
def opened (sid : SessionID) (n : BitVec 32) : SendNet b :=
  ⟨.init b, ⟨.init b, {}, fun id =>
    if id = sid then (default : TxSarEntry b).txEngUpdate (.update sid n true false false) else default,
    [], [], []⟩⟩

theorem opened_opened (sid : SessionID) (n : BitVec 32) : Opened sid n (opened b sid n) := by
  have hw : (opened b sid n).tx.ml.mlFsmState ≠ .WORK := by simp [opened, MetaLoader.init]
  refine ⟨⟨⟨TableClient.quiet (by simp [opened]), by simp [opened], by simp [opened], fun h => absurd h hw⟩,
    ⟨rfl, ⟨rfl, rfl, rfl⟩, [], rfl, rfl⟩, TableClient.quiet (by simp [opened, FsmNet.init]),
    by simp [opened, FsmNet.init], by simp [opened], by simp [opened], fun h => absurd h hw⟩, ⟨default, ?_⟩,
    by simp [opened], by simp [opened, FsmNet.init], by simp [opened, FsmNet.init]⟩
  simp [entry, opened]

def segment (seqNumb ackNumb : BitVec 32) (syn fin : Bool) : RxFsmMetaData :=
  { (default : RxFsmMetaData) with
    metaData := { (default : RxEngineMetaData) with seqNumb, ackNumb, ack := true, syn, fin } }

/-- `rxTcpFSM` receives a segment with ACK: reads, replies, transition. -/
def receive (m : RxFsmMetaData) (tcpState : SessionState) (recvd : BitVec 32) :
    List (SendLabel .sample) :=
  let e : RxTcpFsmEnv .sample := ⟨default, 0, 0⟩
  [.rx (.arrive m), .rx (.call e), .rx (.stateTable tcpState),
    .rx (.rxSarTable { (default : RxSarEntry .sample) with recvd }), .txSarTable, .rx (.call e)]

/-- The SYN-ACK that establishes session 0, and the writes it causes. -/
def handshake : List (SendLabel .sample) :=
  receive (segment 41 1000 true false) .SYN_SENT 0 ++
    [.rx (.stateTable .CLOSED), .rx (.rxSarTable default), .txSarTable]

def transmit : List (SendLabel .sample) :=
  [.event { type := TX, sessionID := 0, length := 10, tuple := default }, .metaLoader, .txSarTable,
    .rxSarRsp default, .metaLoader, .txSarTable]

theorem ackd_within_window_data :
    ∃ t, Reach (step 0) (fun t l => checked 0 t l = true) (opened .sample 0 1000) t ∧
      (t.entry 0).ackd = 1010 ∧ (t.entry 0).notAckd = 1010 ∧
      ∀ l u, checked 0 t l = true → t.step 0 l = some u → Forward 0 t u := by
  have h : (runIf (step 0) (fun t l => checked 0 t l = true) (opened .sample 0 1000)
      (handshake ++ transmit ++ receive (segment 42 1010 false false) .ESTABLISHED 42 ++
        [.txSarTable])).map
      (fun t => ((t.entry 0).ackd, (t.entry 0).notAckd)) = some (1010, 1010) := by
    decide +kernel
  obtain ⟨t, ht, hp⟩ := Option.map_eq_some_iff.mp h
  have hr := reach_of_runIf ht
  simp only [Prod.mk.injEq] at hp
  exact ⟨t, hr, hp.1, hp.2, (ackd_within_window (opened_opened 0 1000) hr).1⟩

-- After the handshake a FIN in order acknowledges 4000 bytes that were never sent.
theorem fin_ackd_passes_notAckd :
    ∃ (t u : SendNet .sample) (l : SendLabel .sample), Opened 0 1000 (opened .sample 0 1000) ∧
      Reach (step 0) anyStep (opened .sample 0 1000) t ∧ t.step 0 l = some u ∧
      (t.entry 0).ackd = 1000 ∧ (t.entry 0).notAckd = 1000 ∧ (u.entry 0).ackd = 5000 ∧
      ¬Forward 0 t u := by
  have h : (run (step 0) (opened .sample 0 1000)
      (handshake ++ receive (segment 42 5000 false true) .ESTABLISHED 42)).map
      (fun t => ((t.entry 0).ackd, (t.entry 0).notAckd,
        (t.step 0 .txSarTable).map fun u => (u.entry 0).ackd)) = some (1000, 1000, some 5000) := by
    decide +kernel
  obtain ⟨t, ht, hp⟩ := Option.map_eq_some_iff.mp h
  simp only [Prod.mk.injEq] at hp
  obtain ⟨hA, hN, hu⟩ := hp
  obtain ⟨u, hstep, hu⟩ := Option.map_eq_some_iff.mp hu
  refine ⟨t, u, .txSarTable, opened_opened 0 1000, reach_of_run ht, hstep, hA, hN, hu, ?_⟩
  intro hf
  have := hf.ackd
  rw [hA, hN, hu] at this
  exact absurd this (by decide)

end SendNet

end FpgaNetworkStack.Toe
