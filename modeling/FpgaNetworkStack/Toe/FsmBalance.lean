import FpgaNetworkStack.Lib.Reach
import FpgaNetworkStack.Toe.RxEngine

/-!
# Request/response balance of `rxTcpFSM`

`rxTcpFSM` runs against the state table, the rx_sar table and the tx_sar table.  Each table is a
server: it takes the oldest request of its FIFO and answers a read with some value, a write with
nothing.  The values are arbitrary, so the results hold for every table content.
-/

namespace FpgaNetworkStack.Toe

open Lib

variable {b : Build}

/-! ## What a transition requests -/

theorem ackPayload_rxSarReq (e : RxTcpFsmEnv b) (m : RxFsmMetaData) (rxSar : RxSarEntry b) :
    ∀ q ∈ (ackPayload b e m rxSar).rxEng2rxSarUpdReq, q.write = true := by
  unfold ackPayload ackPayloadBypass ackPayloadDdr
  intro q hq
  split_ifs at hq <;> simp_all [keepPayload, RxSarRecvd.update]

/-- Every transition releases the state lock of its own session exactly once. -/
theorem transition_stateReq (e : RxTcpFsmEnv b) (m : RxFsmMetaData) (tcpState : SessionState)
    (rxSar : RxSarEntry b) (txSar : RxTxSarReply b) :
    ∃ v, (transition b e m tcpState rxSar txSar).rxEng2stateTableUpdReq =
      [.update m.sessionID v] := by
  unfold transition
  cases controlBits m.metaData with
  | ack =>
    simp only [transitionAck]
    split
    · exact ⟨_, rfl⟩
    · exact ⟨_, rfl⟩
  | syn =>
    simp only [transitionSyn]
    split_ifs <;> exact ⟨_, rfl⟩
  | synAck =>
    simp only [transitionSynAck]
    split_ifs <;> exact ⟨_, rfl⟩
  | fin =>
    simp only [transitionFin]
    split_ifs <;> exact ⟨_, rfl⟩
  | other =>
    simp only [transitionOther]
    split_ifs <;> exact ⟨_, rfl⟩

/-- A transition never reads the rx_sar table. -/
theorem transition_rxSarReq (e : RxTcpFsmEnv b) (m : RxFsmMetaData) (tcpState : SessionState)
    (rxSar : RxSarEntry b) (txSar : RxTxSarReply b) :
    ∀ q ∈ (transition b e m tcpState rxSar txSar).rxEng2rxSarUpdReq, q.write = true := by
  unfold transition
  cases controlBits m.metaData with
  | ack =>
    simp only [transitionAck]
    split
    · exact ackPayload_rxSarReq e m rxSar
    · simp
  | syn =>
    simp only [transitionSyn]
    split_ifs <;> simp [synInit, RxSarRecvd.initialise]
  | synAck =>
    simp only [transitionSynAck]
    split_ifs <;> simp [synInit, RxSarRecvd.initialise]
  | fin =>
    simp only [transitionFin]
    split_ifs <;> simp [RxSarRecvd.update]
  | other =>
    simp only [transitionOther]
    split_ifs <;> simp

/-- A transition never reads the tx_sar table. -/
theorem transition_txSarReq (e : RxTcpFsmEnv b) (m : RxFsmMetaData) (tcpState : SessionState)
    (rxSar : RxSarEntry b) (txSar : RxTxSarReply b) :
    ∀ q ∈ (transition b e m tcpState rxSar txSar).rxEng2txSarUpdReq, q.write = true := by
  unfold transition
  cases controlBits m.metaData with
  | ack =>
    simp only [transitionAck]
    split
    · split_ifs <;> simp [ackTxSarUpdate]
    · simp
  | syn =>
    simp only [transitionSyn]
    split_ifs <;> simp [synInit]
  | synAck =>
    simp only [transitionSynAck]
    split_ifs <;> simp [synInit]
  | fin =>
    simp only [transitionFin]
    split_ifs <;> simp
  | other =>
    simp only [transitionOther]
    split_ifs <;> simp

/-! ## What one call does -/

/-- A call waits, loads a segment, or handles the loaded one on the oldest replies of the tables. -/
theorem rxTcpFSM_cases (e : RxTcpFsmEnv b) (s : RxTcpFsm) (i : RxTcpFsmIn b) :
    rxTcpFSM b e s i = (s, i, {}) ∨
    (∃ m rest, s.fsmState = .LOAD ∧ i.fsmMetaDataFifo = m :: rest ∧
      rxTcpFSM b e s i = (⟨.TRANSITION, m, s.fsmTxSarRequest || m.metaData.ack⟩,
        { i with fsmMetaDataFifo := rest }, loadRequests b m)) ∨
    ∃ tcpState states rxSar entries, s.fsmState = .TRANSITION ∧
      i.stateTable2rxEngUpdRsp = tcpState :: states ∧ i.rxSar2rxEngUpdRsp = rxSar :: entries ∧
      (s.fsmTxSarRequest && i.txSar2rxEngUpdRsp.isEmpty) = false ∧
      rxTcpFSM b e s i = (⟨.LOAD, s.fsmMeta, false⟩,
        { i with stateTable2rxEngUpdRsp := states, rxSar2rxEngUpdRsp := entries,
                 txSar2rxEngUpdRsp := (takeTxSar b e s.fsmMeta.metaData i.txSar2rxEngUpdRsp).2 },
        transition b e s.fsmMeta tcpState rxSar
          (takeTxSar b e s.fsmMeta.metaData i.txSar2rxEngUpdRsp).1) := by
  cases hstate : s.fsmState with
  | LOAD =>
    cases hm : i.fsmMetaDataFifo with
    | nil => exact .inl (by simp [rxTcpFSM, hstate, hm])
    | cons m rest => exact .inr (.inl ⟨m, rest, rfl, rfl, by simp [rxTcpFSM, hstate, hm]⟩)
  | TRANSITION =>
    cases hst : i.stateTable2rxEngUpdRsp with
    | nil => exact .inl (by simp [rxTcpFSM, hstate, hst])
    | cons tcpState states =>
      cases hrx : i.rxSar2rxEngUpdRsp with
      | nil => exact .inl (by simp [rxTcpFSM, hstate, hst, hrx])
      | cons rxSar entries =>
        cases hr : s.fsmTxSarRequest && i.txSar2rxEngUpdRsp.isEmpty with
        | true => exact .inl (by simp [rxTcpFSM, hstate, hst, hrx, hr])
        | false =>
          exact .inr (.inr ⟨tcpState, states, rxSar, entries, rfl, rfl, rfl, rfl,
            by simp only [rxTcpFSM, hstate, hst, hrx, hr]⟩)

/-! ## The network -/

/-- What the state machine does at its FIFOs, in order. -/
inductive FsmAct where
  | load (m : RxFsmMetaData)
  | stateRead (id : SessionID)
  | stateWrite (id : SessionID) (v : SessionState)
  | rxSarRead (id : SessionID)
  | txSarRead (id : SessionID)
  | takeState
  | takeRxSar
  | takeTxSar
  deriving DecidableEq

variable (b) in
structure FsmNet where
  fsm : RxTcpFsm
  fifo : RxTcpFsmIn b
  stateReq : List StateQuery
  rxSarReq : List RxSarRecvd
  txSarReq : List (RxTxSarQuery b)
  /-- Every entry ever written to `fsmMetaDataFifo`. -/
  arrived : List RxFsmMetaData
  log : List FsmAct

variable (b) in
def FsmNet.init : FsmNet b := ⟨.init, ⟨[], [], [], []⟩, [], [], [], [], []⟩

variable (b) in
inductive FsmLabel where
  | arrive (m : RxFsmMetaData)
  | call (e : RxTcpFsmEnv b)
  | stateTable (v : SessionState)
  | rxSarTable (r : RxSarEntry b)
  | txSarTable (r : RxTxSarReply b)

def stateAct (q : StateQuery) : FsmAct :=
  if q.write then .stateWrite q.sessionID q.state else .stateRead q.sessionID

/-- The log of one call, read off its FIFOs before and after and its writes. -/
def callActs (i i' : RxTcpFsmIn b) (o : RxTcpFsmOut b) : List FsmAct :=
  (i.fsmMetaDataFifo.take (i.fsmMetaDataFifo.length - i'.fsmMetaDataFifo.length)).map .load ++
  List.replicate (i.stateTable2rxEngUpdRsp.length - i'.stateTable2rxEngUpdRsp.length) .takeState ++
  List.replicate (i.rxSar2rxEngUpdRsp.length - i'.rxSar2rxEngUpdRsp.length) .takeRxSar ++
  List.replicate (i.txSar2rxEngUpdRsp.length - i'.txSar2rxEngUpdRsp.length) .takeTxSar ++
  o.rxEng2stateTableUpdReq.map stateAct ++
  (o.rxEng2rxSarUpdReq.filter (!·.write)).map (fun q => .rxSarRead q.sessionID) ++
  (o.rxEng2txSarUpdReq.filter (!·.write)).map (fun q => .txSarRead q.sessionID)

def FsmNet.step (t : FsmNet b) : FsmLabel b → Option (FsmNet b)
  | .arrive m =>
    some { t with
      fifo := { t.fifo with fsmMetaDataFifo := t.fifo.fsmMetaDataFifo ++ [m] }
      arrived := t.arrived ++ [m] }
  | .call e =>
    let (fsm, fifo, out) := rxTcpFSM b e t.fsm t.fifo
    some { t with
      fsm, fifo
      stateReq := t.stateReq ++ out.rxEng2stateTableUpdReq
      rxSarReq := t.rxSarReq ++ out.rxEng2rxSarUpdReq
      txSarReq := t.txSarReq ++ out.rxEng2txSarUpdReq
      log := t.log ++ callActs t.fifo fifo out }
  | .stateTable v =>
    match t.stateReq with
    | [] => none
    | q :: rest =>
      let rsp := t.fifo.stateTable2rxEngUpdRsp
      some { t with
        stateReq := rest
        fifo := { t.fifo with stateTable2rxEngUpdRsp := if q.write then rsp else rsp ++ [v] } }
  | .rxSarTable r =>
    match t.rxSarReq with
    | [] => none
    | q :: rest =>
      let rsp := t.fifo.rxSar2rxEngUpdRsp
      some { t with
        rxSarReq := rest
        fifo := { t.fifo with rxSar2rxEngUpdRsp := if q.write then rsp else rsp ++ [r] } }
  | .txSarTable r =>
    match t.txSarReq with
    | [] => none
    | q :: rest =>
      let rsp := t.fifo.txSar2rxEngUpdRsp
      some { t with
        txSarReq := rest
        fifo := { t.fifo with txSar2rxEngUpdRsp := if q.write then rsp else rsp ++ [r] } }

/-! ## Balance -/

def opening (m : RxFsmMetaData) : List FsmAct :=
  [.load m, .stateRead m.sessionID, .rxSarRead m.sessionID] ++
    if m.metaData.ack then [.txSarRead m.sessionID] else []

/-- Replies consumed for it and the write that releases the state lock. -/
def closing (m : RxFsmMetaData) (v : SessionState) : List FsmAct :=
  [.takeState, .takeRxSar] ++ (if m.metaData.ack then [.takeTxSar] else []) ++
    [.stateWrite m.sessionID v]

def handled (p : RxFsmMetaData × SessionState) : List FsmAct := opening p.1 ++ closing p.1 p.2

def RxTcpFsm.current (s : RxTcpFsm) : List RxFsmMetaData :=
  match s.fsmState with
  | .LOAD => []
  | .TRANSITION => [s.fsmMeta]

/-- Session whose state lock the logged accesses leave taken. -/
def heldLock : List FsmAct → Option SessionID :=
  List.foldl (fun held a =>
    match a with
    | .stateRead id => some id
    | .stateWrite _ _ => none
    | _ => held) none

/-- Reads not yet answered and answers not yet consumed belong to the entry being handled: one of
the state table, one of rx_sar, and one of tx_sar if the entry has ACK set. -/
structure Outstanding (t : FsmNet b) : Prop where
  state : (t.stateReq.filter (!·.write)).map (·.sessionID) ++
      t.fifo.stateTable2rxEngUpdRsp.map (fun _ => t.fsm.fsmMeta.sessionID) =
    t.fsm.current.map (·.sessionID)
  rxSar : (t.rxSarReq.filter (!·.write)).map (·.sessionID) ++
      t.fifo.rxSar2rxEngUpdRsp.map (fun _ => t.fsm.fsmMeta.sessionID) =
    t.fsm.current.map (·.sessionID)
  txSar : (t.txSarReq.filter (!·.write)).map (·.sessionID) ++
      t.fifo.txSar2rxEngUpdRsp.map (fun _ => t.fsm.fsmMeta.sessionID) =
    (t.fsm.current.filter (·.metaData.ack)).map (·.sessionID)

/-- The log is one complete block for each finished entry, in arrival order, followed by the
requests of the entry being handled. -/
def Blocks (t : FsmNet b) (done : List (RxFsmMetaData × SessionState)) : Prop :=
  t.log = done.flatMap handled ++ t.fsm.current.flatMap opening ∧
    t.arrived = done.map Prod.fst ++ t.fsm.current ++ t.fifo.fsmMetaDataFifo

structure FsmInv (t : FsmNet b) : Prop where
  request : t.fsm.fsmTxSarRequest = t.fsm.current.any (·.metaData.ack)
  outstanding : Outstanding t
  blocks : ∃ done, Blocks t done

-- Serving the oldest request keeps "pending reads followed by unread answers", as long as at most
-- one of them is outstanding.
theorem serve_outstanding {Q R : Type} (write : Q → Bool) (sid : Q → SessionID) (c : SessionID)
    (q : Q) (rest : List Q) (rsp : List R) (v : R) (cur : List SessionID)
    (hcur : cur = [] ∨ cur = [c])
    (h : ((q :: rest).filter (!write ·)).map sid ++ rsp.map (fun _ => c) = cur) :
    (rest.filter (!write ·)).map sid ++
      (if write q then rsp else rsp ++ [v]).map (fun _ => c) = cur := by
  cases hq : write q
  · rw [List.filter_cons_of_pos (by simp [hq])] at h
    rcases hcur with rfl | rfl
    · simp at h
    · simp only [List.map_cons, List.cons_append, List.cons.injEq, List.append_eq_nil_iff] at h
      obtain ⟨_, hrest, hrsp⟩ := h
      simp only [List.map_eq_nil_iff] at hrsp
      rw [hrest, hrsp]
      simp
  · rw [List.filter_cons_of_neg (by simp [hq])] at h
    simpa using h

theorem current_cases (s : RxTcpFsm) : s.current = [] ∨ s.current = [s.fsmMeta] := by
  unfold RxTcpFsm.current
  cases s.fsmState
  · exact .inl rfl
  · exact .inr rfl

theorem current_sessions (s : RxTcpFsm) :
    s.current.map (·.sessionID) = [] ∨ s.current.map (·.sessionID) = [s.fsmMeta.sessionID] := by
  rcases current_cases s with h | h <;> simp [h]

theorem current_ack_sessions (s : RxTcpFsm) :
    (s.current.filter (·.metaData.ack)).map (·.sessionID) = [] ∨
      (s.current.filter (·.metaData.ack)).map (·.sessionID) = [s.fsmMeta.sessionID] := by
  rcases current_cases s with h | h
  · simp [h]
  · cases ha : s.fsmMeta.metaData.ack <;> simp [h, ha]

theorem controlBits_ne_syn {m : RxEngineMetaData} (h : m.ack = true) : controlBits m ≠ .syn := by
  unfold controlBits
  rw [h]
  split <;> simp_all

theorem takeTxSar_singleton (e : RxTcpFsmEnv b) (m : RxEngineMetaData) (r : RxTxSarReply b)
    (h : m.ack = true) : takeTxSar b e m [r] = (r, []) := by
  have hs := controlBits_ne_syn h
  unfold takeTxSar
  cases hc : controlBits m <;> simp_all

theorem takeTxSar_nil (e : RxTcpFsmEnv b) (m : RxEngineMetaData) :
    takeTxSar b e m [] = (e.txSarUninit, []) := by
  unfold takeTxSar
  cases controlBits m <;> rfl

theorem filter_reads_eq_nil {Q : Type} (write : Q → Bool) (l : List Q)
    (h : ∀ q ∈ l, write q = true) : l.filter (!write ·) = [] := by
  rw [List.filter_eq_nil_iff]
  intro q hq
  simp [h q hq]

/-- The tx_sar answers a ready transition consumes: exactly the one the entry asked for. -/
theorem takeTxSar_ready {t : FsmNet b} (e : RxTcpFsmEnv b) (h : FsmInv t)
    (hT : t.fsm.fsmState = .TRANSITION)
    (hr : (t.fsm.fsmTxSarRequest && t.fifo.txSar2rxEngUpdRsp.isEmpty) = false) :
    (takeTxSar b e t.fsm.fsmMeta.metaData t.fifo.txSar2rxEngUpdRsp).2 = [] ∧
      t.fifo.txSar2rxEngUpdRsp.length = (if t.fsm.fsmMeta.metaData.ack then 1 else 0) ∧
      (t.txSarReq.filter (!·.write)) = [] := by
  have hcur : t.fsm.current = [t.fsm.fsmMeta] := by simp [RxTcpFsm.current, hT]
  have ho := h.outstanding.txSar
  have hq := h.request
  rw [hcur] at ho hq
  cases ha : t.fsm.fsmMeta.metaData.ack
  · simp only [ha, List.filter_cons, List.filter_nil, Bool.false_eq_true, if_false, List.map_nil,
      List.append_eq_nil_iff, List.map_eq_nil_iff] at ho
    rw [ho.2, takeTxSar_nil]
    exact ⟨rfl, by simp, ho.1⟩
  · simp only [ha, List.filter_cons, List.filter_nil, if_true, List.map_cons, List.map_nil] at ho
    cases hrsp : t.fifo.txSar2rxEngUpdRsp with
    | nil => simp [hq, ha, hrsp] at hr
    | cons r rest =>
      rw [hrsp] at ho
      have hlen := congrArg List.length ho
      simp only [List.length_append, List.length_map, List.length_cons, List.length_nil] at hlen
      have hrest : rest = [] := List.eq_nil_of_length_eq_zero (by omega)
      subst hrest
      rw [takeTxSar_singleton e _ r ha]
      exact ⟨rfl, by simp, List.eq_nil_of_length_eq_zero (by omega)⟩

variable {t u : FsmNet b} {e : RxTcpFsmEnv b}

theorem inv_load {m : RxFsmMetaData} {rest : List RxFsmMetaData}
    (h : FsmInv t) (hL : t.fsm.fsmState = .LOAD) (hm : t.fifo.fsmMetaDataFifo = m :: rest)
    (hs : t.step (.call e) = some u) : FsmInv u := by
  have hcur : t.fsm.current = [] := by simp [RxTcpFsm.current, hL]
  obtain ⟨hreq, ⟨hst, hrx, htx⟩, done, hlog, harr⟩ := h
  rw [hcur] at hreq hst hrx htx hlog harr
  simp only [List.filter_nil, List.map_nil, List.append_eq_nil_iff, List.map_eq_nil_iff] at hst hrx htx
  simp only [List.any_nil] at hreq
  simp only [FsmNet.step, rxTcpFSM, hL, hm, hreq, Bool.false_or, Option.some.injEq] at hs
  subst hs
  refine ⟨by simp [RxTcpFsm.current], ⟨?_, ?_, ?_⟩, done, ?_, ?_⟩
  · simp [RxTcpFsm.current, loadRequests, StateQuery.read, List.filter_append, hst]
  · simp [RxTcpFsm.current, loadRequests, RxSarRecvd.read, List.filter_append, hrx]
  · cases ha : m.metaData.ack <;>
      simp [RxTcpFsm.current, loadRequests, RxTxSarQuery.read, List.filter_append, htx, ha]
  · cases ha : m.metaData.ack <;>
      simp [RxTcpFsm.current, callActs, hm, hlog, opening, loadRequests, stateAct, StateQuery.read,
        RxSarRecvd.read, RxTxSarQuery.read, ha]
  · simpa [RxTcpFsm.current, hm] using harr

theorem inv_transition {tcpState : SessionState}
    {states : List SessionState} {rxSar : RxSarEntry b} {entries : List (RxSarEntry b)}
    (h : FsmInv t) (hT : t.fsm.fsmState = .TRANSITION)
    (hstate : t.fifo.stateTable2rxEngUpdRsp = tcpState :: states)
    (hentry : t.fifo.rxSar2rxEngUpdRsp = rxSar :: entries)
    (hr : (t.fsm.fsmTxSarRequest && t.fifo.txSar2rxEngUpdRsp.isEmpty) = false)
    (hs : t.step (.call e) = some u) : FsmInv u := by
  obtain ⟨hleft, hlen, htxReq⟩ := takeTxSar_ready e h hT hr
  have hcur : t.fsm.current = [t.fsm.fsmMeta] := by simp [RxTcpFsm.current, hT]
  obtain ⟨-, ⟨hst, hrx, -⟩, done, hlog, harr⟩ := h
  rw [hcur, hstate] at hst
  rw [hcur, hentry] at hrx
  rw [hcur] at hlog harr
  -- one answer of each table is outstanding, so nothing is left behind it
  have hst' := congrArg List.length hst
  have hrx' := congrArg List.length hrx
  simp only [List.length_append, List.length_map, List.length_cons, List.length_nil] at hst' hrx'
  have hstates : states = [] := List.eq_nil_of_length_eq_zero (by omega)
  have hentries : entries = [] := List.eq_nil_of_length_eq_zero (by omega)
  have hstReq : t.stateReq.filter (!·.write) = [] := List.eq_nil_of_length_eq_zero (by omega)
  have hrxReq : t.rxSarReq.filter (!·.write) = [] := List.eq_nil_of_length_eq_zero (by omega)
  subst hstates hentries
  simp only [FsmNet.step, rxTcpFSM, hT, hstate, hentry, hr, Option.some.injEq] at hs
  generalize htake : takeTxSar b e t.fsm.fsmMeta.metaData t.fifo.txSar2rxEngUpdRsp = taken at hs hleft
  obtain ⟨txSar, replies⟩ := taken
  simp only at hleft
  subst hleft
  obtain ⟨v, hv⟩ := transition_stateReq e t.fsm.fsmMeta tcpState rxSar txSar
  have hrxW := filter_reads_eq_nil RxSarRecvd.write _
    (transition_rxSarReq e t.fsm.fsmMeta tcpState rxSar txSar)
  have htxW := filter_reads_eq_nil RxTxSarQuery.write _
    (transition_txSarReq e t.fsm.fsmMeta tcpState rxSar txSar)
  subst hs
  refine ⟨rfl, ⟨?_, ?_, ?_⟩, done ++ [(t.fsm.fsmMeta, v)], ?_, ?_⟩
  · simp [RxTcpFsm.current, hv, StateQuery.update, List.filter_append, hstReq]
  · simp [RxTcpFsm.current, List.filter_append, hrxReq, hrxW]
  · simp [RxTcpFsm.current, List.filter_append, htxReq, htxW]
  · cases ha : t.fsm.fsmMeta.metaData.ack <;>
      simp [RxTcpFsm.current, callActs, hstate, hentry, hlen, hlog, hv, hrxW, htxW, handled,
        closing, stateAct, StateQuery.update, ha]
  · simpa [RxTcpFsm.current] using harr

theorem inv_call (h : FsmInv t)
    (hs : t.step (.call e) = some u) : FsmInv u := by
  -- a call that is not ready leaves everything as it is
  have idle (hc : rxTcpFSM b e t.fsm t.fifo = (t.fsm, t.fifo, {})) : FsmInv u := by
    simp only [FsmNet.step, hc, callActs, Nat.sub_self, List.take_zero, List.map_nil,
      List.replicate_zero, List.filter_nil, List.append_nil, Option.some.injEq] at hs
    subst hs
    exact h
  cases hstate : t.fsm.fsmState with
  | LOAD =>
    cases hm : t.fifo.fsmMetaDataFifo with
    | nil => exact idle (by simp [rxTcpFSM, hstate, hm])
    | cons m rest => exact inv_load h hstate hm hs
  | TRANSITION =>
    cases hst : t.fifo.stateTable2rxEngUpdRsp with
    | nil => exact idle (by simp [rxTcpFSM, hstate, hst])
    | cons tcpState states =>
      cases hrx : t.fifo.rxSar2rxEngUpdRsp with
      | nil => exact idle (by simp [rxTcpFSM, hstate, hst, hrx])
      | cons rxSar entries =>
        cases hr : t.fsm.fsmTxSarRequest && t.fifo.txSar2rxEngUpdRsp.isEmpty with
        | false => exact inv_transition h hstate hst hrx hr hs
        | true => exact idle (by simp [rxTcpFSM, hstate, hst, hrx, hr])

theorem inv_step {a : FsmLabel b} (h : FsmInv t) (hs : t.step a = some u) :
    FsmInv u := by
  cases a with
  | arrive m =>
    obtain ⟨hreq, ⟨hst, hrx, htx⟩, done, hlog, harr⟩ := h
    simp only [FsmNet.step, Option.some.injEq] at hs
    subst hs
    exact ⟨hreq, ⟨hst, hrx, htx⟩, done, hlog, by simp [harr]⟩
  | call e => exact inv_call h hs
  | stateTable v =>
    obtain ⟨hreq, ⟨hst, hrx, htx⟩, hblocks⟩ := h
    cases hq : t.stateReq with
    | nil => simp [FsmNet.step, hq] at hs
    | cons q rest =>
      rw [hq] at hst
      simp only [FsmNet.step, hq, Option.some.injEq] at hs
      subst hs
      exact ⟨hreq, ⟨serve_outstanding _ _ _ q rest _ v _ (current_sessions _) hst, hrx, htx⟩, hblocks⟩
  | rxSarTable r =>
    obtain ⟨hreq, ⟨hst, hrx, htx⟩, hblocks⟩ := h
    cases hq : t.rxSarReq with
    | nil => simp [FsmNet.step, hq] at hs
    | cons q rest =>
      rw [hq] at hrx
      simp only [FsmNet.step, hq, Option.some.injEq] at hs
      subst hs
      exact ⟨hreq, ⟨hst, serve_outstanding _ _ _ q rest _ r _ (current_sessions _) hrx, htx⟩, hblocks⟩
  | txSarTable r =>
    obtain ⟨hreq, ⟨hst, hrx, htx⟩, hblocks⟩ := h
    cases hq : t.txSarReq with
    | nil => simp [FsmNet.step, hq] at hs
    | cons q rest =>
      rw [hq] at htx
      simp only [FsmNet.step, hq, Option.some.injEq] at hs
      subst hs
      exact ⟨hreq, ⟨hst, hrx, serve_outstanding _ _ _ q rest _ r _ (current_ack_sessions _) htx⟩,
        hblocks⟩

/-! ## Main result -/

/-- No table still has to answer a read. -/
def Answered (t : FsmNet b) : Prop :=
  t.stateReq.filter (!·.write) = [] ∧ t.rxSarReq.filter (!·.write) = [] ∧
    t.txSarReq.filter (!·.write) = []

structure Balanced (t : FsmNet b) : Prop where
  /-- Exactly one state read, one state write, one rx_sar read and reply, and with ACK one tx_sar
  read and reply for every finished entry, all before the next one is loaded. -/
  blocks : ∃ done, Blocks t done
  /-- What is requested or answered but not consumed belongs to the entry being handled. -/
  outstanding : Outstanding t
  released : t.fsm.fsmState = .LOAD → heldLock t.log = none
  /-- Once the tables have answered, the next call finishes the entry. -/
  completes : t.fsm.fsmState = .TRANSITION → Answered t →
    ∀ e, (rxTcpFSM b e t.fsm t.fifo).1.fsmState = .LOAD

theorem heldLock_handled (held : Option SessionID) (done : List (RxFsmMetaData × SessionState)) :
    (done.flatMap handled).foldl (fun held a =>
      match a with
      | .stateRead id => some id
      | .stateWrite _ _ => none
      | _ => held) held = if done = [] then held else none := by
  induction done generalizing held with
  | nil => simp
  | cons p done ih =>
    rw [List.flatMap_cons, List.foldl_append, ih]
    cases ha : p.1.metaData.ack <;> simp [handled, opening, closing, ha]

theorem inv_released {t : FsmNet b} (h : FsmInv t) (hL : t.fsm.fsmState = .LOAD) :
    heldLock t.log = none := by
  obtain ⟨done, hlog, -⟩ := h.blocks
  have hcur : t.fsm.current = [] := by simp [RxTcpFsm.current, hL]
  rw [hlog, hcur, List.flatMap_nil, List.append_nil, heldLock, heldLock_handled]
  split <;> rfl

theorem inv_completes {t : FsmNet b} (h : FsmInv t) (hT : t.fsm.fsmState = .TRANSITION)
    (ha : Answered t) (e : RxTcpFsmEnv b) : (rxTcpFSM b e t.fsm t.fifo).1.fsmState = .LOAD := by
  have hcur : t.fsm.current = [t.fsm.fsmMeta] := by simp [RxTcpFsm.current, hT]
  obtain ⟨hreq, ⟨hst, hrx, htx⟩, -⟩ := h
  rw [hcur] at hreq hst hrx htx
  rw [ha.1] at hst
  rw [ha.2.1] at hrx
  rw [ha.2.2] at htx
  have hready : (t.fsm.fsmTxSarRequest && t.fifo.txSar2rxEngUpdRsp.isEmpty) = false := by
    cases hack : t.fsm.fsmMeta.metaData.ack
    · simp [hreq, hack]
    · cases hrsp : t.fifo.txSar2rxEngUpdRsp with
      | nil => simp [hrsp, hack] at htx
      | cons r rest => simp
  cases hs : t.fifo.stateTable2rxEngUpdRsp with
  | nil => simp [hs] at hst
  | cons tcpState states =>
    cases hr : t.fifo.rxSar2rxEngUpdRsp with
    | nil => simp [hr] at hrx
    | cons rxSar entries => simp [rxTcpFSM, hT, hs, hr, hready]

/-- In every run of `rxTcpFSM` against tables with arbitrary contents, every entry is balanced. -/
theorem rxTcpFSM_balanced (t : FsmNet b) (h : Reach FsmNet.step anyStep (FsmNet.init b) t) :
    Balanced t := by
  have hinv : FsmInv t := by
    refine h.invariant ⟨rfl, ⟨rfl, rfl, rfl⟩, [], rfl, rfl⟩ ?_
    intro u a v hu _ hs
    exact inv_step hu hs
  exact ⟨hinv.blocks, hinv.outstanding, inv_released hinv, fun hT ha e => inv_completes hinv hT ha e⟩

/-- One RST segment with ACK set, up to its state write. -/
def rstRun : List (FsmLabel .sample) :=
  [.arrive { (default : RxFsmMetaData) with
      metaData := { (default : RxEngineMetaData) with ack := true, rst := true } },
    .call ⟨default, 0, 0⟩, .txSarTable default, .stateTable .ESTABLISHED, .rxSarTable default,
    .call ⟨default, 0, 0⟩]

-- The default case has to consume the tx_sar reply that was requested.
theorem rxTcpFSM_balanced_rst :
    ∃ t, run FsmNet.step (FsmNet.init .sample) rstRun = some t ∧ t.log.length = 8 ∧ Balanced t := by
  have h : (run FsmNet.step (FsmNet.init .sample) rstRun).map (·.log.length) = some 8 := by
    decide +kernel
  obtain ⟨t, ht, hlen⟩ := Option.map_eq_some_iff.mp h
  exact ⟨t, ht, hlen, rxTcpFSM_balanced t (reach_of_run ht)⟩

end FpgaNetworkStack.Toe
