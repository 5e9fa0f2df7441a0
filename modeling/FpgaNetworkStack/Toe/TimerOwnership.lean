import FpgaNetworkStack.Toe.SessionIds
import FpgaNetworkStack.Toe.StateLock
import FpgaNetworkStack.Toe.Timers

/-!
# Whose connection a timer ends

The timers keep an entry for each session ID, and the IDs are used again.  Every hand-out of an ID is a
new generation of it, and what the timers hold for an ID is marked with the generation that asked for it;
the marks are not in the hardware.
-/

namespace FpgaNetworkStack.Toe

open Lib SessionState StateTable

variable {b : Build} {w : Nat}

/-! ## The network -/

inductive TimerKind where
  | close | retransmit
  deriving DecidableEq, Repr

/-- A release on its way to the state table, and the generation its timer was armed for. -/
structure Release where
  id : SessionID
  kind : TimerKind
  armedFor : Nat
  deriving DecidableEq

/-- A release the state table has carried out: the generation that held the ID, if it was open, and its state. -/
structure Ending where
  release : Release
  holder : Option Nat
  state : SessionState
  deriving DecidableEq

variable (b w) in
structure TimerNet where
  fsm : RxTcpFsm
  fsmIn : RxTcpFsmIn b
  table : StateTable
  tableIn : StateTableIn
  session : SessionNet w
  close : CloseTimer
  setClose : List SessionID
  retransmit : RetransmitTimer
  retransmitIn : RetransmitTimerIn
  /-- `closeTimer2stateTable_releaseState` and `rtTimer2stateTable_releaseState`. -/
  closeReleases : List Release
  rtReleases : List Release
  /-- The releases that `state_table` has not carried out; those in its FIFO and in its wait slot. -/
  releases : List Release
  generation : SessionID → Nat
  /-- The ID was handed out, and the state table has not closed it since. -/
  isOpen : SessionID → Bool
  setCloseFor : List Nat
  ctSetFor : Nat
  closeFor : SessionID → Nat
  setFor : List Nat
  rtFor : SessionID → Nat
  ended : List Ending

variable (b) in
inductive TimerLabel where
  | arrive (m : RxFsmMetaData)
  | rxTcpFSM (e : RxTcpFsmEnv b)
  | rxSarTable (r : RxSarEntry b)
  | txSarTable (r : RxTxSarReply b)
  | txApp (q : StateQuery)
  | stateTable
  | closeTimer
  | setRetransmit (q : TxRetransmitTimerSet)
  | retransmitTimer (full : Bool)
  | streamMerger
  | session (l : SessionLabel)

namespace TimerNet

def init : TimerNet b w :=
  { fsm := .init, fsmIn := ⟨[], [], [], []⟩, table := { stateTable := fun _ => CLOSED }, tableIn := {}
    session := {}, close := {}, setClose := [], retransmit := {}, retransmitIn := {}
    closeReleases := [], rtReleases := [], releases := [], generation := fun _ => 0, isOpen := fun _ => false
    setCloseFor := [], ctSetFor := 0, closeFor := fun _ => 0, setFor := [], rtFor := fun _ => 0, ended := [] }

def callFsm (e : RxTcpFsmEnv b) (t : TimerNet b w) : TimerNet b w :=
  let (fsm, fsmIn, out) := rxTcpFSM b e t.fsm t.fsmIn
  { t with
    fsm, fsmIn
    tableIn := { t.tableIn with
      rxEng2stateTableUpdReq := t.tableIn.rxEng2stateTableUpdReq ++ out.rxEng2stateTableUpdReq }
    setClose := t.setClose ++ out.rxEng2timerSetCloseTimer
    setCloseFor := t.setCloseFor ++ out.rxEng2timerSetCloseTimer.map t.generation
    retransmitIn := { t.retransmitIn with rxEng2timerClearRetransmitTimer :=
      t.retransmitIn.rxEng2timerClearRetransmitTimer ++ out.rxEng2timerClearRetransmitTimer } }

def holder (t : TimerNet b w) (id : SessionID) : Option Nat :=
  if t.isOpen id then some (t.generation id) else none

def callStateTable (t : TimerNet b w) : TimerNet b w :=
  let (table, tableIn, out) := stateTable t.table t.tableIn
  { t with
    table, tableIn
    fsmIn := { t.fsmIn with
      stateTable2rxEngUpdRsp := t.fsmIn.stateTable2rxEngUpdRsp ++ out.stateTable2rxEngUpdRsp }
    session := { t.session with revIn := { t.session.revIn with
      stateTable2sLookupReleaseSession :=
        t.session.revIn.stateTable2sLookupReleaseSession ++ out.stateTable2sLookupReleaseSession } }
    isOpen := fun id => t.isOpen id && !out.stateTable2sLookupReleaseSession.contains id
    releases := match out.accesses with
      | [.force _ _] => t.releases.tail
      | _ => t.releases
    ended := match out.accesses, t.releases with
      | [.force id _], r :: _ => t.ended ++ [⟨r, t.holder id, t.table.stateTable id⟩]
      | _, _ => t.ended }

def callCloseTimer (time60s : BitVec 32) (t : TimerNet b w) : TimerNet b w :=
  let (close, setClose, released) := closeTimer b time60s t.close t.setClose
  let taken := decide (setClose.length < t.setClose.length)
  { t with
    close, setClose
    setCloseFor := if taken then t.setCloseFor.tail else t.setCloseFor
    ctSetFor := if taken then t.setCloseFor.headD 0 else t.ctSetFor
    closeFor :=
      if t.close.ctWaitForWrite && !close.ctWaitForWrite then
        Function.update t.closeFor t.close.ctSetSessionID t.ctSetFor
      else t.closeFor
    closeReleases := t.closeReleases ++ released.map fun id => ⟨id, .close, t.closeFor id⟩ }

/-- The marks of the retransmission timer once it has taken the oldest request; an entry that is active stays
armed for the generation that armed it. -/
def takeSet (t : TimerNet b w) : SessionID → Nat :=
  match t.retransmitIn.txEng2timerSetRetransmitTimer with
  | [] => t.rtFor
  | q :: _ =>
    if (t.retransmit.retransmitTimerTable q.sessionID).active then t.rtFor
    else Function.update t.rtFor q.sessionID (t.setFor.headD 0)

def callRetransmitTimer (times : RtTimes) (full : Bool) (t : TimerNet b w) : TimerNet b w :=
  let (retransmit, retransmitIn, out) := retransmitTimer b times full t.retransmit t.retransmitIn
  let taken := decide (retransmitIn.txEng2timerSetRetransmitTimer.length <
    t.retransmitIn.txEng2timerSetRetransmitTimer.length)
  { t with
    retransmit, retransmitIn
    setFor := if taken then t.setFor.tail else t.setFor
    rtFor := if taken then t.takeSet else t.rtFor
    rtReleases := t.rtReleases ++ out.rtTimer2stateTableReleaseState.map fun id => ⟨id, .retransmit, t.rtFor id⟩ }

/-- `stream_merger`: the close timer first. -/
def callMerger (t : TimerNet b w) : TimerNet b w :=
  let forward (t : TimerNet b w) (r : Release) : TimerNet b w :=
    { t with
      releases := t.releases ++ [r]
      tableIn := { t.tableIn with
        timer2stateTableReleaseState := t.tableIn.timer2stateTableReleaseState ++ [r.id] } }
  match t.closeReleases, t.rtReleases with
  | r :: rest, _ => forward { t with closeReleases := rest } r
  | [], r :: rest => forward { t with rtReleases := rest } r
  | [], [] => t

/-- The ID that the next call of `lookupReplyHandler` takes from the free list. -/
def handedOut (t : TimerNet b w) : Option SessionID :=
  (lookupReplyHandler t.session.handler t.session.inp).2.2.sessionInsertReq.head?.map RtlSessionUpdateRequest.value

def handOut (t : TimerNet b w) (id : SessionID) : TimerNet b w :=
  { t with
    generation := Function.update t.generation id (t.generation id + 1)
    isOpen := Function.update t.isOpen id true }

def callSession (hashes : ThreeTuple → Fin NUM_TABLES → BitVec w) (l : SessionLabel) (t : TimerNet b w) :
    Option (TimerNet b w) :=
  match l, t.handedOut with
  | .release _, _ => none
  | .lookupReplyHandler, some id =>
    (t.session.step b.maxSessions.toNat hashes l).map fun session => { t.handOut id with session }
  | l, _ => (t.session.step b.maxSessions.toNat hashes l).map fun session => { t with session }

/-- The segments, the requests of the application and those of `metaLoader` to the timer, and the answers of
the rx_sar and tx_sar tables are the environment's. -/
def step (time60s : BitVec 32) (times : RtTimes) (hashes : ThreeTuple → Fin NUM_TABLES → BitVec w)
    (t : TimerNet b w) : TimerLabel b → Option (TimerNet b w)
  | .arrive m => some { t with fsmIn := { t.fsmIn with fsmMetaDataFifo := t.fsmIn.fsmMetaDataFifo ++ [m] } }
  | .rxTcpFSM e => some (t.callFsm e)
  | .rxSarTable r => some { t with fsmIn := { t.fsmIn with rxSar2rxEngUpdRsp := t.fsmIn.rxSar2rxEngUpdRsp ++ [r] } }
  | .txSarTable r => some { t with fsmIn := { t.fsmIn with txSar2rxEngUpdRsp := t.fsmIn.txSar2rxEngUpdRsp ++ [r] } }
  | .txApp q => some { t with tableIn := { t.tableIn with
      txApp2stateTableUpdReq := t.tableIn.txApp2stateTableUpdReq ++ [q] } }
  | .stateTable => some t.callStateTable
  | .closeTimer => some (t.callCloseTimer time60s)
  | .setRetransmit q => some { t with
      retransmitIn := { t.retransmitIn with
        txEng2timerSetRetransmitTimer := t.retransmitIn.txEng2timerSetRetransmitTimer ++ [q] }
      setFor := t.setFor ++ [t.generation q.sessionID] }
  | .retransmitTimer full => some (t.callRetransmitTimer times full)
  | .streamMerger => some t.callMerger
  | .session l => t.callSession hashes l

/-! ## The property and the condition -/

end TimerNet

/-- The timer was armed for the connection it has ended, and the close timer ended it in TIME_WAIT. -/
def Ending.own (e : Ending) : Bool :=
  match e.holder with
  | none => true
  | some n => e.release.armedFor == n && (e.release.kind != .close || e.state == TIME_WAIT)

namespace TimerNet

/-- The releases of both timers that the state table has not carried out. -/
def released (t : TimerNet b w) : List Release := t.closeReleases ++ t.rtReleases ++ t.releases

/-- The close timer holds something for the ID, or has released it and the table has not closed it yet. -/
def closeArmed (t : TimerNet b w) (id : SessionID) : Bool :=
  t.setClose.contains id || (t.close.ctWaitForWrite && t.close.ctSetSessionID == id) ||
    (t.close.closeTimerTable id).active || t.released.any fun r => r.id == id && r.kind == .close

/-- The same for the retransmission timer. -/
def rtArmed (t : TimerNet b w) (id : SessionID) : Bool :=
  (t.retransmitIn.txEng2timerSetRetransmitTimer.any fun q => q.sessionID == id) ||
    (t.retransmit.retransmitTimerTable id).active || t.released.any fun r => r.id == id && r.kind == .retransmit

/-- The write of the application, if it goes through now, does not take a session out of TIME_WAIT. -/
def keepsTimeWait (t : TimerNet b w) : Bool :=
  (stateTable t.table t.tableIn).2.2.accesses.all fun
    | .write .tx id v => t.table.stateTable id != TIME_WAIT || v == TIME_WAIT
    | _ => true

/-- An ID is handed out when no timer holds anything for it. -/
def safe (t : TimerNet b w) : TimerLabel b → Bool
  | .stateTable => t.keepsTimeWait
  | .session .lookupReplyHandler => t.handedOut.all fun id => !t.closeArmed id && !t.rtArmed id
  | _ => true

end TimerNet

/-! ## Transitions and TIME_WAIT -/

-- A session leaves TIME_WAIT by a reset only, and then it is closed.
theorem transition_timeWait (e : RxTcpFsmEnv b) (m : RxFsmMetaData) (rxSar : RxSarEntry b) (txSar : RxTxSarReply b) :
    ∃ v, (transition b e m TIME_WAIT rxSar txSar).rxEng2stateTableUpdReq = [.update m.sessionID v] ∧
      (v = TIME_WAIT ∨ v = CLOSED) := by
  unfold transition
  cases controlBits m.metaData with
  | ack => exact ⟨TIME_WAIT, by simp [transitionAck, ackState], .inl rfl⟩
  | syn => exact ⟨TIME_WAIT, by simp [transitionSyn], .inl rfl⟩
  | synAck => exact ⟨TIME_WAIT, by simp [transitionSynAck], .inl rfl⟩
  | fin => exact ⟨TIME_WAIT, by simp [transitionFin, finAccepted], .inl rfl⟩
  | other =>
    simp only [transitionOther]
    split_ifs with hrst hsent hseq
    · exact absurd hsent (by decide)
    · exact absurd hsent (by decide)
    · exact ⟨CLOSED, rfl, .inr rfl⟩
    · exact ⟨TIME_WAIT, rfl, .inl rfl⟩
    · exact ⟨TIME_WAIT, rfl, .inl rfl⟩

-- The close timer is set together with the state TIME_WAIT.
theorem transition_setClose (e : RxTcpFsmEnv b) (m : RxFsmMetaData) (tcpState : SessionState)
    (rxSar : RxSarEntry b) (txSar : RxTxSarReply b) :
    (transition b e m tcpState rxSar txSar).rxEng2timerSetCloseTimer = [] ∨
      (transition b e m tcpState rxSar txSar).rxEng2timerSetCloseTimer = [m.sessionID] ∧
        (transition b e m tcpState rxSar txSar).rxEng2stateTableUpdReq = [.update m.sessionID TIME_WAIT] := by
  unfold transition
  cases controlBits m.metaData with
  | ack =>
    simp only [transitionAck]
    split
    · simp only [ackNextState]
      split
      · cases tcpState with
        | CLOSING => exact .inr ⟨rfl, rfl⟩
        | _ => exact .inl rfl
      · exact .inl rfl
    · exact .inl rfl
  | syn =>
    simp only [transitionSyn]
    split_ifs <;> exact .inl rfl
  | synAck =>
    simp only [transitionSynAck]
    split_ifs <;> exact .inl rfl
  | fin =>
    simp only [transitionFin]
    split
    · simp only [finNext]
      split
      · exact .inl rfl
      · split
        · exact .inr ⟨rfl, rfl⟩
        · exact .inl rfl
    · exact .inl rfl
  | other =>
    simp only [transitionOther]
    split_ifs <;> exact .inl rfl

/-! ## The exchange of `rxTcpFSM` with the state table -/

/-- The lock `rxTcpFSM` holds, its requests and their answers, and the session it has loaded.  It holds the lock
from the answer to its read until its write is served. -/
inductive RxPhase (table : SessionID → SessionState) :
    Option SessionID → List StateQuery → List SessionState → Option SessionID → Prop
  | quiet : RxPhase table none [] [] none
  | writing (q : StateQuery) (hw : q.write = true) : RxPhase table (some q.sessionID) [q] [] none
  | waiting (q : StateQuery) (hw : q.write = true) (id : SessionID) :
      RxPhase table (some q.sessionID) [q, .read id] [] (some id)
  | reading (id : SessionID) : RxPhase table none [.read id] [] (some id)
  | answered (id : SessionID) : RxPhase table (some id) [] [table id] (some id)

namespace RxPhase

variable {table table' : SessionID → SessionState} {held owes : Option SessionID} {reqs : List StateQuery}
  {rsps : List SessionState}

theorem frame (h : RxPhase table held reqs rsps owes) (htable : ∀ id, held = some id → table' id = table id) :
    RxPhase table' held reqs rsps owes := by
  cases h with
  | quiet => exact .quiet
  | writing q hw => exact .writing q hw
  | waiting q hw id => exact .waiting q hw id
  | reading id => exact .reading id
  | answered id =>
    rw [← htable id rfl]
    exact .answered id

variable {q : StateQuery}

theorem locked (h : RxPhase table held reqs rsps owes) (hq : q ∈ reqs) (hw : q.write = true) :
    held = some q.sessionID := by
  cases h with
  | quiet => cases hq
  | writing q' _ =>
    rw [List.mem_singleton] at hq
    rw [hq]
  | waiting q' _ id =>
    rcases List.mem_cons.mp hq with rfl | hq
    · rfl
    · rw [List.mem_singleton] at hq
      rw [hq] at hw
      cases hw
  | reading id =>
    rw [List.mem_singleton] at hq
    rw [hq] at hw
    cases hw
  | answered id => cases hq

theorem load (h : RxPhase table held reqs rsps none) (id : SessionID) :
    RxPhase table held (reqs ++ [.read id]) rsps (some id) := by
  cases h with
  | quiet => exact .reading id
  | writing q hw => exact .waiting q hw id

/-- An answer is the present state of the session that is loaded, and nothing else is under way. -/
theorem answer {v : SessionState} {rest : List SessionState} {id : SessionID}
    (h : RxPhase table held reqs (v :: rest) (some id)) :
    held = some id ∧ reqs = [] ∧ rest = [] ∧ v = table id := by
  cases h with
  | answered => exact ⟨rfl, rfl, rfl, rfl⟩

theorem serve_read (h : RxPhase table held (q :: reqs) rsps owes) (hw : q.write = false) :
    RxPhase table (some q.sessionID) reqs (rsps ++ [table q.sessionID]) owes := by
  cases h with
  | writing _ hw' =>
    rw [hw] at hw'
    cases hw'
  | waiting _ hw' =>
    rw [hw] at hw'
    cases hw'
  | reading id => exact .answered id

theorem serve_write (h : RxPhase table held (q :: reqs) rsps owes) (hw : q.write = true)
    (table' : SessionID → SessionState) : RxPhase table' none reqs rsps owes := by
  cases h with
  | writing => exact .quiet
  | waiting _ _ id => exact .reading id
  | reading id => cases hw

end RxPhase

namespace TimerNet

/-! ## The invariant -/

def pending (t : TimerNet b w) : List StateQuery := t.table.rxPending t.tableIn

/-- The session is in TIME_WAIT, or the write that brings it there, or closes it, is on its way. -/
structure InTimeWait (reqs : List StateQuery) (table : SessionID → SessionState) (id : SessionID) : Prop where
  writes : ∀ q ∈ reqs, q.write = true → q.sessionID = id → q.state = TIME_WAIT ∨ q.state = CLOSED
  settled : (∀ q ∈ reqs, q.write = true → q.sessionID ≠ id) → table id = TIME_WAIT

/-- What is marked with a generation is marked with the present one. -/
structure Marked (t : TimerNet b w) : Prop where
  setClose : t.setCloseFor = t.setClose.map t.generation
  ctSet : t.close.ctWaitForWrite = true → t.ctSetFor = t.generation t.close.ctSetSessionID
  close : ∀ id, (t.close.closeTimerTable id).active = true → t.closeFor id = t.generation id
  sets : t.setFor = t.retransmitIn.txEng2timerSetRetransmitTimer.map fun q => t.generation q.sessionID
  retransmit : ∀ id, (t.retransmit.retransmitTimerTable id).active = true → t.rtFor id = t.generation id
  released : ∀ r ∈ t.released, r.armedFor = t.generation r.id

structure Inv (t : TimerNet b w) : Prop where
  phase : RxPhase t.table.stateTable (t.table.held .rx) t.pending t.fsmIn.stateTable2rxEngUpdRsp t.fsm.owes
  releases : t.releases.map Release.id = t.table.closePending t.tableIn
  marked : Marked t
  waits : ∀ id, t.closeArmed id = true → t.isOpen id = true →
    InTimeWait t.pending t.table.stateTable id
  own : ∀ e ∈ t.ended, e.own = true

theorem init_inv : Inv (init : TimerNet b w) := by
  refine ⟨.quiet, rfl, ⟨rfl, ?_, ?_, rfl, ?_, ?_⟩, ?_, ?_⟩
  all_goals simp [init, released]

variable {t u : TimerNet b w}

theorem closeArmed_iff {id : SessionID} :
    t.closeArmed id = true ↔ id ∈ t.setClose ∨ (t.close.ctWaitForWrite = true ∧ t.close.ctSetSessionID = id) ∨
      (t.close.closeTimerTable id).active = true ∨ ∃ r ∈ t.released, r.id = id ∧ r.kind = .close := by
  simp [closeArmed, or_assoc]

/-! ### The state machine -/

theorem callFsm_eq (t : TimerNet b w) (e : RxTcpFsmEnv b) {u : RxTcpFsm × RxTcpFsmIn b × RxTcpFsmOut b}
    (hu : rxTcpFSM b e t.fsm t.fsmIn = u) : t.callFsm e = { t with
      fsm := u.1, fsmIn := u.2.1
      tableIn := { t.tableIn with
        rxEng2stateTableUpdReq := t.tableIn.rxEng2stateTableUpdReq ++ u.2.2.rxEng2stateTableUpdReq }
      setClose := t.setClose ++ u.2.2.rxEng2timerSetCloseTimer
      setCloseFor := t.setCloseFor ++ u.2.2.rxEng2timerSetCloseTimer.map t.generation
      retransmitIn := { t.retransmitIn with rxEng2timerClearRetransmitTimer :=
        t.retransmitIn.rxEng2timerClearRetransmitTimer ++ u.2.2.rxEng2timerClearRetransmitTimer } } := by
  subst hu
  rfl

theorem rxPending_append (s : StateTable) (i : StateTableIn) (qs : List StateQuery) :
    s.rxPending { i with rxEng2stateTableUpdReq := i.rxEng2stateTableUpdReq ++ qs } = s.rxPending i ++ qs := by
  simp [StateTable.rxPending]

theorem inv_callFsm (h : Inv t) (e : RxTcpFsmEnv b) : Inv (t.callFsm e) := by
  have hmarked (qs : List SessionID) :
      t.setCloseFor ++ qs.map t.generation = (t.setClose ++ qs).map t.generation := by
    rw [List.map_append, h.marked.setClose]
  rcases rxTcpFSM_cases e t.fsm t.fsmIn with hc | ⟨m, rest, hL, hm, hc⟩ |
    ⟨tcpState, states, rxSar, entries, hT, hst, hrx, hr, hc⟩
  · rw [callFsm_eq t e hc]
    simpa using h
  · -- a segment is loaded, and its state is asked for
    rw [callFsm_eq t e hc]
    have hphase := h.phase
    rw [show t.fsm.owes = none by simp [RxTcpFsm.owes, hL]] at hphase
    have hpend := rxPending_append t.table t.tableIn [.read m.sessionID]
    refine ⟨?_, h.releases, { h.marked with setClose := hmarked [] }, ?_, h.own⟩
    · show RxPhase _ _ (t.table.rxPending _) _ (some m.sessionID)
      rw [show (loadRequests b m).rxEng2stateTableUpdReq = [.read m.sessionID] from rfl, hpend]
      exact hphase.load m.sessionID
    · intro id harm hopen
      have hwait := h.waits id (by simpa [closeArmed, loadRequests, released] using harm) hopen
      refine ⟨fun q hq hw hid => ?_, fun hall => hwait.settled fun q hq => hall q ?_⟩
      · change q ∈ t.table.rxPending _ at hq
        rw [show (loadRequests b m).rxEng2stateTableUpdReq = [.read m.sessionID] from rfl, hpend] at hq
        rcases List.mem_append.mp hq with hq | hq
        · exact hwait.writes q hq hw hid
        · rw [List.mem_singleton] at hq
          rw [hq] at hw
          cases hw
      · show q ∈ t.table.rxPending _
        rw [show (loadRequests b m).rxEng2stateTableUpdReq = [.read m.sessionID] from rfl, hpend]
        exact List.mem_append_left _ hq
  · -- the loaded segment is handled in the present state of its session
    have hphase := h.phase
    rw [show t.fsm.owes = some t.fsm.fsmMeta.sessionID by simp [RxTcpFsm.owes, hT], hst] at hphase
    obtain ⟨hheld, hnil, rfl, hv⟩ := hphase.answer
    generalize (takeTxSar b e t.fsm.fsmMeta.metaData t.fsmIn.txSar2rxEngUpdRsp) = taken at hc
    obtain ⟨v, hupd⟩ := transition_stateReq e t.fsm.fsmMeta tcpState rxSar taken.1
    have hset := transition_setClose e t.fsm.fsmMeta tcpState rxSar taken.1
    have hpend : t.table.rxPending { t.tableIn with
        rxEng2stateTableUpdReq := t.tableIn.rxEng2stateTableUpdReq ++
          (transition b e t.fsm.fsmMeta tcpState rxSar taken.1).rxEng2stateTableUpdReq } =
        [.update t.fsm.fsmMeta.sessionID v] := by
      rw [rxPending_append, hupd]
      exact congrArg (· ++ _) hnil
    rw [callFsm_eq t e hc]
    refine ⟨?_, h.releases, { h.marked with setClose := hmarked _ }, ?_, h.own⟩
    · show RxPhase _ (t.table.held .rx) (t.table.rxPending _) [] none
      rw [hpend, hheld]
      exact .writing (.update t.fsm.fsmMeta.sessionID v) rfl
    · intro id harm hopen
      -- the timer held something for the session before, or it is set now
      have harm' : t.closeArmed id = true ∨ id = t.fsm.fsmMeta.sessionID ∧ v = TIME_WAIT := by
        rcases closeArmed_iff.mp harm with hin | harm
        · rcases List.mem_append.mp hin with hin | hin
          · exact .inl (closeArmed_iff.mpr (.inl hin))
          · rcases hset with hnone | ⟨hone, hstate⟩
            · rw [hnone] at hin
              cases hin
            · rw [hone, List.mem_singleton] at hin
              rw [hupd] at hstate
              exact .inr ⟨hin, by simpa [StateQuery.update] using hstate⟩
        · exact .inl (closeArmed_iff.mpr (.inr harm))
      have hbefore (hid : t.closeArmed id = true) : t.table.stateTable id = TIME_WAIT :=
        (h.waits id hid hopen).settled fun q hq => by
          rw [hnil] at hq
          cases hq
      refine ⟨fun q hq _ hid => ?_, fun hall => ?_⟩
      · change q ∈ t.table.rxPending _ at hq
        rw [hpend, List.mem_singleton] at hq
        subst hq
        rcases harm' with harm' | ⟨-, hv'⟩
        · have hstate : tcpState = TIME_WAIT := by
            rw [hv, show t.fsm.fsmMeta.sessionID = id from hid]
            exact hbefore harm'
          subst hstate
          obtain ⟨v', hupd', hv'⟩ := transition_timeWait e t.fsm.fsmMeta rxSar taken.1
          rw [hupd] at hupd'
          have hvv : v = v' := by simpa [StateQuery.update] using hupd'
          rw [← hvv] at hv'
          exact hv'
        · exact .inl hv'
      · rcases harm' with harm' | ⟨hid, -⟩
        · exact hbefore harm'
        · exact absurd hid.symm (hall (.update t.fsm.fsmMeta.sessionID v)
            (by show _ ∈ t.table.rxPending _; rw [hpend]; exact List.mem_cons_self) rfl)

/-! ### The state table -/

theorem callStateTable_eq (t : TimerNet b w) {u : StateTable × StateTableIn × StateTableOut}
    (hu : Toe.stateTable t.table t.tableIn = u) : t.callStateTable = { t with
      table := u.1, tableIn := u.2.1
      fsmIn := { t.fsmIn with
        stateTable2rxEngUpdRsp := t.fsmIn.stateTable2rxEngUpdRsp ++ u.2.2.stateTable2rxEngUpdRsp }
      session := { t.session with revIn := { t.session.revIn with
        stateTable2sLookupReleaseSession :=
          t.session.revIn.stateTable2sLookupReleaseSession ++ u.2.2.stateTable2sLookupReleaseSession } }
      isOpen := fun id => t.isOpen id && !u.2.2.stateTable2sLookupReleaseSession.contains id
      releases := match u.2.2.accesses with
        | [.force _ _] => t.releases.tail
        | _ => t.releases
      ended := match u.2.2.accesses, t.releases with
        | [.force id _], r :: _ => t.ended ++ [⟨r, t.holder id, t.table.stateTable id⟩]
        | _, _ => t.ended } := by
  subst hu
  rfl

theorem apply_access_table (l : Locks Client SessionID SessionState) (c : Client) (q : StateQuery) :
    (l.apply (access c q)).table =
      if q.write then Function.update l.table q.sessionID q.state else l.table := by
  unfold access
  cases q.write <;> rfl

/-- What the call of the table has to show. -/
theorem inv_table (h : Inv t) {table : StateTable} {tableIn : StateTableIn}
    {rsps : List SessionState} {session : SessionNet w} {isOpen : SessionID → Bool} {releases : List Release}
    {ended : List Ending}
    (hphase : RxPhase table.stateTable (table.held .rx) (table.rxPending tableIn)
      (t.fsmIn.stateTable2rxEngUpdRsp ++ rsps) t.fsm.owes)
    (hrel : releases.map Release.id = table.closePending tableIn) (hsub : ∀ r ∈ releases, r ∈ t.releases)
    (hwaits : ∀ id, isOpen id = true → t.isOpen id = true ∧
      (t.closeArmed id = true → InTimeWait (table.rxPending tableIn) table.stateTable id))
    (hown : ∀ e ∈ ended, e.own = true) : Inv { t with
      table, tableIn, session, isOpen, releases, ended
      fsmIn := { t.fsmIn with stateTable2rxEngUpdRsp := t.fsmIn.stateTable2rxEngUpdRsp ++ rsps } } := by
  have hreleased : ∀ r ∈ t.closeReleases ++ t.rtReleases ++ releases, r ∈ t.released := by
    intro r hr
    rcases List.mem_append.mp hr with hr | hr
    · exact List.mem_append_left _ hr
    · exact List.mem_append_right _ (hsub r hr)
  refine ⟨hphase, hrel, { h.marked with released := fun r hr => h.marked.released r (hreleased r hr) }, ?_, hown⟩
  intro id harm hopen
  obtain ⟨-, hwait⟩ := hwaits id hopen
  apply hwait
  rcases closeArmed_iff.mp harm with hin | hct | hact | ⟨r, hr, hid⟩
  · exact closeArmed_iff.mpr (.inl hin)
  · exact closeArmed_iff.mpr (.inr (.inl hct))
  · exact closeArmed_iff.mpr (.inr (.inr (.inl hact)))
  · exact closeArmed_iff.mpr (.inr (.inr (.inr ⟨r, hreleased r hr, hid⟩)))

theorem inv_callStateTable (h : Inv t) (hok : t.keepsTimeWait = true) : Inv t.callStateTable := by
  have heff := stateTable_effect t.table t.tableIn
  have hphase := h.phase
  have hrel := h.releases
  unfold keepsTimeWait at hok
  generalize hu : Toe.stateTable t.table t.tableIn = u at heff hok
  obtain ⟨table, tableIn, out⟩ := u
  dsimp only at heff hok
  rw [callStateTable_eq t hu]
  unfold pending at hphase
  cases heff with
  | quiet ho hl hr ht hc hp hrw htw =>
    subst ho
    have hheld : table.held .rx = t.table.held .rx := congrArg (fun l => l.held .rx) hl
    have htable : table.stateTable = t.table.stateTable := congrArg (fun l => l.table) hl
    refine inv_table h ?_ ?_ (fun r hr => hr) ?_ h.own
    · rw [hheld, htable, hr, List.append_nil]
      exact hphase
    · rw [hc]
      exact hrel
    · intro id hopen
      simp only [List.contains_nil, Bool.not_false, Bool.and_true] at hopen
      refine ⟨hopen, fun harm => ?_⟩
      rw [hr, htable]
      exact h.waits id harm hopen
  | rx q hfree ho hl hr ht hc hp hrw htw =>
    subst ho
    have hheld : table.held .rx = if q.write then none else some q.sessionID :=
      (congrArg (fun l => l.held .rx) hl).trans (StateNet.apply_access_held ..)
    have htable : table.stateTable =
        if q.write then Function.update t.table.stateTable q.sessionID q.state else t.table.stateTable :=
      (congrArg (fun l => l.table) hl).trans (apply_access_table ..)
    have hwaits := h.waits
    unfold pending at hwaits
    rw [hr] at hphase hwaits
    cases hw : q.write with
    | false =>
      rw [hw] at hheld htable
      simp only [Bool.false_eq_true, if_false] at hheld htable
      refine inv_table h ?_ ?_ (fun r hr => ?_) ?_ ?_
      · rw [hheld, htable]
        simpa [hw] using hphase.serve_read hw
      · simpa [access, hw, hc] using hrel
      · simpa [access, hw] using hr
      · intro id hopen
        simp only [Bool.false_and, Bool.false_eq_true, if_false, List.contains_nil, Bool.not_false,
          Bool.and_true] at hopen
        refine ⟨hopen, fun harm => ?_⟩
        obtain ⟨hwrites, hsettled⟩ := hwaits id harm hopen
        rw [htable]
        refine ⟨fun q' hq' => hwrites q' (List.mem_cons_of_mem q hq'), fun hall => hsettled ?_⟩
        intro q' hq' hw'
        rcases List.mem_cons.mp hq' with rfl | hq'
        · rw [hw] at hw'
          cases hw'
        · exact hall q' hq' hw'
      · simpa [access, hw] using h.own
    | true =>
      rw [hw] at hheld htable
      simp only [if_true] at hheld htable
      refine inv_table h ?_ ?_ (fun r hr => ?_) ?_ ?_
      · rw [hheld]
        simpa [hw] using hphase.serve_write hw _
      · simpa [access, hw, hc] using hrel
      · simpa [access, hw] using hr
      · intro id hopen
        rw [Bool.and_eq_true] at hopen
        obtain ⟨hopen, hkeep⟩ := hopen
        refine ⟨hopen, fun harm => ?_⟩
        obtain ⟨hwrites, hsettled⟩ := hwaits id harm hopen
        refine ⟨fun q' hq' => hwrites q' (List.mem_cons_of_mem q hq'), fun hall => ?_⟩
        rw [htable]
        by_cases hid : id = q.sessionID
        · -- the write that is served does not close the session
          subst hid
          rw [Function.update_self]
          rcases hwrites q List.mem_cons_self hw rfl with hstate | hstate
          · exact hstate
          · simp [hstate] at hkeep
        · rw [Function.update_of_ne hid]
          apply hsettled
          intro q' hq' hw'
          rcases List.mem_cons.mp hq' with rfl | hq'
          · exact fun heq => hid heq.symm
          · exact hall q' hq' hw'
      · simpa [access, hw] using h.own
  | tx q hfree ho hl ht hr hc hp htw hrw =>
    subst ho
    have hheld : table.held .rx = t.table.held .rx :=
      (congrArg (fun l => l.held .rx) hl).trans (StateNet.apply_access_held ..)
    have htable : table.stateTable =
        if q.write then Function.update t.table.stateTable q.sessionID q.state else t.table.stateTable :=
      (congrArg (fun l => l.table) hl).trans (apply_access_table ..)
    -- an entry that `rxTcpFSM` has locked is left alone
    have hother (id : SessionID) (hid : t.table.held .rx = some id) :
        table.stateTable id = t.table.stateTable id := by
      have hne : q.sessionID ≠ id := by
        rintro rfl
        rw [rxLocks_iff.mpr hid] at hfree
        cases hfree
      rw [htable]
      split
      · exact Function.update_of_ne (Ne.symm hne) ..
      · rfl
    refine inv_table h ?_ ?_ (fun r hr => ?_) ?_ ?_
    · rw [hheld, hr]
      simpa using hphase.frame hother
    · cases hw : q.write <;> simpa [access, hw, hc] using hrel
    · cases hw : q.write <;> simpa [access, hw] using hr
    · intro id hopen
      simp only [List.contains_nil, Bool.not_false, Bool.and_true] at hopen
      refine ⟨hopen, fun harm => ?_⟩
      obtain ⟨hwrites, hsettled⟩ := h.waits id harm hopen
      rw [hr]
      refine ⟨hwrites, fun hall => ?_⟩
      have hbefore := hsettled hall
      rw [htable]
      cases hw : q.write with
      | false => exact hbefore
      | true =>
        by_cases hid : id = q.sessionID
        · subst hid
          simpa [access, hw, hbefore] using hok
        · rw [if_pos rfl, Function.update_of_ne hid]
          exact hbefore
    · cases hw : q.write <;> simpa [access, hw] using h.own
  | close id hrx htx ho hl hc hr ht hp hrw htw =>
    subst ho
    have hheld : table.held .rx = t.table.held .rx := congrArg (fun l => l.held .rx) hl
    have htable : table.stateTable = Function.update t.table.stateTable id CLOSED := congrArg (fun l => l.table) hl
    have hne {id' : SessionID} (hid : t.table.held .rx = some id') : id' ≠ id := by
      rintro rfl
      rw [rxLocks_iff.mpr hid] at hrx
      cases hrx
    rw [hc] at hrel
    cases hreleases : t.releases with
    | nil => simp [hreleases] at hrel
    | cons r rest =>
      rw [hreleases, List.map_cons, List.cons.injEq] at hrel
      obtain ⟨hid, hrest⟩ := hrel
      have hmem : r ∈ t.released := by
        unfold released
        rw [hreleases]
        exact List.mem_append_right _ List.mem_cons_self
      refine inv_table h ?_ hrest (fun r' hr' => hreleases ▸ List.mem_cons_of_mem r hr') ?_ ?_
      · rw [hheld, hr, List.append_nil]
        refine hphase.frame fun id' hid' => ?_
        rw [htable, Function.update_of_ne (hne hid')]
      · intro id' hopen
        simp only [List.contains_cons, List.contains_nil, Bool.or_false, Bool.and_eq_true, Bool.not_eq_true',
          beq_eq_false_iff_ne] at hopen
        refine ⟨hopen.1, fun harm => ?_⟩
        obtain ⟨hwrites, hsettled⟩ := h.waits id' harm hopen.1
        rw [hr, htable]
        refine ⟨hwrites, fun hall => ?_⟩
        rw [Function.update_of_ne hopen.2]
        exact hsettled hall
      · intro e he
        rcases List.mem_append.mp he with he | he
        · exact h.own e he
        · rw [List.mem_singleton] at he
          subst he
          unfold Ending.own holder
          cases hopen : t.isOpen id with
          | false => rfl
          | true =>
            have hfor := h.marked.released r hmem
            rw [hid] at hfor
            simp only [if_true, hfor, beq_self_eq_true, Bool.true_and, Bool.or_eq_true, bne_iff_ne, beq_iff_eq]
            by_cases hkind : r.kind = .close
            · right
              -- `rxTcpFSM` holds no lock on the session, so nothing is on its way
              have harm := closeArmed_iff.mpr (.inr (.inr (.inr ⟨r, hmem, hid, hkind⟩)))
              refine (h.waits id harm hopen).settled ?_
              intro q hq hw heq
              exact hne (heq ▸ hphase.locked hq hw) rfl
            · exact .inl hkind
  | peek id hs hi ho =>
    subst ho hs
    have hpend : t.table.rxPending tableIn = t.table.rxPending t.tableIn := by
      rw [hi]
      rfl
    have hclose : t.table.closePending tableIn = t.table.closePending t.tableIn := by
      rw [hi]
      rfl
    refine inv_table h ?_ ?_ (fun r hr => hr) ?_ h.own
    · rw [hpend, List.append_nil]
      exact hphase
    · rw [hclose]
      exact hrel
    · intro id' hopen
      simp only [List.contains_nil, Bool.not_false, Bool.and_true] at hopen
      refine ⟨hopen, fun harm => ?_⟩
      rw [hpend]
      exact h.waits id' harm hopen

/-! ### The timers -/

theorem callCloseTimer_eq (t : TimerNet b w) (time60s : BitVec 32) {u : CloseTimer × List SessionID × List SessionID}
    (hu : closeTimer b time60s t.close t.setClose = u) (taken : Bool)
    (ht : decide (u.2.1.length < t.setClose.length) = taken) : t.callCloseTimer time60s = { t with
      close := u.1, setClose := u.2.1
      setCloseFor := if taken then t.setCloseFor.tail else t.setCloseFor
      ctSetFor := if taken then t.setCloseFor.headD 0 else t.ctSetFor
      closeFor :=
        if t.close.ctWaitForWrite && !u.1.ctWaitForWrite then
          Function.update t.closeFor t.close.ctSetSessionID t.ctSetFor
        else t.closeFor
      closeReleases := t.closeReleases ++ u.2.2.map fun id => ⟨id, .close, t.closeFor id⟩ } := by
  subst hu ht
  rfl

-- The items of the close timer move on and keep their marks.
theorem inv_closeMoves (h : Inv t) {close : CloseTimer} {setClose : List SessionID}
    {setCloseFor : List Nat} {ctSetFor : Nat} {closeFor : SessionID → Nat} {news : List Release}
    (hset : setCloseFor = setClose.map t.generation)
    (hct : close.ctWaitForWrite = true → ctSetFor = t.generation close.ctSetSessionID)
    (hclose : ∀ id, (close.closeTimerTable id).active = true → closeFor id = t.generation id)
    (hnews : ∀ r ∈ news, r.armedFor = t.generation r.id)
    (hold : ∀ id, id ∈ setClose ∨ (close.ctWaitForWrite = true ∧ close.ctSetSessionID = id) ∨
        (close.closeTimerTable id).active = true ∨ (∃ r ∈ news, r.id = id ∧ r.kind = .close) →
      t.closeArmed id = true) :
    Inv { t with close, setClose, setCloseFor, ctSetFor, closeFor, closeReleases := t.closeReleases ++ news } := by
  have hreleased (r : Release) (hr : r ∈ t.closeReleases ++ news ++ t.rtReleases ++ t.releases) :
      r ∈ t.released ∨ r ∈ news := by
    simp only [released, List.mem_append] at hr ⊢
    rcases hr with ((hr | hr) | hr) | hr
    · exact .inl (.inl (.inl hr))
    · exact .inr hr
    · exact .inl (.inl (.inr hr))
    · exact .inl (.inr hr)
  refine ⟨h.phase, h.releases, { h.marked with
    setClose := hset, ctSet := hct, close := hclose, released := ?_ }, ?_, h.own⟩
  · intro r hr
    exact (hreleased r hr).elim (h.marked.released r) (hnews r)
  · intro id harm hopen
    refine h.waits id ?_ hopen
    rcases closeArmed_iff.mp harm with hin | hc | ha | ⟨r, hr, hid⟩
    · exact hold id (.inl hin)
    · exact hold id (.inr (.inl hc))
    · exact hold id (.inr (.inr (.inl ha)))
    · rcases hreleased r hr with hr | hr
      · exact closeArmed_iff.mpr (.inr (.inr (.inr ⟨r, hr, hid⟩)))
      · exact hold id (.inr (.inr (.inr ⟨r, hr, hid⟩)))

theorem inv_callCloseTimer (h : Inv t) (time60s : BitVec 32) : Inv (t.callCloseTimer time60s) := by
  have hcalled := ctCalled (b := b) time60s t.close t.setClose
  generalize hu : closeTimer b time60s t.close t.setClose = u at hcalled
  have harm (id : SessionID) := @closeArmed_iff b w t id
  cases hcalled with
  | write prev hw =>
    -- the timer of the session starts
    rw [callCloseTimer_eq t time60s hu false (by simp)]
    simp only [hw, Bool.not_false, Bool.and_self, if_true, Bool.false_eq_true, if_false, List.map_nil]
    refine inv_closeMoves h h.marked.setClose (by simp) ?_ (by simp) ?_
    · intro id hact
      dsimp only at hact
      by_cases hid : id = t.close.ctSetSessionID
      · subst hid
        rw [Function.update_self]
        exact h.marked.ctSet hw
      · rw [Function.update_of_ne hid] at hact ⊢
        exact h.marked.close id hact
    · rintro id (hin | ⟨hct, -⟩ | hact | ⟨r, hr, -⟩)
      · exact (harm id).mpr (.inl hin)
      · cases hct
      · dsimp only at hact
        by_cases hid : id = t.close.ctSetSessionID
        · exact (harm id).mpr (.inr (.inl ⟨hw, hid.symm⟩))
        · rw [Function.update_of_ne hid] at hact
          exact (harm id).mpr (.inr (.inr (.inl hact)))
      · cases hr
  | wait prev hw =>
    rw [callCloseTimer_eq t time60s hu false (by simp)]
    simp only [hw, Bool.not_true, Bool.and_false, Bool.false_eq_true, if_false, List.map_nil]
    refine inv_closeMoves h h.marked.setClose (fun _ => h.marked.ctSet hw) h.marked.close (by simp) ?_
    rintro id (hin | ⟨-, hct⟩ | hact | ⟨r, hr, -⟩)
    · exact (harm id).mpr (.inl hin)
    · exact (harm id).mpr (.inr (.inl ⟨hw, hct⟩))
    · exact (harm id).mpr (.inr (.inr (.inl hact)))
    · cases hr
  | read id rest hw hq =>
    rw [callCloseTimer_eq t time60s hu true (by simp [hq])]
    have hmarks := h.marked.setClose
    rw [hq, List.map_cons] at hmarks
    simp only [hw, Bool.false_and, Bool.false_eq_true, if_false, if_true, List.map_nil, hmarks, List.tail_cons,
      List.headD_cons]
    refine inv_closeMoves h rfl (fun _ => rfl) h.marked.close (by simp) ?_
    rintro id' (hin | ⟨-, hct⟩ | hact | ⟨r, hr, -⟩)
    · exact (harm id').mpr (.inl (hq ▸ List.mem_cons_of_mem id hin))
    · exact (harm id').mpr (.inl (hq ▸ hct ▸ List.mem_cons_self))
    · exact (harm id').mpr (.inr (.inr (.inl hact)))
    · cases hr
  | visit curr hw hq =>
    rw [callCloseTimer_eq t time60s hu false (by simp [hq])]
    simp only [hw, Bool.false_and, Bool.false_eq_true, if_false]
    -- what the visit leaves active, or releases, was active
    have hvisit (hact : ((t.close.closeTimerTable t.close.ctCurrSessionID).visit.1.active = true ∨
        (t.close.closeTimerTable t.close.ctCurrSessionID).visit.2 = true)) :
        (t.close.closeTimerTable t.close.ctCurrSessionID).active = true := CloseTimerEntry.visit_active hact
    refine inv_closeMoves h ?_ (by simp) ?_ ?_ ?_
    · rw [h.marked.setClose, hq]
    · intro id hact
      dsimp only at hact
      by_cases hid : id = t.close.ctCurrSessionID
      · subst hid
        rw [Function.update_self] at hact
        exact h.marked.close _ (hvisit (.inl hact))
      · rw [Function.update_of_ne hid] at hact
        exact h.marked.close id hact
    · intro r hr
      split at hr
      · next hdue =>
          rw [List.map_singleton, List.mem_singleton] at hr
          subst hr
          exact h.marked.close _ (hvisit (.inr hdue))
      · cases hr
    · rintro id (hin | ⟨hct, -⟩ | hact | ⟨r, hr, hid, -⟩)
      · cases hin
      · simp at hct
      · dsimp only at hact
        by_cases hid : id = t.close.ctCurrSessionID
        · subst hid
          rw [Function.update_self] at hact
          exact (harm _).mpr (.inr (.inr (.inl (hvisit (.inl hact)))))
        · rw [Function.update_of_ne hid] at hact
          exact (harm id).mpr (.inr (.inr (.inl hact)))
      · split at hr
        · next hdue =>
            rw [List.map_singleton, List.mem_singleton] at hr
            subst hr
            subst hid
            exact (harm _).mpr (.inr (.inr (.inl (hvisit (.inr hdue)))))
        · cases hr

theorem callRetransmitTimer_eq (t : TimerNet b w) (times : RtTimes) (full : Bool)
    {u : RetransmitTimer × RetransmitTimerIn × RetransmitTimerOut b}
    (hu : retransmitTimer b times full t.retransmit t.retransmitIn = u) (taken : Bool)
    (ht : decide (u.2.1.txEng2timerSetRetransmitTimer.length <
      t.retransmitIn.txEng2timerSetRetransmitTimer.length) = taken) :
    t.callRetransmitTimer times full = { t with
      retransmit := u.1, retransmitIn := u.2.1
      setFor := if taken then t.setFor.tail else t.setFor
      rtFor := if taken then t.takeSet else t.rtFor
      rtReleases := t.rtReleases ++
        u.2.2.rtTimer2stateTableReleaseState.map fun id => ⟨id, .retransmit, t.rtFor id⟩ } := by
  subst hu ht
  rfl

-- A call of the retransmission timer keeps the marks right.
theorem inv_rtMoves (h : Inv t) {retransmit : RetransmitTimer} {retransmitIn : RetransmitTimerIn}
    {setFor : List Nat} {rtFor : SessionID → Nat} {ids : List SessionID}
    (hsets : setFor = retransmitIn.txEng2timerSetRetransmitTimer.map fun q => t.generation q.sessionID)
    (hrt : ∀ id, (retransmit.retransmitTimerTable id).active = true → rtFor id = t.generation id)
    (hids : ∀ id ∈ ids, t.rtFor id = t.generation id) :
    Inv { t with
      retransmit, retransmitIn, setFor, rtFor
      rtReleases := t.rtReleases ++ ids.map fun id => ⟨id, .retransmit, t.rtFor id⟩ } := by
  have hreleased (r : Release) (hr : r ∈ t.closeReleases ++ (t.rtReleases ++
      ids.map fun id => ⟨id, .retransmit, t.rtFor id⟩) ++ t.releases) :
      r ∈ t.released ∨ ∃ id ∈ ids, r = ⟨id, .retransmit, t.rtFor id⟩ := by
    simp only [released, List.mem_append, List.mem_map] at hr ⊢
    rcases hr with (hr | hr | ⟨id, hid, rfl⟩) | hr
    · exact .inl (.inl (.inl hr))
    · exact .inl (.inl (.inr hr))
    · exact .inr ⟨id, hid, rfl⟩
    · exact .inl (.inr hr)
  refine ⟨h.phase, h.releases, { h.marked with sets := hsets, retransmit := hrt, released := ?_ }, ?_, h.own⟩
  · intro r hr
    rcases hreleased r hr with hr | ⟨id, hid, rfl⟩
    · exact h.marked.released r hr
    · exact hids id hid
  · intro id harm hopen
    refine h.waits id ?_ hopen
    rcases closeArmed_iff.mp harm with hin | hc | ha | ⟨r, hr, hid, hkind⟩
    · exact closeArmed_iff.mpr (.inl hin)
    · exact closeArmed_iff.mpr (.inr (.inl hc))
    · exact closeArmed_iff.mpr (.inr (.inr (.inl ha)))
    · rcases hreleased r hr with hr | ⟨id', -, rfl⟩
      · exact closeArmed_iff.mpr (.inr (.inr (.inr ⟨r, hr, hid, hkind⟩)))
      · cases hkind

theorem inv_callRetransmitTimer (h : Inv t) (times : RtTimes) (full : Bool) :
    Inv (t.callRetransmitTimer times full) := by
  have hcalled := rtCalled (b := b) times full t.retransmit t.retransmitIn
  generalize hu : retransmitTimer b times full t.retransmit t.retransmitIn = u at hcalled
  cases hcalled with
  | write hw hne =>
    rw [callRetransmitTimer_eq t times full hu false (by simp)]
    refine inv_rtMoves h h.marked.sets ?_ (by simp)
    intro id hact
    dsimp only at hact
    by_cases hid : id = t.retransmit.rtUpdate.sessionID
    · subst hid
      rw [Function.update_self] at hact
      refine h.marked.retransmit _ ?_
      -- an acknowledgement starts no timer
      unfold RetransmitTimerEntry.acknowledge at hact
      split at hact
      · cases hact
      · exact hact
    · rw [Function.update_of_ne hid] at hact
      exact h.marked.retransmit id hact
  | read update rest hw hq =>
    rw [callRetransmitTimer_eq t times full hu false (by simp)]
    exact inv_rtMoves h h.marked.sets h.marked.retransmit (by simp)
  | set q rest position hq =>
    rw [callRetransmitTimer_eq t times full hu true (by simp [hq])]
    have hmarks := h.marked.sets
    rw [hq, List.map_cons] at hmarks
    simp only [takeSet, hq, hmarks, if_true, List.tail_cons, List.headD_cons]
    refine inv_rtMoves h rfl ?_ (by simp)
    intro id hact
    dsimp only at hact
    by_cases hid : id = q.sessionID
    · subst hid
      split
      · next hrun => exact h.marked.retransmit _ hrun
      · rw [Function.update_self]
    · rw [Function.update_of_ne hid] at hact
      split
      · exact h.marked.retransmit id hact
      · rw [Function.update_of_ne hid]
        exact h.marked.retransmit id hact
  | visit position hnil =>
    rw [callRetransmitTimer_eq t times full hu false (by simp)]
    have hv := visited (b := b) (t.retransmit.retransmitTimerTable t.retransmit.rtPosition)
      t.retransmit.rtPosition full
    generalize (t.retransmit.retransmitTimerTable t.retransmit.rtPosition).visit (b := b) t.retransmit.rtPosition full
      = v at hv
    -- what the visit leaves active, or releases, was active
    have hvisit (hact : v.1.active = true) :
        t.rtFor t.retransmit.rtPosition = t.generation t.retransmit.rtPosition := by
      apply h.marked.retransmit
      cases hv with
      | same => exact hact
      | tick ha => exact ha
      | fire ha => exact ha
      | giveUp out ha => exact ha
    refine inv_rtMoves h h.marked.sets ?_ ?_
    · intro id hact
      dsimp only at hact
      by_cases hid : id = t.retransmit.rtPosition
      · subst hid
        rw [Function.update_self] at hact
        exact hvisit hact
      · rw [Function.update_of_ne hid] at hact
        exact h.marked.retransmit id hact
    · intro id hid
      cases hv with
      | same | tick | fire => cases hid
      | giveUp out ha ht hr hevent hrelease =>
        dsimp only at hid
        rw [hrelease, List.mem_singleton] at hid
        rw [hid]
        exact h.marked.retransmit _ ha

/-! ### Merger and session lookup -/

-- One release moves on to the state table.
theorem inv_forward (h : Inv t) {closeReleases rtReleases : List Release} {r : Release}
    (hreleased : ∀ r', r' ∈ closeReleases ++ rtReleases ++ (t.releases ++ [r]) → r' ∈ t.released) :
    Inv { t with
      closeReleases, rtReleases, releases := t.releases ++ [r]
      tableIn := { t.tableIn with
        timer2stateTableReleaseState := t.tableIn.timer2stateTableReleaseState ++ [r.id] } } := by
  refine ⟨h.phase, ?_, { h.marked with released := fun r' hr' => h.marked.released r' (hreleased r' hr') },
    ?_, h.own⟩
  · show (t.releases ++ [r]).map Release.id = (if t.table.sttCloseWait then _ else _) ++ (_ ++ [r.id])
    rw [List.map_append, h.releases, ← List.append_assoc]
    rfl
  · intro id harm hopen
    refine h.waits id ?_ hopen
    rcases closeArmed_iff.mp harm with hin | hc | ha | ⟨r', hr', hid⟩
    · exact closeArmed_iff.mpr (.inl hin)
    · exact closeArmed_iff.mpr (.inr (.inl hc))
    · exact closeArmed_iff.mpr (.inr (.inr (.inl ha)))
    · exact closeArmed_iff.mpr (.inr (.inr (.inr ⟨r', hreleased r' hr', hid⟩)))

theorem inv_callMerger (h : Inv t) : Inv t.callMerger := by
  unfold callMerger
  split
  · next r rest hc =>
      refine inv_forward h fun r' hr' => ?_
      simp only [released, hc, List.mem_append, List.mem_cons] at hr' ⊢
      tauto
  · next r rest hc hr =>
      refine inv_forward h fun r' hr' => ?_
      simp only [released, hc, hr, List.mem_append, List.mem_cons] at hr' ⊢
      tauto
  · exact h

-- An ID for which no timer holds anything gets a new generation.
theorem inv_handOut (h : Inv t) {id : SessionID} (hclose : t.closeArmed id = false)
    (hrt : t.rtArmed id = false) (session : SessionNet w) : Inv { t.handOut id with session } := by
  have hgen {id' : SessionID} (hid : id' ≠ id) :
      Function.update t.generation id (t.generation id + 1) id' = t.generation id' := Function.update_of_ne hid ..
  have hne {id' : SessionID} (hid : t.closeArmed id' = true) : id' ≠ id := by
    rintro rfl
    rw [hclose] at hid
    cases hid
  have hne' {id' : SessionID} (hid : t.rtArmed id' = true) : id' ≠ id := by
    rintro rfl
    rw [hrt] at hid
    cases hid
  refine ⟨h.phase, h.releases, ⟨?_, ?_, ?_, ?_, ?_, ?_⟩, ?_, h.own⟩
  · refine h.marked.setClose.trans (List.map_congr_left fun id' hid' => (hgen ?_).symm)
    exact hne (closeArmed_iff.mpr (.inl hid'))
  · intro hw
    refine (h.marked.ctSet hw).trans (hgen ?_).symm
    exact hne (closeArmed_iff.mpr (.inr (.inl ⟨hw, rfl⟩)))
  · intro id' hact
    refine (h.marked.close id' hact).trans (hgen ?_).symm
    exact hne (closeArmed_iff.mpr (.inr (.inr (.inl hact))))
  · refine h.marked.sets.trans (List.map_congr_left fun q hq => (hgen (hne' ?_)).symm)
    simp only [rtArmed, Bool.or_eq_true, List.any_eq_true, beq_iff_eq]
    exact .inl (.inl ⟨q, hq, rfl⟩)
  · intro id' hact
    refine (h.marked.retransmit id' hact).trans (hgen (hne' ?_)).symm
    simp only [rtArmed, Bool.or_eq_true]
    exact .inl (.inr hact)
  · intro r hr
    refine (h.marked.released r hr).trans (hgen ?_).symm
    cases hkind : r.kind with
    | close => exact hne (closeArmed_iff.mpr (.inr (.inr (.inr ⟨r, hr, rfl, hkind⟩))))
    | retransmit =>
      refine hne' ?_
      simp only [rtArmed, Bool.or_eq_true, List.any_eq_true, Bool.and_eq_true, beq_iff_eq]
      exact .inr ⟨r, hr, rfl, hkind⟩
  · intro id' harm hopen
    have harm' : t.closeArmed id' = true := harm
    have hopen' : Function.update t.isOpen id true id' = true := hopen
    rw [Function.update_of_ne (hne harm')] at hopen'
    exact h.waits id' harm' hopen'

theorem inv_session (h : Inv t) (session : SessionNet w) : Inv { t with session } :=
  { h with marked := { h.marked with } }

variable {hashes : ThreeTuple → Fin NUM_TABLES → BitVec w}

-- A step of the session lookup hands out an ID, or concerns the lookup only.
theorem callSession_cases {l : SessionLabel}
    (hs : t.callSession hashes l = some u) :
    (∃ id session, l = .lookupReplyHandler ∧ t.handedOut = some id ∧ u = { t.handOut id with session }) ∨
      ∃ session, u = { t with session } := by
  unfold callSession at hs
  generalize hid : t.handedOut = handed at hs
  generalize t.session.step b.maxSessions.toNat hashes l = stepped at hs
  cases l with
  | release id => cases hs
  | lookupReplyHandler =>
    cases handed with
    | none =>
      obtain ⟨session, -, hu⟩ := Option.map_eq_some_iff.mp hs
      exact .inr ⟨session, hu.symm⟩
    | some id =>
      obtain ⟨session, -, hu⟩ := Option.map_eq_some_iff.mp hs
      exact .inl ⟨id, session, rfl, rfl, hu.symm⟩
  | _ =>
    obtain ⟨session, -, hu⟩ := Option.map_eq_some_iff.mp hs
    exact .inr ⟨session, hu.symm⟩

theorem inv_callSession (h : Inv t)
    {l : SessionLabel} (hok : t.safe (.session l) = true) (hs : t.callSession hashes l = some u) : Inv u := by
  rcases callSession_cases hs with ⟨id, session, rfl, hid, rfl⟩ | ⟨session, rfl⟩
  · simp only [safe, hid, Option.all_some, Bool.and_eq_true, Bool.not_eq_true'] at hok
    exact inv_handOut h hok.1 hok.2 session
  · exact inv_session h session

/-! ### Main result -/

theorem inv_step {time60s : BitVec 32} {times : RtTimes} {l : TimerLabel b} (h : Inv t) (hok : t.safe l = true)
    (hs : t.step time60s times hashes l = some u) : Inv u := by
  cases l with
  | arrive | rxSarTable | txSarTable | txApp =>
    cases hs
    exact { h with marked := { h.marked with } }
  | rxTcpFSM e =>
    cases hs
    exact inv_callFsm h e
  | stateTable =>
    cases hs
    exact inv_callStateTable h hok
  | closeTimer =>
    cases hs
    exact inv_callCloseTimer h time60s
  | setRetransmit q =>
    cases hs
    refine { h with marked := { h.marked with sets := ?_ } }
    show t.setFor ++ _ = (t.retransmitIn.txEng2timerSetRetransmitTimer ++ [q]).map _
    rw [List.map_append, ← h.marked.sets]
    rfl
  | retransmitTimer full =>
    cases hs
    exact inv_callRetransmitTimer h times full
  | streamMerger =>
    cases hs
    exact inv_callMerger h
  | session l => exact inv_callSession h hok hs

/-- In every run in which IDs are handed out only when no timer holds anything for them, and the application
takes no session out of TIME_WAIT, every connection that a timer has ended is the one it was armed for, and
those the close timer has ended were in TIME_WAIT. -/
theorem timers_end_own {time60s : BitVec 32} {times : RtTimes} {hashes : ThreeTuple → Fin NUM_TABLES → BitVec w}
    {t : TimerNet b w} (h : Reach (step time60s times hashes) (fun t l => t.safe l = true) init t) :
    ∀ e ∈ t.ended, e.own = true := by
  have hinv : Inv t := h.invariant (P := Inv) init_inv fun _ _ _ hu hok hs => inv_step hu hok hs
  exact hinv.own

/-- Two sessions, so that the timers come round soon. -/
def twoSessions : Build := { Build.sample with maxSessions := 2 }

def sampleTimes : RtTimes := ⟨1, 5, 10, 15, 30⟩

def segment (seqNumb ackNumb : BitVec 32) (syn ack fin rst : Bool) : RxFsmMetaData :=
  { (default : RxFsmMetaData) with
    metaData := { (default : RxEngineMetaData) with seqNumb, ackNumb, syn, ack, fin, rst } }

/-- `rxTcpFSM` handles a segment, and the state table takes its write. -/
def receive (m : RxFsmMetaData) (recvd nextByte : BitVec 32) : List (TimerLabel twoSessions) :=
  let e : RxTcpFsmEnv twoSessions := ⟨default, 0, 0⟩
  [.arrive m, .rxTcpFSM e, .stateTable, .rxSarTable { (default : RxSarEntry twoSessions) with recvd }] ++
    (if m.metaData.ack then [.txSarTable { (default : RxTxSarReply twoSessions) with nextByte }] else []) ++
    [.rxTcpFSM e, .stateTable]

/-- Session 0 is opened by the peer, closed by the application and then by the peer, and its close timer runs. -/
def untilTimeWait : List (TimerLabel twoSessions) :=
  (SessionNet.openSession (SessionNet.synFrom 4000)).map .session ++
    receive (segment 100 0 true false false false) 0 0 ++ receive (segment 101 500 false true false false) 101 500 ++
    [.txApp (.update 0 FIN_WAIT_1), .stateTable] ++ receive (segment 101 501 false true true false) 101 501 ++
    [.closeTimer, .closeTimer, .closeTimer]

/-- The close timer comes round until its time is up, and the state table takes the release. -/
def timeUp : List (TimerLabel twoSessions) := [.closeTimer, .closeTimer, .closeTimer, .streamMerger, .stateTable]

theorem timers_end_own_timeWait :
    ∃ t : TimerNet twoSessions 6, Reach (step 1 sampleTimes fun _ _ => 0) (fun t l => t.safe l = true) init t ∧
      t.ended = [⟨⟨0, .close, 1⟩, some 1, TIME_WAIT⟩] ∧ ∀ e ∈ t.ended, e.own = true := by
  have h : (runIf (step 1 sampleTimes fun _ _ => (0 : BitVec 6)) (fun t l => t.safe l = true) init
      (untilTimeWait ++ timeUp)).map ended = some [⟨⟨0, .close, 1⟩, some 1, TIME_WAIT⟩] := by
    decide +kernel
  obtain ⟨t, ht, hended⟩ := Option.map_eq_some_iff.mp h
  have hr := reach_of_runIf ht
  exact ⟨t, hr, hended, timers_end_own hr⟩

/-- The session lookup forgets the tuple that the state table has released, and its ID is free again. -/
def forget : List SessionLabel :=
  [.reverseLookupTableInterface, .updateRequestSender, .hashTable, .updateReplyHandler]

-- A reset closes the session in TIME_WAIT and leaves the close timer running; the ID goes to the next
-- connection, which the timer ends.
theorem close_timer_ends_successor :
    ∃ t : TimerNet twoSessions 6, Reach (step 1 sampleTimes fun _ _ => 0) anyStep init t ∧
      ∃ e ∈ t.ended, e.release.kind = .close ∧ e.release.armedFor = 1 ∧ e.holder = some 2 ∧
        e.state = SYN_RECEIVED ∧ e.own = false := by
  have h : (run (step 1 sampleTimes fun _ _ => (0 : BitVec 6)) init
      (untilTimeWait ++ receive (segment 102 0 false false false true) 102 501 ++
        (forget ++ SessionNet.openSession (SessionNet.synFrom 4001)).map .session ++
        receive (segment 700 0 true false false false) 0 0 ++ timeUp)).map ended =
      some [⟨⟨0, .close, 1⟩, some 2, SYN_RECEIVED⟩] := by
    decide +kernel
  obtain ⟨t, ht, hended⟩ := Option.map_eq_some_iff.mp h
  exact ⟨t, reach_of_run ht, _, by rw [hended]; exact List.mem_cons_self, rfl, rfl, rfl, rfl, rfl⟩

end TimerNet

end FpgaNetworkStack.Toe
