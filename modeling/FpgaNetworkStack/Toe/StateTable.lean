import FpgaNetworkStack.Lib.Locks
import FpgaNetworkStack.Toe.Internals

/-!
# The state table (`state_table.cpp`)

The receive engine and the application interface read a session's state and write it back; the read
locks the session.  A request for a session the other side has locked is parked in a wait slot.
-/

namespace FpgaNetworkStack.Toe

open Lib SessionState

/-- The two clients that lock. -/
inductive Client where
  | rx | tx
  deriving DecidableEq, Repr

abbrev StateAccess := Access Client SessionID SessionState

structure StateTable where
  stateTable : SessionID → SessionState
  sttTxSessionID : SessionID := 0
  sttRxSessionID : SessionID := 0
  sttRxSessionLocked : Bool := false
  sttTxSessionLocked : Bool := false
  sttTxAccess : StateQuery := default
  sttRxAccess : StateQuery := default
  sttTxWait : Bool := false
  sttRxWait : Bool := false
  sttCloseSessionID : SessionID := 0
  sttCloseWait : Bool := false

structure StateTableIn where
  rxEng2stateTableUpdReq : List StateQuery := []
  txApp2stateTableUpdReq : List StateQuery := []
  txApp2stateTableReq : List SessionID := []
  timer2stateTableReleaseState : List SessionID := []

/-- What a call writes; `accesses` is not a stream but the record of what the call did to the table. -/
structure StateTableOut where
  stateTable2rxEngUpdRsp : List SessionState := []
  stateTable2txAppUpdRsp : List SessionState := []
  stateTable2txAppRsp : List SessionState := []
  stateTable2sLookupReleaseSession : List SessionID := []
  accesses : List StateAccess := []

namespace StateTable

def rxLocks (s : StateTable) (id : SessionID) : Bool := id == s.sttRxSessionID && s.sttRxSessionLocked

def txLocks (s : StateTable) (id : SessionID) : Bool := id == s.sttTxSessionID && s.sttTxSessionLocked

/-- The access `stt_txAccess` goes through. -/
def txServe (s : StateTable) : StateTable × StateTableOut :=
  let q := s.sttTxAccess
  if q.write then
    ({ s with
        stateTable := Function.update s.stateTable q.sessionID q.state, sttTxSessionLocked := false },
      { accesses := [.write .tx q.sessionID q.state] })
  else
    -- lock on every read
    ({ s with sttTxSessionID := q.sessionID, sttTxSessionLocked := true },
      { stateTable2txAppUpdRsp := [s.stateTable q.sessionID], accesses := [.read .tx q.sessionID] })

/-- The access `stt_rxAccess` goes through; closing a session also releases its ID. -/
def rxServe (s : StateTable) : StateTable × StateTableOut :=
  let q := s.sttRxAccess
  if q.write then
    ({ s with
        stateTable := Function.update s.stateTable q.sessionID q.state, sttRxSessionLocked := false },
      { stateTable2sLookupReleaseSession := if q.state = CLOSED then [q.sessionID] else []
        accesses := [.write .rx q.sessionID q.state] })
  else
    ({ s with sttRxSessionID := q.sessionID, sttRxSessionLocked := true },
      { stateTable2rxEngUpdRsp := [s.stateTable q.sessionID], accesses := [.read .rx q.sessionID] })

/-- The timer closes `stt_closeSessionID`. -/
def closeServe (s : StateTable) : StateTable × StateTableOut :=
  ({ s with stateTable := Function.update s.stateTable s.sttCloseSessionID CLOSED },
    { stateTable2sLookupReleaseSession := [s.sttCloseSessionID]
      accesses := [.force s.sttCloseSessionID CLOSED] })

/-- The branches for the wait slots, tried only when no new request can be taken. -/
def serveWaiting (s : StateTable) : StateTable × StateTableOut :=
  if s.sttTxWait then
    if !s.rxLocks s.sttTxAccess.sessionID then
      let (s, o) := s.txServe
      ({ s with sttTxWait := false }, o)
    else (s, {})
  else if s.sttRxWait then
    if !s.txLocks s.sttRxAccess.sessionID then
      let (s, o) := s.rxServe
      ({ s with sttRxWait := false }, o)
    else (s, {})
  else if s.sttCloseWait then
    if !s.rxLocks s.sttCloseSessionID && !s.txLocks s.sttCloseSessionID then
      let (s, o) := s.closeServe
      ({ s with sttCloseWait := false }, o)
    else (s, {})
  else (s, {})

end StateTable

def stateTable (s : StateTable) (i : StateTableIn) : StateTable × StateTableIn × StateTableOut :=
  match i.txApp2stateTableUpdReq, s.sttTxWait with
  -- TX App If
  | q :: rest, false =>
    let s := { s with sttTxAccess := q }
    let i := { i with txApp2stateTableUpdReq := rest }
    if s.rxLocks q.sessionID then ({ s with sttTxWait := true }, i, {})
    else (s.txServe.1, i, s.txServe.2)
  | _, _ =>
    match i.txApp2stateTableReq with
    -- TX App Stream If
    | id :: rest =>
      (s, { i with txApp2stateTableReq := rest },
        { stateTable2txAppRsp := [s.stateTable id], accesses := [.peek id] })
    | [] =>
      match i.rxEng2stateTableUpdReq, s.sttRxWait with
      -- RX Engine
      | q :: rest, false =>
        let s := { s with sttRxAccess := q }
        let i := { i with rxEng2stateTableUpdReq := rest }
        if s.txLocks q.sessionID then ({ s with sttRxWait := true }, i, {})
        else (s.rxServe.1, i, s.rxServe.2)
      | _, _ =>
        match i.timer2stateTableReleaseState, s.sttCloseWait with
        -- Timer release
        | id :: rest, false =>
          let s := { s with sttCloseSessionID := id }
          let i := { i with timer2stateTableReleaseState := rest }
          if s.rxLocks id || s.txLocks id then ({ s with sttCloseWait := true }, i, {})
          else (s.closeServe.1, i, s.closeServe.2)
        | _, _ => (s.serveWaiting.1, i, s.serveWaiting.2)

/-! ## Clients -/

/-- What a client may send: with nothing outstanding a locking read, or a write of its own; after a
read of a session the write of that session.  The result is the session the client still has to
write, or `none` for an illegal sequence. -/
def discipline : Option SessionID → List StateQuery → Option (Option SessionID)
  | owed, [] => some owed
  | none, q :: qs => discipline (if q.write then none else some q.sessionID) qs
  | some id, q :: qs => if q.write && q.sessionID == id then discipline none qs else none

theorem discipline_append (owed : Option SessionID) (qs qs' : List StateQuery) :
    discipline owed (qs ++ qs') = (discipline owed qs).bind fun o => discipline o qs' := by
  induction qs generalizing owed with
  | nil => rfl
  | cons q qs ih =>
    cases owed with
    | none => simp only [List.cons_append, discipline, ih]
    | some id =>
      simp only [List.cons_append, discipline, ih]
      split <;> rfl

theorem discipline_cons {owed owed' : Option SessionID} {q : StateQuery} {qs : List StateQuery}
    (h : discipline owed (q :: qs) = some owed') :
    (owed = none ∨ (q.write = true ∧ owed = some q.sessionID)) ∧
      discipline (if q.write then none else some q.sessionID) qs = some owed' := by
  cases owed with
  | none => exact ⟨.inl rfl, h⟩
  | some id =>
    simp only [discipline] at h
    split at h
    · next hq =>
        simp only [Bool.and_eq_true, beq_iff_eq] at hq
        exact ⟨.inr ⟨hq.1, by rw [hq.2]⟩, by rw [hq.1]; exact h⟩
    · cases h

/-! ## What one call does -/

namespace StateTable

/-- The locks the flags stand for. -/
def held (s : StateTable) : Client → Option SessionID
  | .rx => if s.sttRxSessionLocked then some s.sttRxSessionID else none
  | .tx => if s.sttTxSessionLocked then some s.sttTxSessionID else none

def locks (s : StateTable) : Locks Client SessionID SessionState := ⟨s.held, s.stateTable⟩

theorem rxLocks_iff {s : StateTable} {id : SessionID} :
    s.rxLocks id = true ↔ s.held .rx = some id := by
  unfold rxLocks held
  cases s.sttRxSessionLocked
  · simp
  · simpa using eq_comm

theorem txLocks_iff {s : StateTable} {id : SessionID} :
    s.txLocks id = true ↔ s.held .tx = some id := by
  unfold txLocks held
  cases s.sttTxSessionLocked
  · simp
  · simpa using eq_comm

/-- Requests taken over or still queued, oldest first. -/
def rxPending (s : StateTable) (i : StateTableIn) : List StateQuery :=
  (if s.sttRxWait then [s.sttRxAccess] else []) ++ i.rxEng2stateTableUpdReq

def txPending (s : StateTable) (i : StateTableIn) : List StateQuery :=
  (if s.sttTxWait then [s.sttTxAccess] else []) ++ i.txApp2stateTableUpdReq

def closePending (s : StateTable) (i : StateTableIn) : List SessionID :=
  (if s.sttCloseWait then [s.sttCloseSessionID] else []) ++ i.timer2stateTableReleaseState

def access (c : Client) (q : StateQuery) : StateAccess :=
  if q.write then .write c q.sessionID q.state else .read c q.sessionID

/-- What a call can do: serve the oldest request of one source, or none. -/
inductive Effect (s : StateTable) (i : StateTableIn) (s' : StateTable) (i' : StateTableIn)
    (o : StateTableOut) : Prop
  | quiet (ho : o = {}) (hl : s'.locks = s.locks) (hr : s'.rxPending i' = s.rxPending i)
      (ht : s'.txPending i' = s.txPending i) (hc : s'.closePending i' = s.closePending i)
      (hp : i'.txApp2stateTableReq = i.txApp2stateTableReq)
      (hrw : s'.sttRxWait = true → s.sttRxWait = true ∨ s.txLocks s'.sttRxAccess.sessionID = true)
      (htw : s'.sttTxWait = true → s.sttTxWait = true ∨ s.rxLocks s'.sttTxAccess.sessionID = true)
  | rx (q : StateQuery) (hfree : s.txLocks q.sessionID = false)
      (ho : o = { stateTable2rxEngUpdRsp := if q.write then [] else [s.stateTable q.sessionID]
                  stateTable2sLookupReleaseSession :=
                    if q.write && q.state == CLOSED then [q.sessionID] else []
                  accesses := [access .rx q] })
      (hl : s'.locks = s.locks.apply (access .rx q)) (hr : s.rxPending i = q :: s'.rxPending i')
      (ht : s'.txPending i' = s.txPending i) (hc : s'.closePending i' = s.closePending i)
      (hp : i'.txApp2stateTableReq = i.txApp2stateTableReq) (hrw : s'.sttRxWait = false)
      (htw : s'.sttTxWait = s.sttTxWait)
  | tx (q : StateQuery) (hfree : s.rxLocks q.sessionID = false)
      (ho : o = { stateTable2txAppUpdRsp := if q.write then [] else [s.stateTable q.sessionID]
                  accesses := [access .tx q] })
      (hl : s'.locks = s.locks.apply (access .tx q)) (ht : s.txPending i = q :: s'.txPending i')
      (hr : s'.rxPending i' = s.rxPending i) (hc : s'.closePending i' = s.closePending i)
      (hp : i'.txApp2stateTableReq = i.txApp2stateTableReq) (htw : s'.sttTxWait = false)
      (hrw : s'.sttRxWait = s.sttRxWait)
  | close (id : SessionID) (hrx : s.rxLocks id = false) (htx : s.txLocks id = false)
      (ho : o = { stateTable2sLookupReleaseSession := [id], accesses := [.force id CLOSED] })
      (hl : s'.locks = s.locks.apply (.force id CLOSED))
      (hc : s.closePending i = id :: s'.closePending i')
      (hr : s'.rxPending i' = s.rxPending i) (ht : s'.txPending i' = s.txPending i)
      (hp : i'.txApp2stateTableReq = i.txApp2stateTableReq) (hrw : s'.sttRxWait = s.sttRxWait)
      (htw : s'.sttTxWait = s.sttTxWait)
  | peek (id : SessionID) (hs : s' = s)
      (hi : i = { i' with txApp2stateTableReq := id :: i'.txApp2stateTableReq })
      (ho : o = { stateTable2txAppRsp := [s.stateTable id], accesses := [.peek id] })

theorem txServe_locks (s : StateTable) :
    s.txServe.1.locks = s.locks.apply (access .tx s.sttTxAccess) := by
  unfold txServe access
  cases hq : s.sttTxAccess.write
  all_goals
    simp only [hq, Bool.false_eq_true, if_true, if_false, locks, Locks.apply, Locks.mk.injEq, and_true]
    funext c
    cases c <;> simp [held]

theorem rxServe_locks (s : StateTable) :
    s.rxServe.1.locks = s.locks.apply (access .rx s.sttRxAccess) := by
  unfold rxServe access
  cases hq : s.sttRxAccess.write
  all_goals
    simp only [hq, Bool.false_eq_true, if_true, if_false, locks, Locks.apply, Locks.mk.injEq, and_true]
    funext c
    cases c <;> simp [held]

theorem closeServe_locks (s : StateTable) :
    s.closeServe.1.locks = s.locks.apply (.force s.sttCloseSessionID CLOSED) := by
  simp only [closeServe, locks, Locks.apply, Locks.mk.injEq, and_true]
  funext c
  cases c <;> rfl

theorem txServe_out (s : StateTable) :
    s.txServe.2 =
      { stateTable2txAppUpdRsp :=
          if s.sttTxAccess.write then [] else [s.stateTable s.sttTxAccess.sessionID]
        accesses := [access .tx s.sttTxAccess] } := by
  unfold txServe access
  cases hq : s.sttTxAccess.write <;> simp [hq]

theorem rxServe_out (s : StateTable) :
    s.rxServe.2 =
      { stateTable2rxEngUpdRsp :=
          if s.sttRxAccess.write then [] else [s.stateTable s.sttRxAccess.sessionID]
        stateTable2sLookupReleaseSession :=
          if s.sttRxAccess.write && s.sttRxAccess.state == CLOSED then [s.sttRxAccess.sessionID]
          else []
        accesses := [access .rx s.sttRxAccess] } := by
  unfold rxServe access
  cases hq : s.sttRxAccess.write <;> simp [hq]

theorem txServe_frame (s : StateTable) :
    s.txServe.1.sttTxWait = s.sttTxWait ∧ s.txServe.1.sttRxWait = s.sttRxWait ∧
      s.txServe.1.sttRxAccess = s.sttRxAccess ∧ s.txServe.1.sttCloseWait = s.sttCloseWait ∧
      s.txServe.1.sttCloseSessionID = s.sttCloseSessionID := by
  simp only [txServe]
  split <;> exact ⟨rfl, rfl, rfl, rfl, rfl⟩

theorem rxServe_frame (s : StateTable) :
    s.rxServe.1.sttTxWait = s.sttTxWait ∧ s.rxServe.1.sttRxWait = s.sttRxWait ∧
      s.rxServe.1.sttTxAccess = s.sttTxAccess ∧ s.rxServe.1.sttCloseWait = s.sttCloseWait ∧
      s.rxServe.1.sttCloseSessionID = s.sttCloseSessionID := by
  simp only [rxServe]
  split <;> exact ⟨rfl, rfl, rfl, rfl, rfl⟩

theorem serveWaiting_effect (s : StateTable) (i : StateTableIn) :
    Effect s i s.serveWaiting.1 i s.serveWaiting.2 := by
  have idle : Effect s i s i {} :=
    .quiet rfl rfl rfl rfl rfl rfl (fun h => .inl h) (fun h => .inl h)
  unfold serveWaiting
  split
  · next htw =>
      split
      · next hfree =>
          refine .tx s.sttTxAccess (by simpa using hfree) s.txServe_out s.txServe_locks ?_ ?_ ?_ rfl rfl ?_
          · simp [txPending, htw]
          · simp [rxPending, s.txServe_frame]
          · simp [closePending, s.txServe_frame]
          · simp [s.txServe_frame]
      · exact idle
  split
  · next hrw =>
      split
      · next hfree =>
          refine .rx s.sttRxAccess (by simpa using hfree) s.rxServe_out s.rxServe_locks ?_ ?_ ?_ rfl rfl ?_
          · simp [rxPending, hrw]
          · simp [txPending, s.rxServe_frame]
          · simp [closePending, s.rxServe_frame]
          · simp [s.rxServe_frame]
      · exact idle
  split
  · next hcw =>
      split
      · next hfree =>
          simp only [Bool.and_eq_true, Bool.not_eq_true'] at hfree
          refine .close s.sttCloseSessionID hfree.1 hfree.2 rfl s.closeServe_locks ?_ rfl rfl rfl rfl rfl
          simp [closePending, hcw]
      · exact idle
  · exact idle

end StateTable

open StateTable in
/-- Every call has one of the effects. -/
theorem stateTable_effect (s : StateTable) (i : StateTableIn) :
    Effect s i (stateTable s i).1 (stateTable s i).2.1 (stateTable s i).2.2 := by
  unfold stateTable
  split
  · next q rest hq hw =>
      dsimp only
      split
      · next hlock =>
          -- parked: the request moves from the FIFO into the slot
          refine .quiet rfl rfl rfl ?_ rfl rfl (fun h => .inl h) (fun _ => .inr hlock)
          simp [txPending, hq, hw]
      · next hfree =>
          refine .tx q (Bool.eq_false_iff.mpr hfree) (txServe_out _) (txServe_locks _) ?_ ?_ ?_ rfl ?_ ?_
          · simp [txPending, txServe_frame, hq, hw]
          · simp [rxPending, txServe_frame]
          · simp [closePending, txServe_frame]
          · simp [txServe_frame, hw]
          · simp [txServe_frame]
  split
  · next id rest hid =>
      exact .peek id rfl (by simp [← hid]) rfl
  split
  · next q rest hq hw =>
      dsimp only
      split
      · next hlock =>
          refine .quiet rfl rfl ?_ rfl rfl rfl (fun _ => .inr hlock) (fun h => .inl h)
          simp [rxPending, hq, hw]
      · next hfree =>
          refine .rx q (Bool.eq_false_iff.mpr hfree) (rxServe_out _) (rxServe_locks _) ?_ ?_ ?_ rfl ?_ ?_
          · simp [rxPending, rxServe_frame, hq, hw]
          · simp [txPending, rxServe_frame]
          · simp [closePending, rxServe_frame]
          · simp [rxServe_frame, hw]
          · simp [rxServe_frame]
  split
  · next id rest hid hw =>
      dsimp only
      split
      · next hlock =>
          refine .quiet rfl rfl rfl rfl ?_ rfl (fun h => .inl h) (fun h => .inl h)
          simp [closePending, hid, hw]
      · next hfree =>
          simp only [Bool.or_eq_true, not_or, Bool.not_eq_true] at hfree
          refine .close id hfree.1 hfree.2 rfl (closeServe_locks _) ?_ rfl rfl rfl rfl rfl
          simp [closePending, closeServe, hid, hw]
  · exact serveWaiting_effect s i

end FpgaNetworkStack.Toe
