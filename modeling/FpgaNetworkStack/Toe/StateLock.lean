import FpgaNetworkStack.Toe.FsmBalance
import FpgaNetworkStack.Toe.StateTable
import FpgaNetworkStack.Toe.TxAppIf

/-!
# Mutual exclusion at the state table

The state table with its clients: `rxTcpFSM` and `tx_app_if` send requests that keep to
`discipline`, the close timer and the stream interface send what they like, and the table is called
at any time.  The calls refine the table with read locks of `Lib.Locks`.
-/

namespace FpgaNetworkStack.Toe

open Lib SessionState StateTable

/-! ## What the clients owe -/

section Clients

variable {b : Build}

/-- The session `rxTcpFSM` has read and not yet written. -/
def RxTcpFsm.owes (s : RxTcpFsm) : Option SessionID :=
  match s.fsmState with
  | .LOAD => none
  | .TRANSITION => some s.fsmMeta.sessionID

/-- The session `tx_app_if` has read and not yet written. -/
def TxAppIf.owes (s : TxAppIf) : Option SessionID :=
  match s.taiFsmState with
  | .IDLE => none
  | .CLOSE_CONN => some s.taiCloseSessionID

end Clients

/-! ## The network -/

structure StateNet where
  table : StateTable
  fifo : StateTableIn
  /-- The session a client has read and not yet written. -/
  owed : Client → Option SessionID
  sent : Client → List StateQuery
  timerSent : List SessionID
  streamSent : List SessionID
  log : List StateAccess
  rsp : Client → List SessionState
  streamRsp : List SessionState
  released : List SessionID

inductive StateLabel where
  | send (c : Client) (q : StateQuery)
  | timer (id : SessionID)
  | stream (id : SessionID)
  | call

namespace StateNet

def init (table : SessionID → SessionState) : StateNet :=
  ⟨{ stateTable := table }, {}, fun _ => none, fun _ => [], [], [], [], fun _ => [], [], []⟩

def push (i : StateTableIn) (c : Client) (q : StateQuery) : StateTableIn :=
  match c with
  | .rx => { i with rxEng2stateTableUpdReq := i.rxEng2stateTableUpdReq ++ [q] }
  | .tx => { i with txApp2stateTableUpdReq := i.txApp2stateTableUpdReq ++ [q] }

def callTable (t : StateNet) : StateNet :=
  let (table, fifo, out) := stateTable t.table t.fifo
  { t with
    table, fifo
    log := t.log ++ out.accesses
    rsp := fun
      | .rx => t.rsp .rx ++ out.stateTable2rxEngUpdRsp
      | .tx => t.rsp .tx ++ out.stateTable2txAppUpdRsp
    streamRsp := t.streamRsp ++ out.stateTable2txAppRsp
    released := t.released ++ out.stateTable2sLookupReleaseSession }

def step (t : StateNet) : StateLabel → Option StateNet
  | .send c q =>
    -- a client that still owes a write sends this write next
    (discipline (t.owed c) [q]).map fun owed =>
      { t with
        fifo := push t.fifo c q
        owed := Function.update t.owed c owed
        sent := Function.update t.sent c (t.sent c ++ [q]) }
  | .timer id =>
    some { t with
      fifo := { t.fifo with
        timer2stateTableReleaseState := t.fifo.timer2stateTableReleaseState ++ [id] }
      timerSent := t.timerSent ++ [id] }
  | .stream id =>
    some { t with
      fifo := { t.fifo with txApp2stateTableReq := t.fifo.txApp2stateTableReq ++ [id] }
      streamSent := t.streamSent ++ [id] }
  | .call => some t.callTable

/-! ## What is claimed -/

/-- A request without the unused state field of a read. -/
def key (q : StateQuery) : SessionID × Option SessionState :=
  (q.sessionID, if q.write then some q.state else none)

def accessKey (c : Client) : StateAccess → Option (SessionID × Option SessionState)
  | .read d k => if c = d then some (k, none) else none
  | .write d k v => if c = d then some (k, some v) else none
  | _ => none

def forceKey : StateAccess → Option SessionID
  | .force k _ => some k
  | _ => none

def peekKey : StateAccess → Option SessionID
  | .peek k => some k
  | _ => none

def readKey (c : Client) : StateAccess → Option SessionID
  | .read d k => if c = d then some k else none
  | _ => none

/-- Applied writes of CLOSED by the receive engine, and applied timer releases. -/
def releaseKey : StateAccess → Option SessionID
  | .write .rx k CLOSED => some k
  | .force k _ => some k
  | _ => none

def pending (t : StateNet) : Client → List StateQuery
  | .rx => t.table.rxPending t.fifo
  | .tx => t.table.txPending t.fifo

def start (table : SessionID → SessionState) : Locks Client SessionID SessionState :=
  ⟨fun _ => none, table⟩

/-- No request is queued or parked. -/
structure Idle (t : StateNet) : Prop where
  clients : ∀ c, t.pending c = []
  timer : t.table.closePending t.fifo = []
  stream : t.fifo.txApp2stateTableReq = []

structure Safe (table : SessionID → SessionState) (t : StateNet) : Prop where
  /-- From an answered read of a client up to its write of the session, nobody else reads, writes or
  closes the session, and its entry keeps the value that was answered. -/
  exclusive : ∀ before mid after c id, t.log = before ++ .read c id :: (mid ++ after) →
    (∀ v, Access.write c id v ∉ mid) →
    (∀ a ∈ mid, ¬ Locks.Foreign c id a) ∧
      ((start table).replay (before ++ .read c id :: mid)).table id =
        ((start table).replay before).table id
  /-- The table holds what the applied accesses make of it, and reads are answered from it. -/
  contents : t.table.stateTable = ((start table).replay t.log).table
  answers : ∀ c, t.rsp c = Locks.answers (readKey c) (start table) t.log
  streamAnswers : t.streamRsp = Locks.answers peekKey (start table) t.log
  /-- Every request is applied once, in order, or waits in one place. -/
  clients : ∀ c, (t.sent c).map key = t.log.filterMap (accessKey c) ++ (t.pending c).map key
  timer : t.timerSent = t.log.filterMap forceKey ++ t.table.closePending t.fifo
  stream : t.streamSent = t.log.filterMap peekKey ++ t.fifo.txApp2stateTableReq
  released : t.released = t.log.filterMap releaseKey
  /-- Once no client owes a write, calls alone apply everything. -/
  drains : (∀ c, t.owed c = none) → ∃ n, Idle (callTable^[n] t)

/-! ## The invariant -/

structure Inv (table : SessionID → SessionState) (t : StateNet) : Prop where
  legal : Locks.Legal (start table) t.log
  locks : t.table.locks = (start table).replay t.log
  exclusive : t.table.locks.Exclusive
  owed : ∀ c, discipline (t.table.held c) (t.pending c) = some (t.owed c)
  rxWait : t.table.sttRxWait = true → t.table.held .rx = none
  txWait : t.table.sttTxWait = true → t.table.held .tx = none
  answers : ∀ c, t.rsp c = Locks.answers (readKey c) (start table) t.log
  streamAnswers : t.streamRsp = Locks.answers peekKey (start table) t.log
  clients : ∀ c, (t.sent c).map key = t.log.filterMap (accessKey c) ++ (t.pending c).map key
  timer : t.timerSent = t.log.filterMap forceKey ++ t.table.closePending t.fifo
  stream : t.streamSent = t.log.filterMap peekKey ++ t.fifo.txApp2stateTableReq
  released : t.released = t.log.filterMap releaseKey

theorem inv_init (table : SessionID → SessionState) : Inv table (init table) where
  legal := trivial
  locks := by
    simp only [init, StateTable.locks, start, Locks.replay, List.foldl_nil, Locks.mk.injEq, and_true]
    funext c
    cases c <;> rfl
  exclusive := by
    intro c d k hc
    cases c <;> cases hc
  owed := by
    intro c
    cases c <;> rfl
  rxWait := fun _ => rfl
  txWait := fun _ => rfl
  answers := fun _ => rfl
  streamAnswers := rfl
  clients := by
    intro c
    cases c <;> rfl
  timer := rfl
  stream := rfl
  released := rfl

theorem pending_push (t : StateNet) (c d : Client) (q : StateQuery) :
    pending { t with fifo := push t.fifo c q } d = t.pending d ++ if d = c then [q] else [] := by
  cases c <;> cases d <;> simp [pending, push, rxPending, txPending]

variable {table : SessionID → SessionState} {t u : StateNet} {q : StateQuery} {c : Client}

theorem inv_send
    (h : Inv table t) (hs : t.step (.send c q) = some u) : Inv table u := by
  obtain ⟨owed, howed, rfl⟩ := Option.map_eq_some_iff.mp hs
  have hpend := pending_push t c
  refine { h with owed := ?_, clients := ?_, timer := ?_, stream := ?_ }
  · intro d
    have hd := h.owed d
    change discipline _ (pending { t with fifo := push t.fifo c q } d) = _
    rw [hpend, discipline_append, hd]
    by_cases hdc : d = c
    · subst hdc
      simpa using howed
    · simp [hdc, discipline]
  · intro d
    have hd := h.clients d
    change _ = _ ++ (pending { t with fifo := push t.fifo c q } d).map key
    rw [hpend]
    by_cases hdc : d = c
    · subst hdc
      simp [hd]
    · simp [hdc, hd]
  · have ht := h.timer
    cases c <;> exact ht
  · have ht := h.stream
    cases c <;> exact ht

variable {s : StateTable}

theorem access_enabled
    (hfree : ∀ d, d ≠ c → s.held d ≠ some q.sessionID)
    (hown : s.held c = none ∨ (q.write = true ∧ s.held c = some q.sessionID)) :
    s.locks.Enabled (access c q) := by
  unfold access
  cases hq : q.write with
  | true =>
    refine ⟨?_, hfree⟩
    rcases hown with h | h
    · exact .inl h
    · exact .inr h.2
  | false =>
    have hnone : s.held c = none := hown.resolve_right (by simp [hq])
    refine ⟨hnone, fun d => ?_⟩
    by_cases hd : d = c
    · subst hd
      exact fun hs => by simp [hnone, StateTable.locks] at hs
    · exact hfree d hd

theorem apply_access_held (l : Locks Client SessionID SessionState) (c d : Client) (q : StateQuery) :
    (l.apply (access c q)).held d =
      if d = c then (if q.write then none else some q.sessionID) else l.held d := by
  unfold access
  cases q.write <;> by_cases hd : d = c <;> simp [Locks.apply, hd]

@[simp] theorem accessKey_access (c d : Client) (q : StateQuery) :
    accessKey d (access c q) = if d = c then some (key q) else none := by
  unfold access key
  cases q.write <;> cases c <;> cases d <;> simp [accessKey]

theorem inv_access {a : StateAccess} (h : Inv table t) (ha : t.table.locks.Enabled a)
    (hl : s.locks = t.table.locks.apply a) :
    Locks.Legal (start table) (t.log ++ [a]) ∧ s.locks = (start table).replay (t.log ++ [a]) ∧
      s.locks.Exclusive := by
  refine ⟨?_, ?_, ?_⟩
  · rw [Locks.legal_append]
    exact ⟨h.legal, by rw [← h.locks]; exact ⟨ha, trivial⟩⟩
  · rw [Locks.replay_append, ← h.locks, hl]
    rfl
  · rw [hl]
    exact h.exclusive.apply ha

theorem unlocked_of_blocked {c d : Client} {qs : List StateQuery}
    {owed : Option SessionID} (hx : s.locks.Exclusive) (hcd : c ≠ d)
    (hd : s.held d = some q.sessionID) (hdisc : discipline (s.held c) (q :: qs) = some owed) :
    s.held c = none := by
  obtain ⟨hown | ⟨-, hown⟩, -⟩ := discipline_cons hdisc
  · exact hown
  · exact absurd (hx c d _ hown hd) hcd

theorem held_eq_of_locks {s s' : StateTable} (h : s'.locks = s.locks) : s'.held = s.held :=
  congrArg Locks.held h

/-- What a call leaves behind when it serves the oldest request of client `c`. -/
theorem inv_serve
    (h : Inv table t) (hfree : ∀ d, d ≠ c → t.table.held d ≠ some q.sessionID)
    (hl : u.table.locks = t.table.locks.apply (access c q)) (hown : u.owed = t.owed)
    (hpend : t.pending c = q :: u.pending c) (hother : ∀ d, d ≠ c → u.pending d = t.pending d)
    (hlog : u.log = t.log ++ [access c q])
    (hrsp : ∀ d, u.rsp d = t.rsp d ++
      if d = c ∧ q.write = false then [t.table.stateTable q.sessionID] else [])
    (hsent : u.sent = t.sent) (htimer : u.timerSent = t.timerSent)
    (hstream : u.streamSent = t.streamSent) (hstreamRsp : u.streamRsp = t.streamRsp)
    (hclose : u.table.closePending u.fifo = t.table.closePending t.fifo)
    (hpeek : u.fifo.txApp2stateTableReq = t.fifo.txApp2stateTableReq)
    (hrw : u.table.sttRxWait = true → t.table.sttRxWait = true ∧ c ≠ .rx)
    (htw : u.table.sttTxWait = true → t.table.sttTxWait = true ∧ c ≠ .tx)
    (hrel : u.released = t.released ++ (releaseKey (access c q)).toList) : Inv table u := by
  have hdisc := h.owed c
  rw [hpend] at hdisc
  obtain ⟨hheld, hrest⟩ := discipline_cons hdisc
  obtain ⟨hlegal, hlocks, hexcl⟩ := inv_access h (access_enabled hfree hheld) hl
  have hheld' (d : Client) : u.table.held d =
      if d = c then (if q.write then none else some q.sessionID) else t.table.held d :=
    (congrArg (fun l => l.held d) hl).trans (apply_access_held ..)
  rw [← hlog] at hlegal hlocks
  refine ⟨hlegal, hlocks, hexcl, ?_, ?_, ?_, ?_, ?_, ?_, ?_, ?_, ?_⟩
  · intro d
    by_cases hd : d = c
    · subst hd
      rw [hheld', hown, if_pos rfl]
      exact hrest
    · rw [hheld', hother d hd, hown, if_neg hd]
      exact h.owed d
  · intro hw
    obtain ⟨hw, hc⟩ := hrw hw
    rw [hheld', if_neg (Ne.symm hc)]
    exact h.rxWait hw
  · intro hw
    obtain ⟨hw, hc⟩ := htw hw
    rw [hheld', if_neg (Ne.symm hc)]
    exact h.txWait hw
  · intro d
    rw [hlog, Locks.answers_append, ← h.answers d, ← h.locks, hrsp]
    congr 1
    unfold access
    cases hq : q.write <;> by_cases hd : d = c <;>
      simp [Locks.answers, readKey, hd, StateTable.locks]
  · rw [hlog, Locks.answers_append, ← h.streamAnswers, hstreamRsp]
    unfold access
    cases q.write <;> simp [Locks.answers, peekKey]
  · intro d
    have hd := h.clients d
    rw [hlog, hsent, hd, List.filterMap_append]
    by_cases hdc : d = c
    · subst hdc
      simp [hpend]
    · simp [hother d hdc, hdc]
  · rw [hlog, htimer, h.timer, hclose, List.filterMap_append]
    unfold access
    cases q.write <;> simp [forceKey]
  · rw [hlog, hstream, h.stream, hpeek, List.filterMap_append]
    unfold access
    cases q.write <;> simp [peekKey]
  · rw [hlog, hrel, h.released, List.filterMap_append, List.filterMap_cons, List.filterMap_nil]
    cases releaseKey (access c q) <;> rfl

theorem inv_call (h : Inv table t) : Inv table t.callTable := by
  have heff := stateTable_effect t.table t.fifo
  generalize hst : stateTable t.table t.fifo = r at heff
  obtain ⟨s', i', o⟩ := r
  dsimp only at heff
  have hu : t.callTable = { t with
      table := s', fifo := i', log := t.log ++ o.accesses
      rsp := fun
        | .rx => t.rsp .rx ++ o.stateTable2rxEngUpdRsp
        | .tx => t.rsp .tx ++ o.stateTable2txAppUpdRsp
      streamRsp := t.streamRsp ++ o.stateTable2txAppRsp
      released := t.released ++ o.stateTable2sLookupReleaseSession } := by
    simp only [callTable, hst]
  rw [hu]
  cases heff with
  | quiet ho hl hr ht hc hp hrw htw =>
    subst ho
    have hheld := held_eq_of_locks hl
    have hpend (c : Client) : pending { t with table := s', fifo := i' } c = t.pending c := by
      cases c with
      | rx => exact hr
      | tx => exact ht
    simp only [List.append_nil]
    refine ⟨h.legal, hl.trans h.locks, hl ▸ h.exclusive, ?_, ?_, ?_, ?_, h.streamAnswers, ?_, ?_, ?_,
      h.released⟩
    · intro c
      exact hheld ▸ (hpend c).symm ▸ h.owed c
    · -- a request parked just now: its client holds nothing
      intro hw
      rw [hheld]
      rcases hrw hw with hw' | hblock
      · exact h.rxWait hw'
      · have hdisc := h.owed .rx
        have hcons : t.pending .rx = s'.sttRxAccess :: i'.rxEng2stateTableUpdReq := by
          have hw' : s'.sttRxWait = true := hw
          rw [← hpend]
          simp [pending, rxPending, hw']
        rw [hcons] at hdisc
        exact unlocked_of_blocked h.exclusive (by decide) (txLocks_iff.mp hblock) hdisc
    · intro hw
      rw [hheld]
      rcases htw hw with hw' | hblock
      · exact h.txWait hw'
      · have hdisc := h.owed .tx
        have hcons : t.pending .tx = s'.sttTxAccess :: i'.txApp2stateTableUpdReq := by
          have hw' : s'.sttTxWait = true := hw
          rw [← hpend]
          simp [pending, txPending, hw']
        rw [hcons] at hdisc
        exact unlocked_of_blocked h.exclusive (by decide) (rxLocks_iff.mp hblock) hdisc
    · intro c
      cases c <;> exact h.answers _
    · intro c
      exact (hpend c).symm ▸ h.clients c
    · exact hc.symm ▸ h.timer
    · exact hp.symm ▸ h.stream
  | rx q hfree ho hl hr ht hc hp hrw htw =>
    subst ho
    refine inv_serve (q := q) h ?_ hl rfl hr ?_ rfl ?_ rfl rfl rfl (by simp) hc hp ?_ ?_ ?_
    · intro d hd
      cases d with
      | rx => exact absurd rfl hd
      | tx => exact fun hs => by simp [txLocks_iff.mpr hs] at hfree
    · intro d hd
      cases d with
      | rx => exact absurd rfl hd
      | tx => exact ht
    · intro d
      cases d <;> cases q.write <;> simp
    · intro hw
      rw [hrw] at hw
      cases hw
    · exact fun hw => ⟨htw ▸ hw, by simp⟩
    · unfold access
      cases q.write <;> cases q.state <;> simp [releaseKey]
  | tx q hfree ho hl ht hr hc hp htw hrw =>
    subst ho
    refine inv_serve (q := q) h ?_ hl rfl ht ?_ rfl ?_ rfl rfl rfl (by simp) hc hp ?_ ?_ ?_
    · intro d hd
      cases d with
      | tx => exact absurd rfl hd
      | rx => exact fun hs => by simp [rxLocks_iff.mpr hs] at hfree
    · intro d hd
      cases d with
      | tx => exact absurd rfl hd
      | rx => exact hr
    · intro d
      cases d <;> cases q.write <;> simp
    · exact fun hw => ⟨hrw ▸ hw, by simp⟩
    · intro hw
      rw [htw] at hw
      cases hw
    · unfold access
      cases q.write <;> simp [releaseKey]
  | close id hrx htx ho hl hc hr ht hp hrw htw =>
    subst ho
    have hheld : s'.held = t.table.held := congrArg Locks.held hl
    have hpend (c : Client) : pending { t with table := s', fifo := i' } c = t.pending c := by
      cases c with
      | rx => exact hr
      | tx => exact ht
    have hen : t.table.locks.Enabled (.force id CLOSED) := by
      intro d
      cases d with
      | rx => exact fun hs => by simp [rxLocks_iff.mpr hs] at hrx
      | tx => exact fun hs => by simp [txLocks_iff.mpr hs] at htx
    obtain ⟨hlegal, hlocks, hexcl⟩ := inv_access h hen hl
    refine ⟨hlegal, hlocks, hexcl, ?_, ?_, ?_, ?_, ?_, ?_, ?_, ?_, ?_⟩
    · intro c
      exact hheld ▸ (hpend c).symm ▸ h.owed c
    · exact fun hw => hheld ▸ h.rxWait (hrw ▸ hw)
    · exact fun hw => hheld ▸ h.txWait (htw ▸ hw)
    · intro c
      rw [Locks.answers_append, ← h.answers c]
      cases c <;> simp [Locks.answers, readKey]
    · rw [Locks.answers_append, ← h.streamAnswers]
      simp [Locks.answers, peekKey]
    · intro c
      have hp' := hpend c
      have hcl := h.clients c
      simp only [List.filterMap_append, List.filterMap_cons, List.filterMap_nil, accessKey,
        List.append_nil]
      exact hp'.symm ▸ hcl
    · simp [h.timer, hc, forceKey]
    · have hstream := h.stream
      rw [← hp] at hstream
      simpa [peekKey, List.filterMap_cons] using hstream
    · simp [h.released, releaseKey]
  | peek id hs hi ho =>
    subst ho hs
    have hpend (c : Client) : pending { t with fifo := i' } c = t.pending c := by
      cases c <;> simp [pending, rxPending, txPending, hi]
    obtain ⟨hlegal, hlocks, hexcl⟩ := inv_access (a := .peek id) h trivial rfl
    refine ⟨hlegal, hlocks, hexcl, ?_, h.rxWait, h.txWait, ?_, ?_, ?_, ?_, ?_, ?_⟩
    · intro c
      exact (hpend c).symm ▸ h.owed c
    · intro c
      rw [Locks.answers_append, ← h.answers c]
      cases c <;> simp [Locks.answers, readKey]
    · rw [Locks.answers_append, ← h.streamAnswers, ← h.locks]
      simp [Locks.answers, peekKey, StateTable.locks]
    · intro c
      have hp' := hpend c
      have hcl := h.clients c
      simp only [List.filterMap_append, List.filterMap_cons, List.filterMap_nil, accessKey,
        List.append_nil]
      exact hp'.symm ▸ hcl
    · have htimer := h.timer
      rw [hi] at htimer
      simpa [forceKey, List.filterMap_cons, closePending] using htimer
    · have hstream := h.stream
      rw [hi] at hstream
      simpa [peekKey] using hstream
    · simp [h.released, releaseKey]

/-! ## Progress -/

/-- Requests in the FIFOs count twice, those in a wait slot once. -/
def backlog (s : StateTable) (i : StateTableIn) : Nat :=
  2 * (i.rxEng2stateTableUpdReq.length + i.txApp2stateTableUpdReq.length +
      i.txApp2stateTableReq.length + i.timer2stateTableReleaseState.length) +
    (s.sttRxWait.toNat + s.sttTxWait.toNat + s.sttCloseWait.toNat)

theorem backlog_serveWaiting (hlocks : ∀ c, s.held c = none) (i : StateTableIn)
    (hwait : s.sttTxWait = true ∨ s.sttRxWait = true ∨ s.sttCloseWait = true) :
    backlog s.serveWaiting.1 i < backlog s i := by
  have hrx (id : SessionID) : s.rxLocks id = false :=
    Bool.eq_false_iff.mpr fun h => by simpa [hlocks] using rxLocks_iff.mp h
  have htx (id : SessionID) : s.txLocks id = false :=
    Bool.eq_false_iff.mpr fun h => by simpa [hlocks] using txLocks_iff.mp h
  unfold serveWaiting backlog
  cases h1 : s.sttTxWait with
  | true => simp [hrx, s.txServe_frame]
  | false =>
    cases h2 : s.sttRxWait with
    | true => simp [htx, s.rxServe_frame, h1]
    | false =>
      cases h3 : s.sttCloseWait with
      | true => simp [hrx, htx, closeServe, h1, h2]
      | false => simp [h1, h2, h3] at hwait

theorem Inv.write_queued (h : Inv table t)
    (howed : t.owed c = none) {id : SessionID} (hheld : t.table.held c = some id) :
    t.pending c ≠ [] := by
  intro hnil
  have hdisc := h.owed c
  rw [hnil, hheld, howed] at hdisc
  simp [discipline] at hdisc

theorem backlog_call (h : Inv table t) (howed : ∀ c, t.owed c = none) (hbusy : backlog t.table t.fifo ≠ 0) :
    backlog t.callTable.table t.callTable.fifo < backlog t.table t.fifo := by
  change backlog (stateTable t.table t.fifo).1 (stateTable t.table t.fifo).2.1 < _
  unfold stateTable
  split
  · next q rest hq hw =>
      dsimp only
      split
      · simp only [backlog, hq, hw, List.length_cons, Bool.toNat_true, Bool.toNat_false]
        omega
      · simp [backlog, txServe_frame, hq, hw]
  next hnotx =>
  split
  · next id rest hid => simp [backlog, hid]
  next hnostream =>
  split
  · next q rest hq hw =>
      dsimp only
      split
      · simp only [backlog, hq, hw, List.length_cons, Bool.toNat_true, Bool.toNat_false]
        omega
      · simp [backlog, rxServe_frame, hq, hw]
  next hnorx =>
  split
  · next id rest hid hw =>
      dsimp only
      split
      · simp only [backlog, hid, hw, List.length_cons, Bool.toNat_true, Bool.toNat_false]
        omega
      · simp [backlog, closeServe, hid, hw]
  next hnoclose =>
  -- the queued write of a lock holder would have been taken before
  have hlocks (c : Client) : t.table.held c = none := by
    cases hheld : t.table.held c with
    | none => rfl
    | some id =>
      have hne := h.write_queued (howed c) hheld
      cases c with
      | rx =>
        have hw : t.table.sttRxWait = false :=
          Bool.eq_false_iff.mpr fun hw => by simp [h.rxWait hw] at hheld
        cases hf : t.fifo.rxEng2stateTableUpdReq with
        | nil => simp [pending, rxPending, hw, hf] at hne
        | cons q rest => exact (hnorx q rest hf hw).elim
      | tx =>
        have hw : t.table.sttTxWait = false :=
          Bool.eq_false_iff.mpr fun hw => by simp [h.txWait hw] at hheld
        cases hf : t.fifo.txApp2stateTableUpdReq with
        | nil => simp [pending, txPending, hw, hf] at hne
        | cons q rest => exact (hnotx q rest hf hw).elim
  have hwait : t.table.sttTxWait = true ∨ t.table.sttRxWait = true ∨ t.table.sttCloseWait = true := by
    by_contra hno
    simp only [not_or, Bool.not_eq_true] at hno
    obtain ⟨htx, hrx, hclose⟩ := hno
    -- no slot is taken, so no FIFO has an element
    have h1 : t.fifo.txApp2stateTableUpdReq = [] :=
      List.eq_nil_iff_forall_not_mem.mpr fun q hq => by
        cases hf : t.fifo.txApp2stateTableUpdReq with
        | nil => simp [hf] at hq
        | cons q rest => exact hnotx q rest hf htx
    have h2 : t.fifo.rxEng2stateTableUpdReq = [] :=
      List.eq_nil_iff_forall_not_mem.mpr fun q hq => by
        cases hf : t.fifo.rxEng2stateTableUpdReq with
        | nil => simp [hf] at hq
        | cons q rest => exact hnorx q rest hf hrx
    have h3 : t.fifo.timer2stateTableReleaseState = [] :=
      List.eq_nil_iff_forall_not_mem.mpr fun q hq => by
        cases hf : t.fifo.timer2stateTableReleaseState with
        | nil => simp [hf] at hq
        | cons q rest => exact hnoclose q rest hf hclose
    exact hbusy (by simp [backlog, h1, h2, h3, hnostream, htx, hrx, hclose])
  exact backlog_serveWaiting hlocks t.fifo hwait

theorem idle_of_backlog (h : backlog t.table t.fifo = 0) : Idle t := by
  simp only [backlog, Nat.add_eq_zero_iff, Nat.mul_eq_zero, OfNat.ofNat_ne_zero, false_or,
    List.length_eq_zero_iff, Bool.toNat_eq_zero] at h
  obtain ⟨⟨⟨⟨h1, h2⟩, h3⟩, h4⟩, ⟨h5, h6⟩, h7⟩ := h
  refine ⟨?_, by simp [closePending, h7, h4], h3⟩
  intro c
  cases c with
  | rx => simp [pending, rxPending, h5, h1]
  | tx => simp [pending, txPending, h6, h2]

theorem drains_of_inv {t : StateNet} (h : Inv table t) (howed : ∀ c, t.owed c = none) :
    ∃ n, Idle (callTable^[n] t) := by
  by_cases hbusy : backlog t.table t.fifo = 0
  · exact ⟨0, idle_of_backlog hbusy⟩
  · have hlt := backlog_call h howed hbusy
    obtain ⟨n, hn⟩ := drains_of_inv (inv_call h) (fun c => howed c)
    exact ⟨n + 1, hn⟩
termination_by backlog t.table t.fifo

/-- Mutual exclusion, conservation of requests and progress, in every run. -/
theorem state_table_safe (table : SessionID → SessionState) (t : StateNet)
    (h : Reach step anyStep (init table) t) : Safe table t := by
  have hinv : Inv table t := by
    refine h.invariant (inv_init table) fun u l v hu _ hs => ?_
    cases l with
    | send c q => exact inv_send hu hs
    | timer id =>
      cases hs
      exact { hu with timer := by simp [hu.timer, closePending] }
    | stream id =>
      cases hs
      exact { hu with stream := by simp [hu.stream] }
    | call =>
      cases hs
      exact inv_call hu
  refine { hinv with exclusive := ?_, contents := ?_, drains := drains_of_inv hinv }
  · intro before mid after c id hlog hw
    exact Locks.legal_exclusive (hlog ▸ hinv.legal) hw
  · rw [← hinv.locks]
    rfl

/-- The receive engine reads session 7; a close request and a timer release of the session come in
before it writes the session back, and are parked. -/
def contention : List StateLabel :=
  [.send .rx (.read 7), .call, .send .tx (.read 7), .timer 7, .call, .call,
    .send .rx (.update 7 LAST_ACK), .call, .call]

-- The close request is answered with what the receive engine wrote.
theorem state_table_safe_contention :
    ∃ t, run step (init fun _ => ESTABLISHED) contention = some t ∧
      t.log = [.read .rx 7, .write .rx 7 LAST_ACK, .read .tx 7] ∧ t.rsp .tx = [LAST_ACK] ∧
      Safe (fun _ => ESTABLISHED) t := by
  have h : (run step (init fun _ => ESTABLISHED) contention).map (fun t => (t.log, t.rsp .tx)) =
      some ([.read .rx 7, .write .rx 7 LAST_ACK, .read .tx 7], [LAST_ACK]) := by
    decide +kernel
  obtain ⟨t, ht, hx⟩ := Option.map_eq_some_iff.mp h
  obtain ⟨hlog, hrsp⟩ := Prod.mk.inj hx
  exact ⟨t, ht, hlog, hrsp, state_table_safe _ t (reach_of_run ht)⟩

end StateNet

end FpgaNetworkStack.Toe
