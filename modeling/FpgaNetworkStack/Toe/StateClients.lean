import FpgaNetworkStack.Toe.StateLock

/-!
# The state table with its clients

`rxTcpFSM` and `tx_app_if` themselves in front of the state table, called in any order with anything else that may come
in.  What one of them has read and not yet written is what the table holds.
-/

namespace FpgaNetworkStack.Toe

open Lib SessionState StateTable

variable {b : Build}

/-! ## What a client sends -/

/-- One call: what the client owes, the answers it has not read, and its requests. -/
inductive Turn : Option SessionID → List SessionState → List StateQuery → Option SessionID → List SessionState → Prop
  | idle (owed : Option SessionID) (rsp : List SessionState) : Turn owed rsp [] owed rsp
  | sets (id : SessionID) (state : SessionState) (rsp : List SessionState) :
      Turn none rsp [.update id state] none rsp
  | reads (id : SessionID) (rsp : List SessionState) : Turn none rsp [.read id] (some id) rsp
  | writes (id : SessionID) (state state' : SessionState) (rsp : List SessionState) :
      Turn (some id) (state :: rsp) [.update id state'] none rsp

theorem rxTcpFSM_turn (e : RxTcpFsmEnv b) (s : RxTcpFsm) (i : RxTcpFsmIn b) :
    Turn s.owes i.stateTable2rxEngUpdRsp (rxTcpFSM b e s i).2.2.rxEng2stateTableUpdReq (rxTcpFSM b e s i).1.owes
      (rxTcpFSM b e s i).2.1.stateTable2rxEngUpdRsp := by
  unfold rxTcpFSM
  cases hs : s.fsmState with
  | LOAD =>
    have howes : s.owes = none := by rw [RxTcpFsm.owes, hs]
    dsimp only
    split
    · exact .idle _ _
    · rw [howes]
      exact .reads _ _
  | TRANSITION =>
    have howes : s.owes = some s.fsmMeta.sessionID := by rw [RxTcpFsm.owes, hs]
    dsimp only
    split
    · next tcpState states rxSar entries hstate _ _ =>
        obtain ⟨v, hv⟩ := transition_stateReq e s.fsmMeta tcpState rxSar
          (takeTxSar b e s.fsmMeta.metaData i.txSar2rxEngUpdRsp).1
        dsimp only
        rw [hv, howes, hstate]
        exact .writes _ _ _ _
    · exact .idle _ _

theorem txAppIf_turn (myIpAddress : BitVec 32) (s : TxAppIf) (i : TxAppIfIn) :
    Turn s.owes i.stateTable2txAppUpdRsp (txAppIf b myIpAddress s i).2.2.txApp2stateTableUpdReq
      (txAppIf b myIpAddress s i).1.owes (txAppIf b myIpAddress s i).2.1.stateTable2txAppUpdRsp := by
  have hopen : (openConnection myIpAddress i).1.stateTable2txAppUpdRsp = i.stateTable2txAppUpdRsp := by
    unfold openConnection
    split <;> rfl
  rw [← hopen]
  simp only [txAppIf]
  generalize (openConnection myIpAddress i).1 = j
  unfold taiFsm
  cases hs : s.taiFsmState with
  | IDLE =>
    have howes : s.owes = none := by rw [TxAppIf.owes, hs]
    dsimp only
    split
    · split
      · rw [howes]
        exact .sets _ _ _
      · exact .idle _ _
    · exact .idle _ _
    · exact .idle _ _
    · rw [howes]
      exact .reads _ _
    · exact .idle _ _
  | CLOSE_CONN =>
    have howes : s.owes = some s.taiCloseSessionID := by rw [TxAppIf.owes, hs]
    dsimp only
    split
    · exact .idle _ _
    · next hstate =>
        rw [howes, hstate]
        split <;> exact .writes _ _ _ _

/-! ## The network -/

structure ClientNet where
  rx : RxTcpFsm := .init
  tx : TxAppIf := {}
  net : StateNet
  /-- Answers that a client has not read. -/
  rsp : Client → List SessionState := fun _ => []

/-- A client is called with what its other queues may hold. -/
inductive ClientLabel (b : Build) where
  | rx (e : RxTcpFsmEnv b) (i : RxTcpFsmIn b)
  | tx (myIpAddress : BitVec 32) (i : TxAppIfIn)
  | timer (id : SessionID)
  | stream (id : SessionID)
  | table

namespace StateNet

/-- A client sends requests, after which it owes the write of `owed`. -/
def sends (t : StateNet) (c : Client) (owed : Option SessionID) (qs : List StateQuery) : StateNet :=
  { t with
    fifo := qs.foldl (push · c) t.fifo
    owed := Function.update t.owed c owed
    sent := Function.update t.sent c (t.sent c ++ qs) }

end StateNet

namespace ClientNet

def init (table : SessionID → SessionState) : ClientNet := { net := .init table }

def owes (t : ClientNet) : Client → Option SessionID
  | .rx => t.rx.owes
  | .tx => t.tx.owes

def step (t : ClientNet) : ClientLabel b → Option ClientNet
  | .rx e i =>
    let (rx, i, out) := rxTcpFSM b e t.rx { i with stateTable2rxEngUpdRsp := t.rsp .rx }
    some { t with
      rx
      net := t.net.sends .rx rx.owes out.rxEng2stateTableUpdReq
      rsp := Function.update t.rsp .rx i.stateTable2rxEngUpdRsp }
  | .tx myIpAddress i =>
    let (tx, i, out) := txAppIf b myIpAddress t.tx { i with stateTable2txAppUpdRsp := t.rsp .tx }
    some { t with
      tx
      net := t.net.sends .tx tx.owes out.txApp2stateTableUpdReq
      rsp := Function.update t.rsp .tx i.stateTable2txAppUpdRsp }
  | .timer id => (t.net.step (.timer id)).map fun net => { t with net }
  | .stream id => (t.net.step (.stream id)).map fun net => { t with net }
  | .table =>
    let out := (stateTable t.net.table t.net.fifo).2.2
    some { t with
      net := t.net.callTable
      rsp := fun
        | .rx => t.rsp .rx ++ out.stateTable2rxEngUpdRsp
        | .tx => t.rsp .tx ++ out.stateTable2txAppUpdRsp }

end ClientNet

/-! ## What is asked and answered -/

def countReads (qs : List StateQuery) : Nat := qs.countP fun q => !q.write

variable {qs : List StateQuery}

theorem Turn.discipline {owed owed' : Option SessionID} {rsp rsp' : List SessionState}
    (h : Turn owed rsp qs owed' rsp') : discipline owed qs = some owed' := by
  cases h <;> simp [Toe.discipline, StateQuery.update, StateQuery.read]

theorem owed_of_writes {owed : Option SessionID} {id : SessionID}
    (h : discipline owed qs = some (some id)) (hqs : countReads qs = 0) : qs = [] ∧ owed = some id := by
  induction qs generalizing owed with
  | nil => exact ⟨rfl, Option.some.inj h⟩
  | cons q qs ih =>
    have hwrite : q.write = true := by
      cases hw : q.write
      · simp [countReads, hw] at hqs
      · rfl
    have hnone : discipline none qs = some (some id) := by
      cases owed with
      | none => simpa [discipline, hwrite] using h
      | some k =>
        rw [discipline] at h
        split at h
        · exact h
        · cases h
    cases (ih hnone (by simpa [countReads, hwrite] using hqs)).2

namespace StateNet

variable {table : SessionID → SessionState} {t : StateNet}

theorem length_answers (c : Client) (l : Locks Client SessionID SessionState) (log : List StateAccess) :
    (Locks.answers (readKey c) l log).length = (log.filterMap (accessKey c)).countP (·.2.isNone) := by
  induction log generalizing l with
  | nil => rfl
  | cons a log ih =>
    rw [Locks.answers, List.length_append, ih]
    cases a with
    | read d k | write d k v =>
      by_cases hd : c = d
      · simp [readKey, accessKey, hd, Nat.add_comm]
      · simp [readKey, accessKey, hd]
    | force | peek => exact Nat.zero_add _

/-- A read is answered or it waits. -/
theorem Inv.count (h : Inv table t) (c : Client) :
    countReads (t.sent c) = (t.rsp c).length + countReads (t.pending c) := by
  have hkey (qs : List StateQuery) : (qs.map key).countP (·.2.isNone) = countReads qs := by
    rw [List.countP_map, countReads]
    refine List.countP_congr fun q _ => ?_
    cases hw : q.write <;> simp [key, hw]
  rw [← hkey, h.clients c, List.countP_append, hkey, h.answers c, length_answers]

theorem inv_turn {c : Client} {rsp rsp' : List SessionState} {owed : Option SessionID}
    (h : Inv table t) (hturn : Turn (t.owed c) rsp qs owed rsp') : Inv table (t.sends c owed qs) := by
  have hd := hturn.discipline
  match qs with
  | [] =>
    cases hd
    have hsame : t.sends c (t.owed c) [] = t := by simp [sends]
    rw [hsame]
    exact h
  | [q] => exact inv_send h (by rw [step, hd]; rfl)
  | _ :: _ :: _ => generalize t.owed c = o at hturn; cases hturn

end StateNet

/-! ## The invariant -/

namespace ClientNet

variable {table : SessionID → SessionState} {t u : ClientNet}

structure Good (table : SessionID → SessionState) (t : ClientNet) : Prop where
  inv : StateNet.Inv table t.net
  owed : ∀ c, t.net.owed c = t.owes c
  asked : ∀ c, ∃ taken, t.net.rsp c = taken ++ t.rsp c ∧
    countReads (t.net.sent c) = taken.length + (t.owes c).toList.length

theorem Good.turn {c : Client} {rsp : List SessionState} (h : Good table t)
    (hturn : Turn (t.owes c) (t.rsp c) qs (u.owes c) rsp) (hnet : u.net = t.net.sends c (u.owes c) qs)
    (hrsp : u.rsp = Function.update t.rsp c rsp) (hother : ∀ d, d ≠ c → u.owes d = t.owes d) : Good table u := by
  refine ⟨?_, fun d => ?_, fun d => ?_⟩
  · rw [hnet]
    exact StateNet.inv_turn h.inv (by rw [h.owed]; exact hturn)
  · by_cases hd : d = c
    · subst hd
      simp only [hnet, StateNet.sends, Function.update_self]
    · simp only [hnet, StateNet.sends, Function.update_of_ne hd, h.owed, hother d hd]
  · obtain ⟨taken, htaken, hcount⟩ := h.asked d
    rw [hnet, hrsp]
    show ∃ taken, t.net.rsp d = _ ∧ countReads (Function.update t.net.sent c (t.net.sent c ++ qs) d) = _
    by_cases hd : d = c
    · subst hd
      rw [Function.update_self, Function.update_self, countReads, List.countP_append, ← countReads, hcount, htaken]
      generalize t.owes d = o, t.rsp d = r, u.owes d = o' at hturn
      cases hturn with
      | idle | sets => exact ⟨taken, rfl, rfl⟩
      | reads => exact ⟨taken, rfl, rfl⟩
      | writes id state => exact ⟨taken ++ [state], by simp, by simp [StateQuery.update]⟩
    · rw [Function.update_of_ne hd, Function.update_of_ne hd, hother d hd]
      exact ⟨taken, htaken, hcount⟩

theorem good_init : Good table (init table) :=
  ⟨StateNet.inv_init table, fun c => by cases c <;> rfl, fun c => ⟨[], rfl, by cases c <;> rfl⟩⟩

theorem good_step {l : ClientLabel b} (h : Good table t) (hs : t.step l = some u) : Good table u := by
  obtain ⟨hinv, howed, hasked⟩ := h
  cases l with
  | rx e i =>
    have hturn := rxTcpFSM_turn e t.rx { i with stateTable2rxEngUpdRsp := t.rsp .rx }
    simp only [step] at hs
    generalize rxTcpFSM b e t.rx { i with stateTable2rxEngUpdRsp := t.rsp .rx } = r at hs hturn
    cases hs
    exact Good.turn (c := .rx) ⟨hinv, howed, hasked⟩ hturn rfl rfl
      fun d hd => by cases d <;> [exact absurd rfl hd; rfl]
  | tx myIpAddress i =>
    have hturn := txAppIf_turn (b := b) myIpAddress t.tx { i with stateTable2txAppUpdRsp := t.rsp .tx }
    simp only [step] at hs
    generalize txAppIf b myIpAddress t.tx { i with stateTable2txAppUpdRsp := t.rsp .tx } = r at hs hturn
    cases hs
    exact Good.turn (c := .tx) ⟨hinv, howed, hasked⟩ hturn rfl rfl
      fun d hd => by cases d <;> [rfl; exact absurd rfl hd]
  | timer id =>
    cases hs
    exact ⟨{ hinv with timer := by simp [hinv.timer, closePending] }, howed, hasked⟩
  | stream id =>
    cases hs
    exact ⟨{ hinv with stream := by simp [hinv.stream] }, howed, hasked⟩
  | table =>
    cases hs
    refine ⟨StateNet.inv_call hinv, howed, fun c => ?_⟩
    obtain ⟨taken, htaken, hcount⟩ := hasked c
    refine ⟨taken, ?_, hcount⟩
    cases c <;> exact (congrArg (· ++ _) htaken).trans (List.append_assoc ..)

/-! ## What is read stays -/

/-- What a client has read is still in the table as long as it has not written, and it is the only answer that waits;
nobody else touches the session. -/
structure Atomic (table : SessionID → SessionState) (t : ClientNet) : Prop where
  exclusive : ∀ before mid after c id, t.net.log = before ++ .read c id :: (mid ++ after) →
    (∀ v, Access.write c id v ∉ mid) → ∀ a ∈ mid, ¬ Locks.Foreign c id a
  current : ∀ c id state rest, t.owes c = some id → t.rsp c = state :: rest →
    rest = [] ∧ t.net.table.stateTable id = state
  unasked : ∀ c, t.owes c = none → t.rsp c = []

theorem readKey_iff (c : Client) (a : StateAccess) (k : SessionID) : StateNet.readKey c a = some k ↔ a = .read c k := by
  cases a with
  | read d k' => by_cases hd : c = d <;> simp [StateNet.readKey, hd, eq_comm]
  | write | force | peek => simp [StateNet.readKey]

theorem Good.atomic (h : Good table t) : Atomic table t := by
  refine ⟨fun before mid after c id hlog hw => ?_, fun c id state rest howes hrsp => ?_, fun c howes => ?_⟩
  · exact (Locks.legal_exclusive (hlog ▸ h.inv.legal) hw).1
  · obtain ⟨taken, htaken, hcount⟩ := h.asked c
    have hall := h.inv.count c
    rw [hcount, htaken, howes, hrsp, List.length_append, List.length_cons, Option.toList_some, List.length_singleton] at hall
    have hrest : rest = [] := List.length_eq_zero_iff.mp (by omega)
    refine ⟨hrest, ?_⟩
    -- the read is no longer queued, so the client holds the entry
    have howed := h.inv.owed c
    rw [h.owed, howes] at howed
    have hheld := (owed_of_writes howed (by omega)).2
    have hlocks := h.inv.locks
    have heq : t.net.table.held c = t.net.table.locks.held c := rfl
    rw [heq, hlocks] at hheld
    obtain ⟨xs, hxs⟩ := Locks.legal_answered (readKey_iff c) rfl h.inv.legal hheld
    rw [← hlocks, ← h.inv.answers, htaken, hrsp, hrest] at hxs
    exact (List.append_inj_right' hxs rfl |> List.singleton_inj.mp).symm
  · obtain ⟨taken, htaken, hcount⟩ := h.asked c
    have hall := h.inv.count c
    rw [hcount, htaken, howes, List.length_append] at hall
    exact List.length_eq_zero_iff.mp (by simp at hall; omega)

/-- However the receive engine, the application interface, the close timer, the stream interface and the table take
turns, both clients write what they make of the state that the table still holds. -/
theorem states_updated_atomically (table : SessionID → SessionState) (t : ClientNet)
    (h : Reach (step (b := b)) anyStep (init table) t) : Atomic table t :=
  (h.invariant good_init fun _ _ _ hu _ hs => good_step hu hs).atomic

/-- The application closes session 7 and has been told that it is established. -/
theorem states_updated_atomically_close :
    ∃ t, run (step (b := .sample)) (init fun _ => ESTABLISHED) [.tx 0 { closeConnReq := [7] }, .table] = some t ∧
      t.owes .tx = some 7 ∧ t.rsp .tx = [ESTABLISHED] ∧ Atomic (fun _ => ESTABLISHED) t := by
  have hrun : ∃ t, run (step (b := .sample)) (init fun _ => ESTABLISHED) [.tx 0 { closeConnReq := [7] }, .table] = some t ∧
      t.owes .tx = some 7 ∧ t.rsp .tx = [ESTABLISHED] := ⟨_, rfl, rfl, rfl⟩
  obtain ⟨t, ht, howes, hrsp⟩ := hrun
  exact ⟨t, ht, howes, hrsp, states_updated_atomically _ t (reach_of_run ht)⟩

end ClientNet

end FpgaNetworkStack.Toe
