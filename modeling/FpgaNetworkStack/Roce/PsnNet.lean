import FpgaNetworkStack.Roce.Responder
import FpgaNetworkStack.Roce.TxEngine

/-!
# Both users of the requester's numbers

`generate_ibh` takes numbers from `req_next_psn` for new requests, `rx_ibh_fsm` moves `req_old_unack` behind the
responses it accepts, and both reach the state table through FIFOs.  The network remembers which number each
new request was given.
-/

namespace FpgaNetworkStack.Roce

open Lib IbOpCode

structure PsnNet where
  lrhIn : LocalReqIn := {}
  mergerIn : MetaMergerIn := {}
  /-- The headers for `generate_ibh`, each with the event it was made from. -/
  metas : List (IbhMeta × Event) := []
  dstQps : List (BitVec 24) := []
  ibh : GenerateIbh := {}
  /-- The event `generate_ibh` works on. -/
  event : Event := default
  txRsp : List StateTableEntry := []
  table : Qpn → StateTableEntry := fun _ => {}
  tableIn : StateTableIn := {}
  rx : RxIbhFsm := {}
  packets : List Packet := []
  /-- The packet `rx_ibh_fsm` works on. -/
  packet : Packet := default
  rxRsp : List RxStateRsp := []
  /-- The new requests in the order of their numbers. -/
  given : List (Event × BitVec 24) := []

inductive PsnLabel where
  -- from outside
  | post (m : TxMeta)
  | retransmit (r : RetransEvent)
  | ackEvent (a : AckEvent)
  | readEvent (op : IbOpCode) (qpn : BitVec 24) (length : BitVec 32) (psn : BitVec 24)
  | connection (dstQp : BitVec 24)
  | arrive (p : Packet)
  | qpi (r : IfStateReq)
  -- calls of the processes
  | localReqHandler | metaMerger | generateIbh | stateTable | rxIbhFsm

namespace PsnNet

/-- The number `generate_ibh` gives in its next call. -/
def gives (t : PsnNet) : List (Event × BitVec 24) :=
  match t.ibh.giState, t.txRsp with
  | .GET_PSN, r :: _ => if t.ibh.metaReg.opCode = RC_ACK then [] else [(t.event, r.reqNextPsn)]
  | _, _ => []

/-- One call of a process, or one action of the environment; `qp_interface` does not connect `q` again. -/
def step (q : Qpn) (t : PsnNet) : PsnLabel → Option PsnNet
  | .post m => some { t with lrhIn := { t.lrhIn with sqMeta := t.lrhIn.sqMeta ++ [m] } }
  | .retransmit r => some { t with lrhIn := { t.lrhIn with retransEventFifo := t.lrhIn.retransEventFifo ++ [r] } }
  | .ackEvent a => some { t with mergerIn := { t.mergerIn with
      rxAckEventFifo := t.mergerIn.rxAckEventFifo ++ [a] } }
  | .readEvent opCode qpn length psn => some { t with mergerIn := { t.mergerIn with
      rxReadEvenFifo := t.mergerIn.rxReadEvenFifo ++ [{ opCode, qpn, length, psn, validPsn := true }] } }
  | .connection dstQp => some { t with dstQps := t.dstQps ++ [dstQp] }
  | .arrive p => some { t with packets := t.packets ++ [p] }
  | .qpi r =>
    if r.write && r.qpn == q then none
    else some { t with tableIn := { t.tableIn with
      qpi2stateTableUpdReq := t.tableIn.qpi2stateTableUpdReq ++ [r] } }
  | .localReqHandler =>
    let (lrhIn, out) := Roce.localReqHandler t.lrhIn
    some { t with
      lrhIn, mergerIn := { t.mergerIn with txAppMetaFifo := t.mergerIn.txAppMetaFifo ++ out.txLocalTxMeta } }
  | .metaMerger =>
    let (mergerIn, out) := Roce.metaMerger t.mergerIn
    some { t with mergerIn, metas := t.metas ++ out.txIbhMetaFifo.zip out.txExhMetaFifo }
  | .generateIbh =>
    let (ibh, i, out) := Roce.generateIbh t.ibh ⟨t.metas.map Prod.fst, t.dstQps, t.txRsp⟩
    let taken := t.metas.take (t.metas.length - i.metaIn.length)
    some { t with
      ibh
      metas := t.metas.drop taken.length
      event := (taken.head?.map Prod.snd).getD t.event
      dstQps := i.dstQpIn
      txRsp := i.stateTable2txIbhRsp
      tableIn := { t.tableIn with
        txIbh2stateTableUpdReq := t.tableIn.txIbh2stateTableUpdReq ++ out.txIbh2stateTableUpdReq }
      given := t.given ++ t.gives }
  | .stateTable =>
    let (table, tableIn, out) := Roce.stateTable t.table t.tableIn
    some { t with
      table, tableIn
      txRsp := t.txRsp ++ out.stateTable2txIbhRsp
      rxRsp := t.rxRsp ++ out.stateTable2rxIbhRsp }
  | .rxIbhFsm =>
    let (rx, i, out) := Roce.rxIbhFsm t.rx ⟨t.packets.map (·.ibh), t.packets.map (·.exh), t.rxRsp⟩
    let taken := t.packets.take (t.packets.length - i.metaIn.length)
    some { t with
      rx
      packets := t.packets.drop taken.length
      packet := taken.head?.getD t.packet
      rxRsp := i.stateTableRsp
      tableIn := { t.tableIn with
        rxIbh2stateTableUpdReq := t.tableIn.rxIbh2stateTableUpdReq ++ out.stateTableUpdReq } }

/-- `q` is connected with `e` as its next number; nothing was requested or received yet. -/
structure Connected (q : Qpn) (e : BitVec 24) (t : PsnNet) : Prop where
  next : (t.table q).reqNextPsn = e
  unack : (t.table q).reqOldUnack = e
  lrh : t.lrhIn = {}
  merger : t.mergerIn = {}
  metas : t.metas = []
  ibh : t.ibh.giState = .META
  rx : t.rx.fsmState = .LOAD
  packets : t.packets = []
  queues : t.tableIn.rxIbh2stateTableUpdReq = [] ∧ t.tableIn.txIbh2stateTableUpdReq = []
  answers : t.txRsp = [] ∧ t.rxRsp = []
  qpi : ∀ r ∈ t.tableIn.qpi2stateTableUpdReq, r.write = true → r.qpn ≠ q
  given : t.given = []

/-! ## What a call does -/

variable {q : Qpn} {t u : PsnNet}

/-- The queue pair `generate_ibh` works on. -/
def workQp (t : PsnNet) : Qpn := t.ibh.metaReg.destQp.setWidth 16

/-- `generate_ibh` takes up a header, or it gives a number, or it waits. -/
theorem generateIbh_cases (hs : t.step q .generateIbh = some u) :
    (∃ m ev ms dst dsts, t.ibh.giState = .META ∧ t.metas = (m, ev) :: ms ∧ t.dstQps = dst :: dsts ∧
      u = { t with
        ibh := u.ibh, metas := ms, event := ev, dstQps := dsts
        tableIn := { t.tableIn with txIbh2stateTableUpdReq := t.tableIn.txIbh2stateTableUpdReq ++
          if m.validPSN then [] else [{ qpn := m.destQp.setWidth 16, write := false }] } } ∧
      u.ibh.metaReg = { m with partitionKey := 0xFFFF } ∧
      u.ibh.giState = if m.validPSN then .META else .GET_PSN) ∨
    (∃ r rs, t.ibh.giState = .GET_PSN ∧ t.txRsp = r :: rs ∧
      u = { t with
        ibh := u.ibh, txRsp := rs
        tableIn := { t.tableIn with txIbh2stateTableUpdReq := t.tableIn.txIbh2stateTableUpdReq ++
          if t.ibh.metaReg.opCode = RC_ACK then [] else
            [{ qpn := t.workQp, psn := r.reqNextPsn + t.ibh.metaReg.numPkg.setWidth 24, write := true }] }
        given := t.given ++ if t.ibh.metaReg.opCode = RC_ACK then [] else [(t.event, r.reqNextPsn)] } ∧
      u.ibh.metaReg = t.ibh.metaReg ∧ u.ibh.giState = .META) ∨
    u = t := by
  simp only [step, Option.some.injEq] at hs
  cases hst : t.ibh.giState with
  | META =>
    cases hm : t.metas with
    | nil =>
      right; right
      simp [Roce.generateIbh, hst, hm, gives] at hs
      rw [← hs, ← hm]
    | cons x ms =>
      cases hd : t.dstQps with
      | nil =>
        right; right
        simp [Roce.generateIbh, hst, hm, hd, gives] at hs
        rw [← hs, ← hm, ← hd]
      | cons dst dsts =>
        left
        refine ⟨x.1, x.2, ms, dst, dsts, rfl, rfl, rfl, ?_⟩
        cases hv : x.1.validPSN with
        | true | false =>
          simp [Roce.generateIbh, hst, hm, hd, hv, gives] at hs
          rw [← hs]
          simp
  | GET_PSN =>
    cases hr : t.txRsp with
    | nil =>
      right; right
      simp [Roce.generateIbh, hst, hr, gives] at hs
      rw [← hs, ← hr]
    | cons r rs =>
      right; left
      refine ⟨r, rs, rfl, rfl, ?_⟩
      by_cases hop : t.ibh.metaReg.opCode = RC_ACK
      · simp [Roce.generateIbh, hst, hr, gives, getPsn, hop] at hs
        rw [← hs]
        simp [hop]
      · simp [Roce.generateIbh, hst, hr, gives, getPsn, hop] at hs
        rw [← hs]
        simp [hop, workQp]

/-- `rx_ibh_fsm` takes up a packet, or it decides on one, or it waits. -/
theorem rxIbhFsm_cases (hs : t.step q .rxIbhFsm = some u) :
    (∃ p ps, t.rx.fsmState = .LOAD ∧ t.packets = p :: ps ∧
      u = { t with
        rx := u.rx, packets := ps, packet := p
        tableIn := { t.tableIn with rxIbh2stateTableUpdReq := t.tableIn.rxIbh2stateTableUpdReq ++
          [.read p.ibh.destQp (checkIfResponse p.ibh.opCode)] } } ∧
      u.rx.fsmState = .PROCESS ∧ u.rx.metaReg = p.ibh ∧ u.rx.emeta = p.exh ∧
      u.rx.isResponse = checkIfResponse p.ibh.opCode) ∨
    (∃ r rs, t.rx.fsmState = .PROCESS ∧ t.rxRsp = r :: rs ∧
      u = { t with
        rx := u.rx, rxRsp := rs
        tableIn := { t.tableIn with rxIbh2stateTableUpdReq := t.tableIn.rxIbh2stateTableUpdReq ++
          (process t.rx.metaReg t.rx.emeta t.rx.isResponse r).stateTableUpdReq } } ∧
      u.rx.fsmState = .LOAD) ∨
    u = t := by
  simp only [step, Option.some.injEq] at hs
  cases hst : t.rx.fsmState with
  | LOAD =>
    cases hp : t.packets with
    | nil =>
      right; right
      simp [Roce.rxIbhFsm, hst, hp] at hs
      rw [← hs, ← hp]
    | cons p ps =>
      left
      refine ⟨p, ps, rfl, rfl, ?_⟩
      simp [Roce.rxIbhFsm, hst, hp] at hs
      rw [← hs]
      simp
  | PROCESS =>
    cases hr : t.rxRsp with
    | nil =>
      right; right
      simp [Roce.rxIbhFsm, hst, hr] at hs
      rw [← hs, ← hr]
    | cons r rs =>
      right; left
      refine ⟨r, rs, rfl, rfl, ?_⟩
      simp [Roce.rxIbhFsm, hst, hr] at hs
      rw [← hs]
      simp

/-- The state table serves one request of one client, or none is there. -/
theorem stateTable_cases (hs : t.step q .stateTable = some u) :
    (∃ r rest, t.tableIn.rxIbh2stateTableUpdReq = r :: rest ∧
      u = { t with
        table := if r.write then Function.update t.table r.qpn ((t.table r.qpn).rxUpdate r) else t.table
        tableIn := { t.tableIn with rxIbh2stateTableUpdReq := rest }
        rxRsp := t.rxRsp ++ if r.write then [] else [(t.table r.qpn).reply r.isResponse] }) ∨
    (∃ r rest, t.tableIn.txIbh2stateTableUpdReq = r :: rest ∧
      u = { t with
        table := if r.write then Function.update t.table r.qpn { t.table r.qpn with reqNextPsn := r.psn }
          else t.table
        tableIn := { t.tableIn with txIbh2stateTableUpdReq := rest }
        txRsp := t.txRsp ++ if r.write then [] else [t.table r.qpn] }) ∨
    (∃ r rest, t.tableIn.qpi2stateTableUpdReq = r :: rest ∧
      u = { t with
        table := if r.write then Function.update t.table r.qpn (.connect r) else t.table
        tableIn := { t.tableIn with qpi2stateTableUpdReq := rest } }) ∨
    u = t := by
  simp only [step, Option.some.injEq] at hs
  unfold Roce.stateTable at hs
  split at hs
  · next r rest hrx =>
      left
      refine ⟨r, rest, hrx, ?_⟩
      rw [← hs]
      cases r.write <;> simp
  · next r rest hrx htx =>
      right; left
      refine ⟨r, rest, htx, ?_⟩
      rw [← hs]
      cases r.write <;> simp
  · next r rest hrx htx hqpi =>
      right; right; left
      refine ⟨r, rest, hqpi, ?_⟩
      rw [← hs]
      cases r.write <;> simp
  · right; right; right
    rw [← hs]
    simp

/-! ## The transmit side as a client of the table -/

/-- `req_next_psn` of `q` after a request of `generate_ibh`. -/
def nextAfter (q : Qpn) (next : BitVec 24) (r : TxStateReq) : BitVec 24 :=
  if r.write && r.qpn == q then r.psn else next

/-- `req_next_psn` of `q` once the requests on their way are served. -/
def nextPsn (t : PsnNet) (q : Qpn) : BitVec 24 :=
  t.tableIn.txIbh2stateTableUpdReq.foldl (nextAfter q) (t.table q).reqNextPsn

structure TxInv (q : Qpn) (t : PsnNet) : Prop where
  client : TableClient TxStateReq.write (t.ibh.giState == .GET_PSN) t.tableIn.txIbh2stateTableUpdReq t.txRsp
  reads : ∀ r ∈ t.tableIn.txIbh2stateTableUpdReq, r.write = false → r.qpn = t.workQp
  answer : ∀ r ∈ t.txRsp, t.workQp = q → r.reqNextPsn = t.nextPsn q
  qpi : ∀ r ∈ t.tableIn.qpi2stateTableUpdReq, r.write = true → r.qpn ≠ q

theorem TxInv.other (h : TxInv q t) (hibh : u.ibh = t.ibh) (hrsp : u.txRsp = t.txRsp)
    (hreq : u.tableIn.txIbh2stateTableUpdReq = t.tableIn.txIbh2stateTableUpdReq)
    (hnext : (u.table q).reqNextPsn = (t.table q).reqNextPsn)
    (hqpi : ∀ r ∈ u.tableIn.qpi2stateTableUpdReq, r.write = true → r.qpn ≠ q) :
    TxInv q u ∧ u.nextPsn q = t.nextPsn q := by
  have hpsn : u.nextPsn q = t.nextPsn q := by rw [nextPsn, nextPsn, hreq, hnext]
  refine ⟨⟨?_, ?_, ?_, hqpi⟩, hpsn⟩
  · rw [hibh, hreq, hrsp]
    exact h.client
  · rw [hreq, workQp, hibh]
    exact h.reads
  · rw [hrsp, hpsn, workQp, hibh]
    exact h.answer

theorem foldl_nextAfter_snoc (rs : List TxStateReq) (next : BitVec 24) (r : TxStateReq) :
    (rs ++ [r]).foldl (nextAfter q) next = nextAfter q (rs.foldl (nextAfter q) next) r := by
  rw [List.foldl_append]
  rfl

/-- The number a request of `q` gets is the next one, and the next request gets the number behind it. -/
theorem TxInv.generateIbh (h : TxInv q t) (hs : t.step q .generateIbh = some u) :
    TxInv q u ∧ ((u.given = t.given ∧ u.nextPsn q = t.nextPsn q) ∨
      t.ibh.giState = .GET_PSN ∧ t.ibh.metaReg.opCode ≠ RC_ACK ∧ ∃ r rs, t.txRsp = r :: rs ∧
        u.given = t.given ++ [(t.event, r.reqNextPsn)] ∧
        (t.workQp = q → r.reqNextPsn = t.nextPsn q) ∧
        u.nextPsn q = if t.workQp = q then r.reqNextPsn + t.ibh.metaReg.numPkg.setWidth 24 else t.nextPsn q) := by
  have hclient := h.client
  rcases generateIbh_cases hs with ⟨m, ev, ms, dst, dsts, hst, hm, hd, hu, hreg, hgi⟩ |
    ⟨r, rs, hst, hr, hu, hreg, hgi⟩ | rfl
  · rw [hst] at hclient
    have hnil : t.txRsp = [] := hclient.rsps_eq_nil
    generalize u.ibh = ibh at hu hreg hgi
    cases hv : m.validPSN with
    | true =>
      simp only [hv, if_true, List.append_nil] at hu hgi
      subst hu
      refine ⟨{ h with client := ?_, reads := ?_, answer := ?_ }, .inl ⟨rfl, rfl⟩⟩
      · rw [hgi]
        exact hclient
      · intro r hr hw
        rw [hclient.writes r hr] at hw
        cases hw
      · rw [hnil]
        exact fun r hr => (List.not_mem_nil hr).elim
    | false =>
      simp only [hv, Bool.false_eq_true, if_false] at hu hgi
      subst hu
      refine ⟨{ h with client := ?_, reads := ?_, answer := ?_ }, .inl ⟨rfl, ?_⟩⟩
      · rw [hgi]
        exact hclient.ask rfl
      · intro r hr hw
        rcases List.mem_append.mp hr with hr | hr
        · rw [hclient.writes r hr] at hw
          cases hw
        · rw [List.mem_singleton.mp hr, workQp, hreg]
      · rw [hnil]
        exact fun r hr => (List.not_mem_nil hr).elim
      · rw [nextPsn, foldl_nextAfter_snoc]
        rfl
  · rw [hr] at hclient
    obtain ⟨-, hreqs, hrs⟩ := hclient.take
    have hans := h.answer r (by rw [hr]; exact List.mem_cons_self)
    generalize u.ibh = ibh at hu hreg hgi
    by_cases hop : t.ibh.metaReg.opCode = RC_ACK
    · simp only [hop, if_true, List.append_nil] at hu
      subst hu
      refine ⟨{ h with client := ?_, reads := ?_, answer := ?_ }, .inl ⟨rfl, rfl⟩⟩
      · rw [hgi, hreqs, hrs]
        exact TableClient.quiet fun r hr => (List.not_mem_nil hr).elim
      · rw [hreqs]
        exact fun r hr => (List.not_mem_nil hr).elim
      · rw [hrs]
        exact fun r hr => (List.not_mem_nil hr).elim
    · simp only [hop, if_false, hreqs, List.nil_append] at hu
      subst hu
      refine ⟨{ h with client := ?_, reads := ?_, answer := ?_ }, .inr ⟨hst, hop, r, rs, hr, rfl, hans, ?_⟩⟩
      · rw [hgi, hrs]
        exact TableClient.quiet fun x hx => by rw [List.mem_singleton.mp hx]
      · intro x hx hw
        rw [List.mem_singleton.mp hx] at hw
        cases hw
      · rw [hrs]
        exact fun r hr => (List.not_mem_nil hr).elim
      · rw [nextPsn, nextPsn, hreqs]
        simp [nextAfter]
  · exact ⟨h, .inl ⟨rfl, rfl⟩⟩

theorem update_reqNextPsn (table : Qpn → StateTableEntry) (k : Qpn) {s : StateTableEntry}
    (h : s.reqNextPsn = (table k).reqNextPsn) :
    (Function.update table k s q).reqNextPsn = (table q).reqNextPsn := by
  by_cases hq : q = k
  · subst hq
    rw [Function.update_self, h]
  · rw [Function.update_of_ne hq]

theorem rxUpdate_reqNextPsn (s : StateTableEntry) (r : RxStateReq) : (s.rxUpdate r).reqNextPsn = s.reqNextPsn := by
  unfold StateTableEntry.rxUpdate
  split <;> rfl

theorem TxInv.stateTable (h : TxInv q t) (hs : t.step q .stateTable = some u) :
    TxInv q u ∧ u.nextPsn q = t.nextPsn q := by
  rcases stateTable_cases hs with ⟨r, rest, hr, hu⟩ | ⟨r, rest, hr, hu⟩ | ⟨r, rest, hr, hu⟩ | rfl
  · refine h.other (by rw [hu]) (by rw [hu]) (by rw [hu]) ?_ (by rw [hu]; exact h.qpi)
    rw [hu]
    cases r.write with
    | true => exact update_reqNextPsn t.table r.qpn (rxUpdate_reqNextPsn _ r)
    | false => rfl
  · have hclient := h.client
    rw [hr] at hclient
    cases hw : r.write with
    | true =>
      simp only [hw, if_true, List.append_nil] at hu
      have hpsn : u.nextPsn q = t.nextPsn q := by
        rw [nextPsn, nextPsn, hr, List.foldl_cons, hu]
        congr 1
        simp only [hw, nextAfter, Bool.true_and]
        by_cases hq : q = r.qpn
        · subst hq
          simp
        · have hne : (r.qpn == q) = false := by simpa using fun hc => hq hc.symm
          simp only [Function.update_of_ne hq, hne, Bool.false_eq_true, if_false]
      subst hu
      refine ⟨{ h with client := hclient.serve_write hw, reads := ?_, answer := hpsn ▸ h.answer }, hpsn⟩
      exact fun x hx => h.reads x (by rw [hr]; exact List.mem_cons_of_mem _ hx)
    | false =>
      obtain ⟨hbusy, hrest, hnil⟩ := hclient.serve_read hw
      have hqp := h.reads r (by rw [hr]; exact List.mem_cons_self) hw
      simp only [hw, Bool.false_eq_true, if_false, hrest, hnil, List.nil_append] at hu
      subst hu
      refine ⟨{ h with client := ?_, reads := ?_, answer := ?_ }, ?_⟩
      · rw [hbusy]
        exact TableClient.answered _
      · exact fun x hx => (List.not_mem_nil hx).elim
      · intro x hx hq
        rw [List.mem_singleton.mp hx, hqp, show t.workQp = q from hq]
        rfl
      · rw [nextPsn, nextPsn, hr, hrest, List.foldl_cons, nextAfter, hw]
        rfl
  · have hne := h.qpi r (by rw [hr]; exact List.mem_cons_self)
    refine h.other (by rw [hu]) (by rw [hu]) (by rw [hu]) ?_ ?_
    · rw [hu]
      cases hw : r.write with
      | true =>
        simp only [if_true]
        rw [Function.update_of_ne (hne hw).symm]
      | false => rfl
    · rw [hu]
      exact fun x hx => h.qpi x (by rw [hr]; exact List.mem_cons_of_mem _ hx)
  · exact ⟨h, rfl⟩

theorem TxInv.quiet {l : PsnLabel} (h : TxInv q t) (hl : l ≠ .generateIbh) (hs : t.step q l = some u) :
    (TxInv q u ∧ u.nextPsn q = t.nextPsn q) ∧ u.given = t.given := by
  cases l with
  | generateIbh => exact absurd rfl hl
  | stateTable =>
    refine ⟨h.stateTable hs, ?_⟩
    cases hs
    rfl
  | qpi r =>
    simp only [step] at hs
    split at hs
    · cases hs
    · next hr =>
        cases hs
        refine ⟨h.other rfl rfl rfl rfl ?_, rfl⟩
        intro x hx hw hq
        rcases List.mem_append.mp hx with hx | hx
        · exact h.qpi x hx hw hq
        · rw [List.mem_singleton.mp hx] at hw hq
          exact hr (by simp [hw, hq])
  | rxIbhFsm | post | retransmit | ackEvent | readEvent | connection | arrive | localReqHandler | metaMerger =>
    cases hs
    exact ⟨h.other rfl rfl rfl rfl h.qpi, rfl⟩

theorem TxInv.next {l : PsnLabel} (h : TxInv q t) (hs : t.step q l = some u) : TxInv q u := by
  by_cases hl : l = .generateIbh
  · rw [hl] at hs
    exact (h.generateIbh hs).1
  · exact (h.quiet hl hs).1.1

theorem Connected.txInv {e : BitVec 24} (h : Connected q e t) : TxInv q t := by
  refine ⟨?_, ?_, ?_, h.qpi⟩
  · rw [h.ibh, h.queues.2, h.answers.1]
    exact TableClient.quiet fun r hr => (List.not_mem_nil hr).elim
  · rw [h.queues.2]
    exact fun r hr => (List.not_mem_nil hr).elim
  · rw [h.answers.1]
    exact fun r hr => (List.not_mem_nil hr).elim

/-! ## A connection -/

/-- Queue pair 3 is connected; its next number is the last one before the end of the number space. -/
def connected : PsnNet := { table := Function.update (fun _ => {}) 3 (.connect ⟨3, 0xFFFFFF, 100, true⟩) }

theorem connected_connected : Connected 3 0xFFFFFF connected := by
  refine ⟨rfl, rfl, rfl, rfl, rfl, rfl, rfl, rfl, ⟨rfl, rfl⟩, ⟨rfl, rfl⟩, ?_, rfl⟩
  exact fun r hr => (List.not_mem_nil hr).elim

/-- A request of the application for queue pair 3, with nothing but an opcode and a length. -/
def txRequest (opCode : IbOpCode) (length : BitVec 32) : TxMeta :=
  { opCode, qpn := 3, params := length.setWidth 192 <<< 128 }

def postRequest (opCode : IbOpCode) (length : BitVec 32) : List PsnLabel :=
  [.post (txRequest opCode length), .localReqHandler, .metaMerger, .connection 3, .generateIbh, .stateTable,
    .generateIbh, .stateTable]

end PsnNet

end FpgaNetworkStack.Roce
