import FpgaNetworkStack.Roce.AckOrder
import FpgaNetworkStack.Roce.RetransNet
import FpgaNetworkStack.Roce.RxEngine

/-!
# Acknowledgements release requests

The requester: requests get their numbers in `generate_ibh` and are stored by the retransmitter, responses are
judged by `rx_ibh_fsm`, and both sides meet in the state table.  `process_retransmissions` pops the oldest
request of a list without a look at the acknowledged number.
-/

namespace FpgaNetworkStack.Roce

open Lib IbOpCode

structure RequesterNet where
  lrhIn : LocalReqIn := {}
  mergerIn : MetaMergerIn := {}
  ibh : GenerateIbh := {}
  ibhIn : GenerateIbhIn := {}
  insertMeta : List RetransMeta := []
  insertAddrLen : List RetransAddrLen := []
  table : Qpn → StateTableEntry := fun _ => {}
  tableIn : StateTableIn := {}
  rx : RxIbhFsm := {}
  rxIn : RxIbhFsmIn := {}
  retrans : RetransNet := {}

inductive RequesterLabel where
  -- from outside: requests, received packets, lost packets, what the responder has to send
  | post (m : TxMeta)
  | packet (m : IbhMeta) (e : ExhMeta)
  | nak (r : Retransmission)
  | timer (r : Retransmission)
  | ackEvent (a : AckEvent)
  | readEvent (op : IbOpCode) (qpn : BitVec 24) (length : BitVec 32) (psn : BitVec 24)
  | connection (dstQp : BitVec 24)
  -- calls of the processes
  | localReqHandler | metaMerger | generateIbh | mergeRetransRequest
  | stateTable | rxIbhFsm
  | processRetransmissions | pointerTable | metaTable | freelist

namespace RequesterNet

/-- After the connections were made: any number may come next. -/
def start (table : Qpn → StateTableEntry) : RequesterNet := { table }

def step (t : RequesterNet) : RequesterLabel → Option RequesterNet
  | .post m => some { t with lrhIn := { t.lrhIn with sqMeta := t.lrhIn.sqMeta ++ [m] } }
  | .packet m e => some { t with rxIn := { t.rxIn with
      metaIn := t.rxIn.metaIn ++ [m], exhMetaFifo := t.rxIn.exhMetaFifo ++ [e] } }
  | .nak r => (t.retrans.step (.nak r)).map fun retrans => { t with retrans }
  | .timer r => (t.retrans.step (.timer r)).map fun retrans => { t with retrans }
  | .ackEvent a => some { t with mergerIn := { t.mergerIn with
      rxAckEventFifo := t.mergerIn.rxAckEventFifo ++ [a] } }
  | .readEvent opCode qpn length psn => some { t with mergerIn := { t.mergerIn with
      rxReadEvenFifo := t.mergerIn.rxReadEvenFifo ++ [{ opCode, qpn, length, psn, validPsn := true }] } }
  | .connection dstQp => some { t with ibhIn := { t.ibhIn with dstQpIn := t.ibhIn.dstQpIn ++ [dstQp] } }
  | .localReqHandler =>
    let (lrhIn, out) := Roce.localReqHandler t.lrhIn
    some { t with
      lrhIn
      mergerIn := { t.mergerIn with txAppMetaFifo := t.mergerIn.txAppMetaFifo ++ out.txLocalTxMeta }
      insertAddrLen := t.insertAddrLen ++ out.tx2retransInsertAddrLen }
  | .metaMerger =>
    let (mergerIn, out) := Roce.metaMerger t.mergerIn
    some { t with mergerIn, ibhIn := { t.ibhIn with metaIn := t.ibhIn.metaIn ++ out.txIbhMetaFifo } }
  | .generateIbh =>
    let (ibh, ibhIn, out) := Roce.generateIbh t.ibh t.ibhIn
    some { t with
      ibh, ibhIn
      insertMeta := t.insertMeta ++ out.tx2retransInsertMeta
      tableIn := { t.tableIn with
        txIbh2stateTableUpdReq := t.tableIn.txIbh2stateTableUpdReq ++ out.txIbh2stateTableUpdReq } }
  | .mergeRetransRequest =>
    let (insertMeta, insertAddrLen, out) := Roce.mergeRetransRequest t.insertMeta t.insertAddrLen
    some { t with
      insertMeta, insertAddrLen
      retrans := { t.retrans with inp := { t.retrans.inp with
        tx2retransInsertRequest := t.retrans.inp.tx2retransInsertRequest ++ out } } }
  | .stateTable =>
    let (table, tableIn, out) := Roce.stateTable t.table t.tableIn
    some { t with
      table, tableIn
      ibhIn := { t.ibhIn with
        stateTable2txIbhRsp := t.ibhIn.stateTable2txIbhRsp ++ out.stateTable2txIbhRsp }
      rxIn := { t.rxIn with stateTableRsp := t.rxIn.stateTableRsp ++ out.stateTable2rxIbhRsp } }
  | .rxIbhFsm =>
    let (rx, rxIn, out) := Roce.rxIbhFsm t.rx t.rxIn
    some { t with
      rx, rxIn
      tableIn := { t.tableIn with
        rxIbh2stateTableUpdReq := t.tableIn.rxIbh2stateTableUpdReq ++ out.stateTableUpdReq }
      retrans := { t.retrans with inp := { t.retrans.inp with
        rx2retransUpd := t.retrans.inp.rx2retransUpd ++ out.rx2retransUpd } } }
  | .processRetransmissions =>
    let (retrans, out) := t.retrans.callProcess
    some { t with
      retrans
      lrhIn := { t.lrhIn with retransEventFifo := t.lrhIn.retransEventFifo ++ out.retrans2event } }
  | .pointerTable => (t.retrans.step .pointerTable).map fun retrans => { t with retrans }
  | .metaTable => (t.retrans.step .metaTable).map fun retrans => { t with retrans }
  | .freelist => (t.retrans.step .freelist).map fun retrans => { t with retrans }

/-- The steps under which acknowledgements release the right requests: posted requests are of a kind that
is passed on, and a response that is taken up acknowledges the oldest request of its list and no other. -/
def acksInTurn (t : RequesterNet) : RequesterLabel → Bool
  | .post m => forwarded m.opCode
  | .processRetransmissions =>
    match t.retrans.proc.rtState, t.retrans.inp.rx2retransUpd with
    | .MAIN, u :: _ => acksOldest u (listRun t.retrans.taken u.qpn)
    | _, _ => true
  | _ => true

/-! ## Invariant -/

/-- Requests with a number on their way to the retransmitter. -/
def numbered (t : RequesterNet) : List RetransEntry :=
  t.retrans.inp.tx2retransInsertRequest ++ List.zipWith RetransEntry.merge t.insertMeta t.insertAddrLen

/-- The requests of a queue pair that have a number. -/
def requests (t : RequesterNet) (q : Qpn) : List RetransEntry :=
  listRun t.retrans.taken q ++ t.numbered.filter fun e => e.qpn == q

def needsNumber (m : IbhMeta) : Option (IbOpCode × BitVec 22) :=
  if !m.validPSN && m.opCode != RC_ACK then some (m.opCode, m.numPkg) else none

/-- Requests without a number, with the numbers they will take. -/
def unnumbered (t : RequesterNet) : List (IbOpCode × BitVec 22) :=
  (if t.ibh.giState = .GET_PSN then [t.ibh.metaReg] else []).filterMap needsNumber ++
    t.ibhIn.metaIn.filterMap needsNumber ++
    (t.mergerIn.txAppMetaFifo.map Event.appIbhMeta).filterMap needsNumber

/-- The next number of a queue pair once the requests to the state table are served. -/
def nextPsn (t : RequesterNet) (q : Qpn) : BitVec 24 :=
  (t.tableIn.txIbh2stateTableUpdReq.foldl
    (fun next r => if r.write then Function.update next r.qpn r.psn else next)
    fun q => (t.table q).reqNextPsn) q

structure Inv (t : RequesterNet) : Prop where
  chain : ∀ q, Consecutive (t.requests q) (t.nextPsn q)
  -- addresses and lengths wait in the order of the requests
  pairs : List.Forall₂ (fun w a => w.2 = (RetransEntry.merge ⟨0, 0, w.1⟩ a).numPkg) t.unnumbered
    (t.insertAddrLen.drop t.insertMeta.length)
  enough : t.insertMeta.length ≤ t.insertAddrLen.length
  posted : ∀ m ∈ t.lrhIn.sqMeta, forwarded m.opCode = true
  responses : ∀ ev ∈ t.mergerIn.rxReadEvenFifo, ev.validPsn = true
  client : TableClient TxStateReq.write (t.ibh.giState == .GET_PSN) t.tableIn.txIbh2stateTableUpdReq
    t.ibhIn.stateTable2txIbhRsp
  reads : ∀ r ∈ t.tableIn.txIbh2stateTableUpdReq, r.write = false → r.qpn = t.ibh.metaReg.destQp.setWidth 16
  answer : ∀ r ∈ t.ibhIn.stateTable2txIbhRsp, r.reqNextPsn = t.nextPsn (t.ibh.metaReg.destQp.setWidth 16)
  waiting : t.ibh.giState = .GET_PSN → t.ibh.metaReg.validPSN = false
  connected : t.tableIn.qpi2stateTableUpdReq = []
  released : ∀ ops u rest, t.retrans.taken = ops ++ .update u :: rest →
    Released u.latestAckedReq (listRun ops u.qpn) (listRun (ops ++ [.update u]) u.qpn)

variable {t u : RequesterNet}

section Lists

variable {α β γ : Type*} {f : α → β → γ}

-- the shorter list decides
theorem zipWith_append_right {as : List α} {bs bs' : List β} (h : as.length ≤ bs.length) :
    List.zipWith f as (bs ++ bs') = List.zipWith f as bs := by
  induction as generalizing bs with
  | nil => rfl
  | cons a as ih =>
    cases bs with
    | nil => simp at h
    | cons b bs =>
      simp only [List.cons_append, List.zipWith_cons_cons]
      rw [ih (by simpa using h)]

theorem zipWith_snoc_left {as : List α} {bs : List β} {a : α} {b : β} {rest : List β}
    (h : bs.drop as.length = b :: rest) : List.zipWith f (as ++ [a]) bs = List.zipWith f as bs ++ [f a b] := by
  induction as generalizing bs with
  | nil =>
    rw [List.length_nil, List.drop_zero] at h
    rw [h]
    rfl
  | cons a as ih =>
    cases bs with
    | nil => simp at h
    | cons b bs =>
      simp only [List.cons_append, List.zipWith_cons_cons]
      rw [ih (by simpa using h)]

end Lists

theorem needsNumber_of_valid {m : IbhMeta} (h : m.validPSN = true) : needsNumber m = none := by
  simp [needsNumber, h]

theorem forwarded_ne_ack {op : IbOpCode} (h : forwarded op = true) : op ≠ RC_ACK := by
  rintro rfl
  cases h

theorem Inv.localReqHandler (h : Inv t) (hs : t.step .localReqHandler = some u) : Inv u := by
  simp only [step, Option.some.injEq] at hs
  cases hrev : t.lrhIn.retransEventFifo with
  | cons rev rest =>
    simp only [Roce.localReqHandler, hrev, List.append_nil] at hs
    rw [← hs]
    -- a retransmission keeps its number
    refine { h with pairs := ?_ }
    simpa [unnumbered, Event.appIbhMeta, Event.ibhMeta, needsNumber] using h.pairs
  | nil =>
    cases hsq : t.lrhIn.sqMeta with
    | nil =>
      simp only [Roce.localReqHandler, hrev, hsq, List.append_nil] at hs
      rw [← hs]
      exact h
    | cons m rest =>
      have hposted := h.posted
      rw [hsq, List.forall_mem_cons] at hposted
      obtain ⟨hfwd, hposted⟩ := hposted
      simp only [Roce.localReqHandler, hrev, hsq, hfwd, if_true] at hs
      have hun : u.unnumbered = t.unnumbered ++ [(m.opCode, m.event.numPkg)] := by
        rw [← hs]
        have hne : m.opCode ≠ RC_ACK := forwarded_ne_ack hfwd
        simp [unnumbered, Event.appIbhMeta, TxMeta.event, needsNumber, hne]
      rw [← hs] at hun ⊢
      refine { h with chain := fun q => ?_, pairs := ?_, enough := ?_, posted := hposted }
      · rw [requests, numbered, zipWith_append_right h.enough]
        exact h.chain q
      · rw [hun, List.drop_append_of_le_length h.enough]
        exact List.rel_append h.pairs (.cons rfl .nil)
      · rw [List.length_append]
        exact Nat.le_add_right_of_le h.enough

theorem Inv.metaMerger (h : Inv t) (hs : t.step .metaMerger = some u) : Inv u := by
  simp only [step, Option.some.injEq] at hs
  have hkeep (hun : u.unnumbered = t.unnumbered)
      (hsub : ∀ ev ∈ u.mergerIn.rxReadEvenFifo, ev ∈ t.mergerIn.rxReadEvenFifo) : Inv u := by
    rw [← hs] at hun hsub ⊢
    exact { h with pairs := hun ▸ h.pairs, responses := fun ev hev => h.responses ev (hsub ev hev) }
  rw [← hs] at hkeep ⊢
  cases hack : t.mergerIn.rxAckEventFifo with
  | cons aev rest => exact hkeep (by simp [Roce.metaMerger, hack, unnumbered, needsNumber]) (by simp [Roce.metaMerger, hack])
  | nil =>
    cases hread : t.mergerIn.rxReadEvenFifo with
    | cons ev rest =>
      have hvalid := h.responses ev (by rw [hread]; exact List.mem_cons_self)
      apply hkeep
      · simp [Roce.metaMerger, hack, hread, unnumbered, needsNumber, Event.ibhMeta, hvalid]
      · simp only [Roce.metaMerger, hack, hread]
        exact fun ev' hev' => List.mem_cons_of_mem _ hev'
    | nil =>
      cases happ : t.mergerIn.txAppMetaFifo with
      | cons ev rest =>
        apply hkeep
        · simp only [Roce.metaMerger, hack, hread, happ, unnumbered, List.filterMap_append, List.map_cons,
            List.append_assoc]
          rw [← List.filterMap_append (l := [ev.appIbhMeta])]
          rfl
        · simp [Roce.metaMerger, hack, hread, happ]
      | nil =>
        apply hkeep
        · simp [Roce.metaMerger, hack, hread, happ, unnumbered]
        · simp [Roce.metaMerger, hack, hread, happ]

theorem nextPsn_snoc {r : TxStateReq} (q : Qpn)
    (hreq : u.tableIn.txIbh2stateTableUpdReq = t.tableIn.txIbh2stateTableUpdReq ++ [r])
    (htable : u.table = t.table) :
    u.nextPsn q = if r.write = true ∧ q = r.qpn then r.psn else t.nextPsn q := by
  unfold nextPsn
  rw [hreq, htable, List.foldl_append]
  simp only [List.foldl_cons, List.foldl_nil]
  cases hw : r.write with
  | false => simp
  | true => simp [Function.update_apply]

theorem Inv.takeMeta {m : IbhMeta} {ms : List IbhMeta} {dsts : List (BitVec 24)} {ibh : GenerateIbh}
    {reqs : List TxStateReq} (h : Inv t) (hst : t.ibh.giState = .META) (hmeta : t.ibhIn.metaIn = m :: ms)
    (hibh : ibh.metaReg = { m with partitionKey := 0xFFFF }) (hgi : ibh.giState = if m.validPSN then .META else .GET_PSN)
    (htx : reqs = t.tableIn.txIbh2stateTableUpdReq ++
      if m.validPSN then [] else [{ qpn := m.destQp.setWidth 16, write := false }])
    (hu : u = { t with
      ibh
      ibhIn := { t.ibhIn with metaIn := ms, dstQpIn := dsts }
      tableIn := { t.tableIn with txIbh2stateTableUpdReq := reqs } }) : Inv u := by
  have hclient := h.client
  rw [hst] at hclient
  have hnil : t.ibhIn.stateTable2txIbhRsp = [] := hclient.rsps_eq_nil
  have hnext (q : Qpn) : u.nextPsn q = t.nextPsn q := by
    simp only [hu, nextPsn, htx]
    cases m.validPSN <;> simp
  have hun : u.unnumbered = t.unnumbered := by
    subst hu
    have hsame : needsNumber ibh.metaReg = needsNumber m := by rw [hibh]; rfl
    simp only [unnumbered, hgi, hst, hmeta]
    cases hv : m.validPSN with
    | true => simp [needsNumber_of_valid hv]
    | false =>
      simp only [Bool.false_eq_true, if_false, if_true, reduceCtorEq, List.filterMap_nil, List.nil_append]
      rw [List.filterMap_cons, List.filterMap_nil, hsame, List.filterMap_cons]
      cases needsNumber m <;> rfl
  subst hu
  refine { h with
    chain := fun q => hnext q ▸ h.chain q, pairs := hun ▸ h.pairs, client := ?_, reads := ?_, answer := ?_
    waiting := ?_ }
  · rw [hgi, htx]
    cases hv : m.validPSN with
    | true => simpa using hclient
    | false => exact hclient.ask rfl
  · intro r hr hw
    rw [htx] at hr
    rcases List.mem_append.mp hr with hr | hr
    · rw [hclient.writes r hr] at hw
      cases hw
    · cases hv : m.validPSN <;> rw [hv] at hr
      · rw [List.mem_singleton.mp hr, hibh]
      · cases hr
  · rw [hnil]
    exact fun r hr => (List.not_mem_nil hr).elim
  · rw [hgi, hibh]
    cases hv : m.validPSN with
    | true => simp
    | false => exact fun _ => rfl

theorem Inv.giveNumber {qpState : StateTableEntry} {rest : List StateTableEntry} (h : Inv t)
    (hst : t.ibh.giState = .GET_PSN) (hrsp : t.ibhIn.stateTable2txIbhRsp = qpState :: rest)
    (hop : t.ibh.metaReg.opCode ≠ RC_ACK) {ibh : GenerateIbh} (hgi : ibh.giState = .META)
    (hu : u = { t with
      ibh
      ibhIn := { t.ibhIn with stateTable2txIbhRsp := rest }
      insertMeta := t.insertMeta ++ [⟨t.ibh.metaReg.destQp.setWidth 16, qpState.reqNextPsn, t.ibh.metaReg.opCode⟩]
      tableIn := { t.tableIn with txIbh2stateTableUpdReq := t.tableIn.txIbh2stateTableUpdReq ++
        [{ qpn := t.ibh.metaReg.destQp.setWidth 16
           psn := qpState.reqNextPsn + t.ibh.metaReg.numPkg.setWidth 24, write := true }] } }) : Inv u := by
  have hclient := h.client
  rw [hrsp] at hclient
  obtain ⟨-, hreqs, hrest⟩ := hclient.take
  have hanswer := h.answer qpState (by rw [hrsp]; exact List.mem_cons_self)
  have hvalid := h.waiting hst
  -- the request is the first of those without a number
  have hun : t.unnumbered = (t.ibh.metaReg.opCode, t.ibh.metaReg.numPkg) :: u.unnumbered := by
    simp [hu, unnumbered, hgi, hst, needsNumber, hvalid, hop]
  have hpairs := h.pairs
  rw [hun] at hpairs
  cases hdrop : t.insertAddrLen.drop t.insertMeta.length with
  | nil =>
    rw [hdrop] at hpairs
    cases hpairs
  | cons a as =>
    rw [hdrop] at hpairs
    obtain ⟨hnum, hpairs⟩ := List.forall₂_cons.mp hpairs
    have hlen : t.insertMeta.length < t.insertAddrLen.length := by
      have := congrArg List.length hdrop
      rw [List.length_drop, List.length_cons] at this
      omega
    have htail : t.insertAddrLen.drop (t.insertMeta.length + 1) = as := by
      rw [← List.drop_drop, hdrop]
      rfl
    have hnumbered : u.numbered = t.numbered ++ [.merge
        ⟨t.ibh.metaReg.destQp.setWidth 16, qpState.reqNextPsn, t.ibh.metaReg.opCode⟩ a] := by
      simp only [hu, numbered]
      rw [zipWith_snoc_left hdrop, List.append_assoc]
    have hnext := nextPsn_snoc (t := t) (u := u) (r :=
      ⟨t.ibh.metaReg.destQp.setWidth 16, qpState.reqNextPsn + t.ibh.metaReg.numPkg.setWidth 24, true⟩)
    subst hu
    refine { h with
      chain := fun q => ?_, pairs := ?_, enough := ?_, client := ?_, reads := ?_, answer := ?_
      waiting := fun hc => (by rw [hgi] at hc; cases hc) }
    · have hchain := h.chain q
      rw [hnext q rfl rfl]
      unfold requests at hchain ⊢
      rw [hnumbered, List.filter_append, ← List.append_assoc]
      by_cases hq : q = t.ibh.metaReg.destQp.setWidth 16
      · rw [hq] at hchain ⊢
        simp only [true_and, if_true, List.filter_cons, RetransEntry.merge, beq_self_eq_true, List.filter_nil]
        apply Consecutive.snoc
        · rw [← hanswer] at hchain
          exact hchain
        · have hnum' : t.ibh.metaReg.numPkg = _ := hnum
          rw [hnum']
          rfl
      · have hne : ((RetransEntry.merge ⟨t.ibh.metaReg.destQp.setWidth 16, qpState.reqNextPsn,
            t.ibh.metaReg.opCode⟩ a).qpn == q) = false := by
          simpa [RetransEntry.merge] using fun hc => hq hc.symm
        rw [List.filter_cons, hne]
        simp only [hq, and_false, if_false, List.filter_nil, List.append_nil, Bool.false_eq_true]
        exact hchain
    · rw [List.length_append, List.length_singleton, htail]
      exact hpairs
    · rw [List.length_append, List.length_singleton]
      exact Nat.succ_le_of_lt hlen
    · rw [hgi, hreqs, hrest]
      exact TableClient.quiet (by simp)
    · rw [hreqs]
      intro r hr hw
      rw [List.mem_singleton.mp hr] at hw
      cases hw
    · rw [hrest]
      exact fun r hr => (List.not_mem_nil hr).elim

theorem Inv.generateIbh (h : Inv t) (hs : t.step .generateIbh = some u) : Inv u := by
  simp only [step, Option.some.injEq] at hs
  cases hst : t.ibh.giState with
  | META =>
    cases hmeta : t.ibhIn.metaIn with
    | nil =>
      simp only [Roce.generateIbh, hst, hmeta, List.append_nil] at hs
      rw [← hs]
      exact h
    | cons m ms =>
      cases hdst : t.ibhIn.dstQpIn with
      | nil =>
        simp only [Roce.generateIbh, hst, hmeta, hdst, List.append_nil] at hs
        rw [← hs]
        exact h
      | cons dst dsts =>
        cases hv : m.validPSN with
        | true =>
          simp only [Roce.generateIbh, hst, hmeta, hdst, hv, if_true, List.append_nil] at hs
          exact h.takeMeta hst hmeta (by rw [← hv]) (by rw [hv]; rfl) (by simp [hv]) hs.symm
        | false =>
          simp only [Roce.generateIbh, hst, hmeta, hdst, hv, Bool.false_eq_true, if_false,
            List.append_nil] at hs
          exact h.takeMeta hst hmeta (by rw [← hv]) (by rw [hv]; rfl) (by rw [hv]; rfl) hs.symm
  | GET_PSN =>
    cases hrsp : t.ibhIn.stateTable2txIbhRsp with
    | nil =>
      simp only [Roce.generateIbh, hst, hrsp, List.append_nil] at hs
      rw [← hs]
      exact h
    | cons qpState rest =>
      by_cases hop : t.ibh.metaReg.opCode = RC_ACK
      · simp only [Roce.generateIbh, hst, hrsp, getPsn, hop, if_true, List.append_nil] at hs
        -- an acknowledgement takes the number of the responder
        have hclient := h.client
        rw [hrsp] at hclient
        obtain ⟨-, hreqs, hrest⟩ := hclient.take
        rw [← hs]
        refine { h with pairs := ?_, client := ?_, answer := ?_, waiting := fun hc => (by cases hc) }
        · have hun := h.pairs
          simp only [unnumbered, hst, if_true] at hun
          simpa [unnumbered, needsNumber, hop] using hun
        · simp only [hreqs, hrest]
          exact TableClient.quiet (by simp)
        · rw [hrest]
          exact fun r hr => (List.not_mem_nil hr).elim
      · simp only [Roce.generateIbh, hst, hrsp, getPsn, hop, if_false] at hs
        exact h.giveNumber hst hrsp hop (by rfl) hs.symm

theorem Inv.mergeRetransRequest (h : Inv t) (hs : t.step .mergeRetransRequest = some u) : Inv u := by
  simp only [step, Option.some.injEq] at hs
  cases hmeta : t.insertMeta with
  | nil =>
    simp only [Roce.mergeRetransRequest, hmeta, List.append_nil] at hs
    rw [← hs, ← hmeta]
    exact h
  | cons m ms =>
    cases haddr : t.insertAddrLen with
    | nil =>
      have := h.enough
      rw [hmeta, haddr] at this
      simp at this
    | cons a as =>
      simp only [Roce.mergeRetransRequest, hmeta, haddr] at hs
      have hpairs := h.pairs
      rw [hmeta, haddr, List.length_cons, List.drop_succ_cons] at hpairs
      have henough := h.enough
      rw [hmeta, haddr, List.length_cons, List.length_cons, Nat.add_le_add_iff_right] at henough
      have hreq (q : Qpn) : u.requests q = t.requests q := by
        rw [← hs]
        simp [requests, numbered, hmeta, haddr]
      rw [← hs] at hreq ⊢
      refine { h with chain := fun q => ?_, pairs := hpairs, enough := henough }
      rw [hreq]
      exact h.chain q

theorem nextPsn_congr (hreq : u.tableIn.txIbh2stateTableUpdReq = t.tableIn.txIbh2stateTableUpdReq)
    (htable : ∀ q, (u.table q).reqNextPsn = (t.table q).reqNextPsn) (q : Qpn) : u.nextPsn q = t.nextPsn q := by
  unfold nextPsn
  rw [hreq, funext htable]

theorem Inv.serve {table : Qpn → StateTableEntry} {tableIn : StateTableIn} {ibhIn : GenerateIbhIn} {rxIn : RxIbhFsmIn}
    (h : Inv t) (hu : u = { t with table, tableIn, ibhIn, rxIn }) (hnext : ∀ q, u.nextPsn q = t.nextPsn q)
    (hclient : TableClient TxStateReq.write (t.ibh.giState == .GET_PSN) tableIn.txIbh2stateTableUpdReq
      ibhIn.stateTable2txIbhRsp)
    (hreads : ∀ r ∈ tableIn.txIbh2stateTableUpdReq, r ∈ t.tableIn.txIbh2stateTableUpdReq)
    (hanswer : ∀ r ∈ ibhIn.stateTable2txIbhRsp, r.reqNextPsn = t.nextPsn (t.ibh.metaReg.destQp.setWidth 16))
    (hqpi : tableIn.qpi2stateTableUpdReq = t.tableIn.qpi2stateTableUpdReq) (hmetaIn : ibhIn.metaIn = t.ibhIn.metaIn) :
    Inv u := by
  have hun : u.unnumbered = t.unnumbered := by simp only [hu, unnumbered, hmetaIn]
  subst hu
  exact { h with
    chain := fun q => hnext q ▸ h.chain q, pairs := hun ▸ h.pairs, client := hclient
    reads := fun r hr => h.reads r (hreads r hr), answer := fun r hr => (hanswer r hr).trans (hnext _).symm
    connected := hqpi.trans h.connected }

theorem Inv.stateTable (h : Inv t) (hs : t.step .stateTable = some u) : Inv u := by
  simp only [step, Option.some.injEq] at hs
  cases hrx : t.tableIn.rxIbh2stateTableUpdReq with
  | cons r rest =>
    simp only [Roce.stateTable, hrx] at hs
    have hkeep {table : Qpn → StateTableEntry} {rxReqs : List RxStateReq} {rxIn : RxIbhFsmIn}
        (htable : ∀ q, (table q).reqNextPsn = (t.table q).reqNextPsn)
        (hu : u = { t with table, rxIn, tableIn := { t.tableIn with rxIbh2stateTableUpdReq := rxReqs } }) : Inv u :=
      h.serve hu (nextPsn_congr (by rw [hu]) (by rw [hu]; exact htable)) h.client (fun _ hr => hr) h.answer rfl rfl
    cases hw : r.write with
    | true =>
      simp only [hw, if_true, List.append_nil] at hs
      refine hkeep (fun q => ?_) hs.symm
      by_cases hq : q = r.qpn
      · rw [hq]
        simp only [Function.update_self, StateTableEntry.rxUpdate]
        split <;> rfl
      · simp [hq]
    | false =>
      simp only [hw, Bool.false_eq_true, if_false, List.append_nil] at hs
      exact hkeep (fun q => rfl) hs.symm
  | nil =>
    cases htx : t.tableIn.txIbh2stateTableUpdReq with
    | nil =>
      simp only [Roce.stateTable, hrx, htx, h.connected, List.append_nil] at hs
      rw [← hs]
      exact h
    | cons r rest =>
      have hclient := h.client
      rw [htx] at hclient
      cases hw : r.write with
      | true =>
        simp only [Roce.stateTable, hrx, htx, hw, if_true, List.append_nil] at hs
        refine h.serve hs.symm (fun q => ?_) (hclient.serve_write hw) ?_ h.answer rfl rfl
        · have hstart : (fun q => (Function.update t.table r.qpn
              { t.table r.qpn with reqNextPsn := r.psn } q).reqNextPsn) =
              Function.update (fun q => (t.table q).reqNextPsn) r.qpn r.psn := by
            funext q
            by_cases hq : q = r.qpn
            · rw [hq]
              simp
            · simp [hq]
          rw [← hs]
          simp only [nextPsn, htx, List.foldl_cons, hw, if_true]
          rw [hstart]
        · exact fun r' hr' => by rw [htx]; exact List.mem_cons_of_mem _ hr'
      | false =>
        simp only [Roce.stateTable, hrx, htx, hw, Bool.false_eq_true, if_false, List.append_nil] at hs
        obtain ⟨hbusy, hrest, hnil⟩ := hclient.serve_read hw
        -- nothing stands before the read: the table holds the next number
        have hnext (q : Qpn) : t.nextPsn q = (t.table q).reqNextPsn := by
          simp [nextPsn, htx, hrest, hw]
        have hqpn := h.reads r (by rw [htx]; exact List.mem_cons_self) hw
        refine h.serve hs.symm (fun q => ?_) ?_ ?_ ?_ rfl rfl
        · rw [hnext, ← hs]
          simp [nextPsn, hrest]
        · rw [hbusy, hrest, hnil]
          exact TableClient.answered _
        · rw [hrest]
          exact fun r' hr' => (List.not_mem_nil hr').elim
        · rw [hnil, ← hqpn, hnext]
          intro r' hr'
          rw [List.mem_singleton.mp hr']

/-! ## The retransmitter -/

/-- What one call of `process_retransmissions` takes up; insertions wait for the updates. -/
theorem callProcess_cases (s : RetransNet) :
    (s.callProcess.1.taken = s.taken ∧ s.callProcess.1.inp.rx2retransUpd = s.inp.rx2retransUpd ∧
      s.callProcess.1.inp.tx2retransInsertRequest = s.inp.tx2retransInsertRequest) ∨
    (∃ v rest, s.proc.rtState = .MAIN ∧ s.inp.rx2retransUpd = v :: rest ∧
      s.callProcess.1.taken = s.taken ++ [.update v] ∧ s.callProcess.1.inp.rx2retransUpd = rest ∧
      s.callProcess.1.inp.tx2retransInsertRequest = s.inp.tx2retransInsertRequest) ∨
    (∃ e rest, s.inp.rx2retransUpd = [] ∧ s.inp.tx2retransInsertRequest = e :: rest ∧
      s.callProcess.1.taken = s.taken ++ [.insert e] ∧ s.callProcess.1.inp.rx2retransUpd = [] ∧
      s.callProcess.1.inp.tx2retransInsertRequest = rest) := by
  by_cases hm : s.proc.rtState = .MAIN
  · simp only [RetransNet.callProcess, processRetransmissions, hm]
    unfold retransMain
    split
    · next v rest hv => exact .inr (.inl ⟨v, rest, trivial, hv, by simp [begun, hm], rfl, rfl⟩)
    · exact .inl ⟨by simp [begun, hm], rfl, rfl⟩
    · exact .inl ⟨by simp [begun, hm], rfl, rfl⟩
    · next e rest idx free hv _ _ he _ =>
        exact .inr (.inr ⟨e, rest, hv, he, by simp [begun, hm], hv, rfl⟩)
    · exact .inl ⟨by simp [begun, hm], rfl, rfl⟩
  · have hbegun : ∀ s', begun s.proc s' = [] := by
      intro s'
      unfold begun
      cases hs : s.proc.rtState <;> simp [hs] at hm ⊢
    have hinp : (processRetransmissions s.proc s.inp).2.1.rx2retransUpd = s.inp.rx2retransUpd ∧
        (processRetransmissions s.proc s.inp).2.1.tx2retransInsertRequest = s.inp.tx2retransInsertRequest := by
      unfold processRetransmissions
      cases hs : s.proc.rtState <;> simp only [withPointer, withMeta]
      case MAIN => exact absurd hs hm
      case INSERT_1 => exact ⟨trivial, trivial⟩
      all_goals split <;> exact ⟨rfl, rfl⟩
    exact .inl ⟨by simp [RetransNet.callProcess, hbegun], hinp⟩

theorem released_snoc {ops : List RetransOp} {op : RetransOp}
    (h : ∀ ops' v rest, ops = ops' ++ .update v :: rest →
      Released v.latestAckedReq (listRun ops' v.qpn) (listRun (ops' ++ [.update v]) v.qpn))
    (hop : ∀ v, op = .update v → Released v.latestAckedReq (listRun ops v.qpn) (listRun (ops ++ [op]) v.qpn)) :
    ∀ ops' v rest, ops ++ [op] = ops' ++ .update v :: rest →
      Released v.latestAckedReq (listRun ops' v.qpn) (listRun (ops' ++ [.update v]) v.qpn) := by
  intro ops' v rest heq
  rcases List.eq_nil_or_concat rest with rfl | ⟨rest, op', rfl⟩
  · obtain ⟨rfl, hlast⟩ := List.append_inj' heq rfl
    have hv : op = .update v := List.singleton_inj.mp hlast
    rw [← hv]
    exact hop v hv
  · rw [List.concat_eq_append, ← List.cons_append, ← List.append_assoc] at heq
    obtain ⟨heq, -⟩ := List.append_inj' heq rfl
    exact h ops' v rest heq

theorem Inv.processRetransmissions (h : Inv t) (hok : acksInTurn t .processRetransmissions = true)
    (hs : t.step .processRetransmissions = some u) : Inv u := by
  simp only [step, Option.some.injEq] at hs
  have hretrans : u.retrans = t.retrans.callProcess.1 := by rw [← hs]
  have hnumbered : u.numbered = u.retrans.inp.tx2retransInsertRequest ++
      List.zipWith RetransEntry.merge t.insertMeta t.insertAddrLen := by rw [← hs]; rfl
  have hkeep (hchain : ∀ q, Consecutive (u.requests q) (t.nextPsn q))
      (hreleased : ∀ ops v rest, u.retrans.taken = ops ++ .update v :: rest →
        Released v.latestAckedReq (listRun ops v.qpn) (listRun (ops ++ [.update v]) v.qpn)) : Inv u := by
    rw [← hs] at hchain hreleased ⊢
    exact { h with chain := hchain, released := hreleased }
  rcases callProcess_cases t.retrans with ⟨htaken, -, hins⟩ | ⟨v, rest, hmain, hupd, htaken, -, hins⟩ |
    ⟨e, rest, -, hreq, htaken, -, hins⟩ <;> rw [← hretrans] at htaken hins
  · refine hkeep ?_ ?_
    · intro q
      rw [requests, hnumbered, htaken, hins]
      exact h.chain q
    · rw [htaken]
      exact h.released
  · simp only [acksInTurn, hmain, hupd] at hok
    have hchain := h.chain v.qpn
    obtain ⟨next', hleft⟩ := Consecutive.left hchain
    refine hkeep ?_ ?_
    · intro q
      rw [requests, hnumbered, htaken, hins, listRun_snoc]
      by_cases hq : q = v.qpn
      · rw [hq]
        exact consecutive_update hchain hok
      · simp only [listStep, Function.update_of_ne hq]
        exact h.chain q
    · rw [htaken]
      refine released_snoc h.released fun v' hv' => ?_
      cases hv'
      rw [listRun_snoc]
      exact released_update hleft hok
  · refine hkeep ?_ ?_
    · intro q
      have hreqs : u.requests q = t.requests q := by
        rw [requests, hnumbered, htaken, hins, listRun_snoc, requests, numbered, hreq]
        by_cases hq : q = e.qpn
        · simp [hq, listStep]
        · have hne : (e.qpn == q) = false := by simpa using fun hc => hq hc.symm
          simp [listStep, hq, hne]
      rw [hreqs]
      exact h.chain q
    · rw [htaken]
      exact released_snoc h.released fun v' hv' => by cases hv'

theorem Inv.tables {s : RetransNet} (h : Inv t) (htaken : s.taken = t.retrans.taken)
    (hins : s.inp.tx2retransInsertRequest = t.retrans.inp.tx2retransInsertRequest) :
    Inv { t with retrans := s } := by
  refine { h with chain := fun q => ?_, released := htaken ▸ h.released }
  simp only [requests, numbered, htaken, hins]
  exact h.chain q

theorem inv_step {l : RequesterLabel} (h : Inv t) (hok : acksInTurn t l = true) (hs : t.step l = some u) : Inv u := by
  cases l with
  | post m =>
    cases hs
    refine { h with posted := List.forall_mem_append.mpr ⟨h.posted, fun m' hm' => ?_⟩ }
    rw [List.mem_singleton.mp hm']
    exact hok
  | readEvent op qpn length psn =>
    cases hs
    refine { h with responses := List.forall_mem_append.mpr ⟨h.responses, fun ev hev => ?_⟩ }
    rw [List.mem_singleton.mp hev]
  | packet | ackEvent | connection | rxIbhFsm =>
    cases hs
    exact { h with }
  | localReqHandler => exact h.localReqHandler hs
  | metaMerger => exact h.metaMerger hs
  | generateIbh => exact h.generateIbh hs
  | mergeRetransRequest => exact h.mergeRetransRequest hs
  | stateTable => exact h.stateTable hs
  | processRetransmissions => exact h.processRetransmissions hok hs
  | nak | timer | pointerTable | metaTable | freelist =>
    cases hs
    exact h.tables rfl rfl

theorem inv_start (table : Qpn → StateTableEntry) : Inv (start table) := by
  refine ⟨fun _ => trivial, .nil, le_refl _, ?_, ?_, .quiet ?_, ?_, ?_, ?_, rfl, ?_⟩
  · exact fun _ hm => (List.not_mem_nil hm).elim
  · exact fun _ hm => (List.not_mem_nil hm).elim
  · exact fun _ hm => (List.not_mem_nil hm).elim
  · exact fun _ hm => (List.not_mem_nil hm).elim
  · exact fun _ hm => (List.not_mem_nil hm).elim
  · exact fun hc => (by cases hc)
  · intro ops v rest hops
    simp [start] at hops

/-! ## Runs -/

theorem reach_requests {α : Type} (b : α → RetransLabel) (put : List α → RetransNet → RetransNet)
    (hnil : ∀ s, put [] s = s) (hcons : ∀ x xs s, ∃ s', s.step (b x) = some s' ∧ put (x :: xs) s = put xs s')
    (xs : List α) (s : RetransNet) : Reach RetransNet.step anyStep s (put xs s) := by
  induction xs generalizing s with
  | nil =>
    rw [hnil]
    exact Reach.refl _
  | cons x xs ih =>
    obtain ⟨s', hs, hput⟩ := hcons x xs s
    rw [hput]
    exact Relation.ReflTransGen.head ⟨b x, trivial, hs⟩ (ih s')

theorem reach_updates (s : RetransNet) (us : List RetransUpdate) :
    Reach RetransNet.step anyStep s
      { s with inp := { s.inp with rx2retransUpd := s.inp.rx2retransUpd ++ us } } :=
  reach_requests .update (fun us s => { s with inp := { s.inp with rx2retransUpd := s.inp.rx2retransUpd ++ us } })
    (fun s => by simp) (fun v us s => ⟨_, rfl, by simp⟩) us s

theorem reach_inserts (s : RetransNet) (es : List RetransEntry) :
    Reach RetransNet.step anyStep s
      { s with inp := { s.inp with tx2retransInsertRequest := s.inp.tx2retransInsertRequest ++ es } } :=
  reach_requests .insert
    (fun es s => { s with inp := { s.inp with tx2retransInsertRequest := s.inp.tx2retransInsertRequest ++ es } })
    (fun s => by simp) (fun e es s => ⟨_, rfl, by simp⟩) es s

theorem reach_naks (s : RetransNet) (rs : List Retransmission) :
    Reach RetransNet.step anyStep s
      { s with inp := { s.inp with rx2retransReq := s.inp.rx2retransReq ++ rs } } :=
  reach_requests .nak (fun rs s => { s with inp := { s.inp with rx2retransReq := s.inp.rx2retransReq ++ rs } })
    (fun s => by simp) (fun r rs s => ⟨_, rfl, by simp⟩) rs s

theorem reach_timeouts (s : RetransNet) (rs : List Retransmission) :
    Reach RetransNet.step anyStep s
      { s with inp := { s.inp with timer2retransReq := s.inp.timer2retransReq ++ rs } } :=
  reach_requests .timer
    (fun rs s => { s with inp := { s.inp with timer2retransReq := s.inp.timer2retransReq ++ rs } })
    (fun s => by simp) (fun r rs s => ⟨_, rfl, by simp⟩) rs s

theorem retrans_step {l : RequesterLabel} (hs : t.step l = some u) :
    Reach RetransNet.step anyStep t.retrans u.retrans := by
  have hone (l' : RetransLabel) {s : RetransNet} (h : t.retrans.step l' = some s) :
      Reach RetransNet.step anyStep t.retrans s := Relation.ReflTransGen.single ⟨l', trivial, h⟩
  cases l <;> cases hs
  case nak r => exact hone (.nak r) rfl
  case timer r => exact hone (.timer r) rfl
  case processRetransmissions => exact hone .process rfl
  case pointerTable => exact hone .pointerTable rfl
  case metaTable => exact hone .metaTable rfl
  case freelist => exact hone .freelist rfl
  case rxIbhFsm => exact reach_updates t.retrans _
  case mergeRetransRequest => exact reach_inserts t.retrans _
  all_goals exact Reach.refl _

/-- Every response that reached the retransmitter has released exactly the requests it acknowledges, and the
tables hold the lists that are left. -/
theorem responses_release_acknowledged {table : Qpn → StateTableEntry}
    (h : Reach step (fun t l => acksInTurn t l = true) (start table) t) :
    (∀ ops v rest, t.retrans.taken = ops ++ .update v :: rest →
      Released v.latestAckedReq (listRun ops v.qpn) (listRun (ops ++ [.update v]) v.qpn)) ∧
    (t.retrans.quiescent = true → ∀ q, t.retrans.entries q = listRun t.retrans.taken q) := by
  constructor
  · exact (h.invariant (inv_start table) fun _ _ _ hu hok hs => inv_step hu hok hs).released
  · intro hq
    have hretrans : Reach RetransNet.step anyStep {} t.retrans := by
      refine h.invariant (P := fun t => Reach RetransNet.step anyStep {} t.retrans) (Reach.refl _) ?_
      exact fun u l v hu _ hs => Relation.ReflTransGen.trans hu (retrans_step hs)
    obtain ⟨cells, ops, hinv⟩ := RetransNet.inv_of_reach hretrans
    obtain ⟨htaken, -, hentries, -⟩ := hinv.quiescent hq
    rw [htaken]
    exact hentries

/-! ## Two requests -/

def connected : Qpn → StateTableEntry := fun q => .connect { qpn := q, remotePsn := 100, localPsn := 50, write := true }

def writeOnly : TxMeta := { opCode := RC_RDMA_WRITE_ONLY, qpn := 1, params := 64 <<< 128 }

/-- A read request that is answered by two packets. -/
def readLong : TxMeta := { opCode := RC_RDMA_READ_REQUEST, qpn := 1, params := 5000 <<< 128 }

def postTwo (m₁ m₂ : TxMeta) : List RequesterLabel :=
  [.freelist, .freelist, .post m₁, .post m₂, .connection 7, .connection 7] ++
    [.localReqHandler, .localReqHandler, .metaMerger, .metaMerger] ++
    [.generateIbh, .stateTable, .generateIbh, .generateIbh, .stateTable, .stateTable, .generateIbh, .stateTable] ++
    [.mergeRetransRequest, .mergeRetransRequest] ++
    [.processRetransmissions, .pointerTable, .processRetransmissions, .pointerTable, .metaTable] ++
    [.processRetransmissions, .pointerTable, .processRetransmissions, .processRetransmissions, .pointerTable,
      .metaTable, .metaTable]

def respond (op : IbOpCode) (psn : BitVec 24) : List RequesterLabel :=
  [.packet ⟨op, 0, 1, psn, true, 1⟩ ⟨false, 1⟩, .rxIbhFsm, .stateTable, .rxIbhFsm, .stateTable] ++
    [.processRetransmissions, .pointerTable, .processRetransmissions, .metaTable, .processRetransmissions,
      .pointerTable, .metaTable, .freelist]

theorem responses_release_acknowledged_in_turn : ∃ t,
    Reach step (fun t l => acksInTurn t l = true) (start connected) t ∧ t.retrans.quiescent = true ∧
    t.retrans.entries 1 = [] ∧ t.retrans.taken.length = 5 ∧
    (∀ ops v rest, t.retrans.taken = ops ++ .update v :: rest →
      Released v.latestAckedReq (listRun ops v.qpn) (listRun (ops ++ [.update v]) v.qpn)) ∧
    (t.retrans.quiescent = true → ∀ q, t.retrans.entries q = listRun t.retrans.taken q) := by
  have hrun : (runIf step (fun t l => acksInTurn t l = true) (start connected)
      (postTwo readLong writeOnly ++ respond RC_RDMA_READ_RESP_FIRST 100 ++ respond RC_RDMA_READ_RESP_LAST 101 ++
        respond RC_ACK 102)).map
      (fun t => (t.retrans.quiescent, t.retrans.entries 1, t.retrans.taken.length)) = some (true, [], 5) := by
    decide +kernel
  obtain ⟨t, ht, hval⟩ := Option.map_eq_some_iff.mp hrun
  obtain ⟨hq, hval⟩ := Prod.mk.inj hval
  obtain ⟨hentries, hlen⟩ := Prod.mk.inj hval
  have hreach := reach_of_runIf ht
  exact ⟨t, hreach, hq, hentries, hlen, responses_release_acknowledged hreach⟩

/-- One acknowledgement for two requests releases the first one only. -/
theorem coalesced_ack_releases_one : ∃ t ops v,
    Reach step anyStep (start connected) t ∧ t.retrans.quiescent = true ∧
    t.retrans.taken = ops ++ [.update v] ∧ v.qpn = 1 ∧ v.latestAckedReq = 101 ∧
    (listRun ops 1).map RetransEntry.lastPsn = [100, 101] ∧
    (t.retrans.entries 1).map RetransEntry.lastPsn = [101] ∧
    ¬ Released v.latestAckedReq (listRun ops v.qpn) (t.retrans.entries v.qpn) := by
  have hrun : (run step (start connected) (postTwo writeOnly writeOnly ++ respond RC_ACK 101)).map
      (fun t => (t.retrans.quiescent, t.retrans.taken, (t.retrans.entries 1).map RetransEntry.lastPsn)) =
      some (true, [.insert ⟨1, 100, RC_RDMA_WRITE_ONLY, 0, 0, 64, 0, 0⟩,
        .insert ⟨1, 101, RC_RDMA_WRITE_ONLY, 0, 0, 64, 0, 0⟩, .update ⟨1, 101, RC_ACK⟩], [101]) := by
    decide +kernel
  obtain ⟨t, ht, hval⟩ := Option.map_eq_some_iff.mp hrun
  obtain ⟨hq, hval⟩ := Prod.mk.inj hval
  obtain ⟨htaken, hentries⟩ := Prod.mk.inj hval
  refine ⟨t, [.insert ⟨1, 100, RC_RDMA_WRITE_ONLY, 0, 0, 64, 0, 0⟩,
    .insert ⟨1, 101, RC_RDMA_WRITE_ONLY, 0, 0, 64, 0, 0⟩], ⟨1, 101, RC_ACK⟩, reach_of_run ht, hq, htaken, rfl,
    rfl, by decide, hentries, ?_⟩
  unfold Released
  rw [hentries]
  decide

end RequesterNet

end FpgaNetworkStack.Roce
