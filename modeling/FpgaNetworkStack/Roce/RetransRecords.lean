import FpgaNetworkStack.Lib.Reach
import FpgaNetworkStack.Roce.TxEngine

/-!
# Retransmission records

`generate_ibh` writes the queue pair, number and opcode of a new request, `local_req_handler` its addresses and
its length, and `merge_retrans_request` joins the two by position.  The network numbers the requests in the
order in which `local_req_handler` takes them and carries the number along with everything made from one; a
retransmission carries none.
-/

namespace FpgaNetworkStack.Roce

open Lib IbOpCode

structure RecordNet where
  lrhIn : LocalReqIn := {}
  acks : List AckEvent := []
  reads : List Event := []
  /-- `tx_appMetaFifo` -/
  app : List (Event × Option Nat) := []
  metas : List (IbhMeta × Option Nat) := []
  dstQps : List (BitVec 24) := []
  ibh : GenerateIbh := {}
  /-- The number of the packet `generate_ibh` works on. -/
  current : Option Nat := none
  txRsp : List StateTableEntry := []
  insertMeta : List RetransMeta := []
  insertAddrLen : List RetransAddrLen := []
  /-- The requests that were taken. -/
  requests : List TxMeta := []
  /-- Everything that was written: headers, both halves of the records, and the records. -/
  headers : List (BaseTransportHeader × Option Nat) := []
  metaLog : List (RetransMeta × Option Nat) := []
  addrLog : List (RetransAddrLen × Option Nat) := []
  entries : List RetransEntry := []

inductive RecordLabel where
  -- from outside
  | post (m : TxMeta)
  | retransmit (r : RetransEvent)
  | ackEvent (a : AckEvent)
  | readEvent (op : IbOpCode) (qpn : BitVec 24) (length : BitVec 32) (psn : BitVec 24)
  | connection (dstQp : BitVec 24)
  | stateRsp (r : StateTableEntry)
  -- calls of the processes
  | localReqHandler | metaMerger | generateIbh | mergeRetransRequest

/-- The half of a record that `local_req_handler` writes. -/
def TxMeta.addrLen (m : TxMeta) : RetransAddrLen := ⟨m.laddr, m.raddr, m.length, m.lst, m.offs⟩

namespace RecordNet

def callLocal (t : RecordNet) : RecordNet :=
  let (lrhIn, out) := Roce.localReqHandler t.lrhIn
  let taken := t.lrhIn.sqMeta.take (t.lrhIn.sqMeta.length - lrhIn.sqMeta.length)
  let no := if taken.isEmpty then none else some t.requests.length
  { t with
    lrhIn
    app := t.app ++ out.txLocalTxMeta.map (·, no)
    insertAddrLen := t.insertAddrLen ++ out.tx2retransInsertAddrLen
    requests := t.requests ++ taken
    addrLog := t.addrLog ++ out.tx2retransInsertAddrLen.map (·, no) }

def callMerger (t : RecordNet) : RecordNet :=
  let (i, out) := Roce.metaMerger ⟨t.acks, t.reads, t.app.map Prod.fst⟩
  let taken := t.app.take (t.app.length - i.txAppMetaFifo.length)
  { t with
    acks := i.rxAckEventFifo
    reads := i.rxReadEvenFifo
    app := t.app.drop taken.length
    metas := t.metas ++ out.txIbhMetaFifo.map (·, taken.head?.bind Prod.snd) }

def callIbh (t : RecordNet) : RecordNet :=
  let (ibh, i, out) := Roce.generateIbh t.ibh ⟨t.metas.map Prod.fst, t.dstQps, t.txRsp⟩
  let taken := t.metas.take (t.metas.length - i.metaIn.length)
  let current := (taken.head?.map Prod.snd).getD t.current
  { t with
    ibh
    metas := t.metas.drop taken.length
    current
    dstQps := i.dstQpIn
    txRsp := i.stateTable2txIbhRsp
    insertMeta := t.insertMeta ++ out.tx2retransInsertMeta
    headers := t.headers ++ out.txIbhHeaderFifo.map (·, current)
    metaLog := t.metaLog ++ out.tx2retransInsertMeta.map (·, current) }

def callMerge (t : RecordNet) : RecordNet :=
  let (insertMeta, insertAddrLen, out) := Roce.mergeRetransRequest t.insertMeta t.insertAddrLen
  { t with insertMeta, insertAddrLen, entries := t.entries ++ out }

/-- One call of a process, or one action of the environment; the state table may answer anything. -/
def step (t : RecordNet) : RecordLabel → Option RecordNet
  | .post m => some { t with lrhIn := { t.lrhIn with sqMeta := t.lrhIn.sqMeta ++ [m] } }
  | .retransmit r => some { t with lrhIn := { t.lrhIn with retransEventFifo := t.lrhIn.retransEventFifo ++ [r] } }
  | .ackEvent a => some { t with acks := t.acks ++ [a] }
  | .readEvent opCode qpn length psn =>
    some { t with reads := t.reads ++ [{ opCode, qpn, length, psn, validPsn := true }] }
  | .connection dstQp => some { t with dstQps := t.dstQps ++ [dstQp] }
  | .stateRsp r => some { t with txRsp := t.txRsp ++ [r] }
  | .localReqHandler => some t.callLocal
  | .metaMerger => some t.callMerger
  | .generateIbh => some t.callIbh
  | .mergeRetransRequest => some t.callMerge

/-- New requests have an opcode that is passed on. -/
def supported (_ : RecordNet) : RecordLabel → Prop
  | .post m => Roce.forwarded m.opCode = true
  | _ => True

instance (t : RecordNet) (l : RecordLabel) : Decidable (supported t l) := by
  cases l <;> unfold supported <;> infer_instance

/-- The `k`-th half written by either side belongs to the `k`-th request, the number in it is the one in the
header of that request, and so is the number in the `k`-th record; retransmitted, a record gives the event of
the request with its number, and reads the same memory. -/
structure Recorded (t : RecordNet) : Prop where
  addrLens : t.addrLog = t.requests.zipIdx.map fun x => (x.1.addrLen, some x.2)
  metas : ∀ (k : Nat) x, t.metaLog[k]? = some x → ∃ m, t.requests[k]? = some m ∧ x.2 = some k ∧
    x.1.qpn = m.qpn.setWidth 16 ∧ x.1.opCode = m.opCode
  psns : (t.headers.filter fun x => x.2.isSome).map (fun x => (x.1.psn, x.2)) =
    t.metaLog.map fun x => (x.1.psn, x.2)
  entries : ∀ (k : Nat) e, t.entries[k]? = some e → ∃ m h, t.requests[k]? = some m ∧ (h, some k) ∈ t.headers ∧
    e = ⟨m.qpn.setWidth 16, h.psn, m.opCode, m.laddr, m.raddr, m.length, m.lst, m.offs⟩
  replay : ∀ (k : Nat) e, t.entries[k]? = some e → ∃ m h, t.requests[k]? = some m ∧ (h, some k) ∈ t.headers ∧
    (Roce.localReqHandler ⟨[(RetransMetaEntry.ofEntry e).event e.qpn], []⟩).2.txLocalTxMeta =
      [{ m.event with psn := h.psn, validPsn := true }] ∧
    (Roce.localReqHandler ⟨[(RetransMetaEntry.ofEntry e).event e.qpn], []⟩).2.txLocalMemCmdFifo.map
        (fun c => (c.opCode, c.qpn, c.addr, c.len)) =
      (Roce.localReqHandler ⟨[], [m]⟩).2.txLocalMemCmdFifo.map fun c => (c.opCode, c.qpn, c.addr, c.len)

/-! ## Invariant -/

/-- The packet needs a number, which only a new request does. -/
def needsNumber (m : IbhMeta) : Bool := !m.validPSN && m.opCode != RC_ACK

/-- The request with number `no` has this opcode and queue pair. -/
def Belongs (t : RecordNet) (no : Option Nat) (op : IbOpCode) (qpn : BitVec 24) : Prop :=
  ∃ n m, no = some n ∧ t.requests[n]? = some m ∧ op = m.opCode ∧ qpn = m.qpn.setWidth 24

/-- The packet `generate_ibh` has to give a number to. -/
def working (t : RecordNet) : List (IbhMeta × Option Nat) :=
  if t.ibh.giState = .GET_PSN then [(t.ibh.metaReg, t.current)] else []

/-- The numbers of the requests that `generate_ibh` has not written a half for. -/
def waiting (t : RecordNet) : List (Option Nat) :=
  ((t.working ++ t.metas).filter fun x => needsNumber x.1).map Prod.snd ++
    (t.app.filter fun x => !x.1.validPsn).map Prod.snd

structure Inv (t : RecordNet) : Prop where
  posted : ∀ m ∈ t.lrhIn.sqMeta, Roce.forwarded m.opCode = true
  taken : ∀ m ∈ t.requests, Roce.forwarded m.opCode = true
  reads : ∀ ev ∈ t.reads, ev.validPsn = true
  app : ∀ x ∈ t.app, if x.1.validPsn then x.2 = none else x.1.opCode ≠ RC_ACK ∧ t.Belongs x.2 x.1.opCode x.1.qpn
  metas : ∀ x ∈ t.working ++ t.metas,
    if needsNumber x.1 then t.Belongs x.2 x.1.opCode x.1.destQp else x.2 = none
  invalid : ∀ x ∈ t.working, x.1.validPSN = false
  order : t.metaLog.map Prod.snd ++ t.waiting = (List.range t.requests.length).map some
  log : ∀ x ∈ t.metaLog, ∃ qpn, x.1.qpn = qpn.setWidth 16 ∧ t.Belongs x.2 x.1.opCode qpn
  headers : (t.headers.filter fun x => x.2.isSome).map (fun x => (x.1.psn, x.2)) =
    t.metaLog.map fun x => (x.1.psn, x.2)
  addrLens : t.addrLog = t.requests.zipIdx.map fun x => (x.1.addrLen, some x.2)
  joined : ∃ ms as, t.metaLog.map Prod.fst = ms ++ t.insertMeta ∧ t.addrLog.map Prod.fst = as ++ t.insertAddrLen ∧
    ms.length = as.length ∧ t.entries = List.zipWith RetransEntry.merge ms as

variable {t u : RecordNet}

theorem inv_init : Inv {} :=
  ⟨by simp, by simp, by simp, by simp, by simp [working], by simp [working], rfl, by simp, rfl, rfl,
    [], [], rfl, rfl, rfl, rfl⟩

theorem Belongs.mono {no : Option Nat} {op : IbOpCode} {qpn : BitVec 24} (h : t.Belongs no op qpn)
    {new : List TxMeta} (hu : u.requests = t.requests ++ new) : u.Belongs no op qpn := by
  obtain ⟨n, m, hno, hm, hop, hqpn⟩ := h
  refine ⟨n, m, hno, ?_, hop, hqpn⟩
  rw [hu, List.getElem?_append_left (List.getElem?_eq_some_iff.mp hm).1]
  exact hm

/-! ### `local_req_handler` -/

-- A retransmission goes first, then a new request; otherwise nothing happens.
theorem callLocal_cases (t : RecordNet) :
    (∃ rev rest, t.lrhIn.retransEventFifo = rev :: rest ∧ t.callLocal = { t with
      lrhIn := { t.lrhIn with retransEventFifo := rest }
      app := t.app ++ [(⟨rev.opCode, rev.qpn, rev.remoteAddr, rev.length, rev.psn, true, false⟩, none)] }) ∨
    (∃ m rest, t.lrhIn.retransEventFifo = [] ∧ t.lrhIn.sqMeta = m :: rest ∧ t.callLocal = { t with
      lrhIn := { t.lrhIn with sqMeta := rest }
      app := t.app ++ if Roce.forwarded m.opCode then [(m.event, some t.requests.length)] else []
      insertAddrLen := t.insertAddrLen ++ [m.addrLen]
      requests := t.requests ++ [m]
      addrLog := t.addrLog ++ [(m.addrLen, some t.requests.length)] }) ∨
    t.callLocal = t := by
  unfold callLocal
  cases hrev : t.lrhIn.retransEventFifo with
  | cons rev rest =>
    left
    exact ⟨rev, rest, rfl, by simp [Roce.localReqHandler, hrev]⟩
  | nil =>
    cases hsq : t.lrhIn.sqMeta with
    | nil =>
      right; right
      simp [Roce.localReqHandler, hrev, hsq]
    | cons m rest =>
      right; left
      refine ⟨m, rest, rfl, rfl, ?_⟩
      cases hf : Roce.forwarded m.opCode <;> simp [Roce.localReqHandler, hrev, hsq, hf, TxMeta.addrLen]

theorem inv_callLocal (h : Inv t) : Inv t.callLocal := by
  rcases callLocal_cases t with ⟨rev, rest, -, hu⟩ | ⟨m, rest, -, hsq, hu⟩ | hu
  · -- a retransmission keeps its number
    rw [hu]
    refine { h with app := ?_, order := ?_ }
    · intro x hx
      rcases List.mem_append.mp hx with hx | hx
      · exact h.app x hx
      · rw [List.mem_singleton.mp hx]
        simp
    · have hwait : waiting { t with
          lrhIn := { t.lrhIn with retransEventFifo := rest }
          app := t.app ++ [(⟨rev.opCode, rev.qpn, rev.remoteAddr, rev.length, rev.psn, true, false⟩, none)] } =
          t.waiting := by
        simp [waiting, working]
      rw [hwait]
      exact h.order
  · have hfwd := h.posted m (by rw [hsq]; exact List.mem_cons_self)
    have hreq : t.callLocal.requests = t.requests ++ [m] := by rw [hu]
    have hnew : t.callLocal.Belongs (some t.requests.length) m.opCode (m.qpn.setWidth 24) :=
      ⟨_, m, rfl, by rw [hreq]; simp, rfl, rfl⟩
    have hack : m.opCode ≠ RC_ACK := by
      intro hc
      rw [hc] at hfwd
      cases hfwd
    have hwait : t.callLocal.waiting = t.waiting ++ [some t.requests.length] := by
      rw [hu]
      simp [waiting, working, hfwd, TxMeta.event]
    have happ : t.callLocal.app = t.app ++ [(m.event, some t.requests.length)] := by rw [hu]; simp [hfwd]
    have hposted := h.posted
    rw [hsq] at hposted
    rw [hu] at hreq hwait hnew happ ⊢
    refine { h with
      posted := fun m' hm' => hposted m' (List.mem_cons_of_mem _ hm'), taken := ?_, app := ?_, metas := ?_
      order := ?_, log := ?_, addrLens := ?_, joined := ?_ }
    · refine List.forall_mem_append.mpr ⟨h.taken, fun m' hm' => ?_⟩
      rw [List.mem_singleton.mp hm']
      exact hfwd
    · rw [happ]
      intro x hx
      rcases List.mem_append.mp hx with hx | hx
      · have hold := h.app x hx
        split
        · next hv => rwa [if_pos hv] at hold
        · next hv =>
            rw [if_neg hv] at hold
            exact ⟨hold.1, hold.2.mono hreq⟩
      · rw [List.mem_singleton.mp hx]
        exact ⟨hack, hnew⟩
    · intro x hx
      have hold := h.metas x hx
      split
      · next hn =>
          rw [if_pos hn] at hold
          exact hold.mono hreq
      · next hn => rwa [if_neg hn] at hold
    · rw [hwait, ← List.append_assoc, h.order, List.length_append, List.length_singleton, List.range_succ,
        List.map_append]
      rfl
    · intro x hx
      obtain ⟨qpn, hqpn, hb⟩ := h.log x hx
      exact ⟨qpn, hqpn, hb.mono hreq⟩
    · rw [List.zipIdx_append, List.map_append, h.addrLens]
      simp
    · obtain ⟨ms, as, hms, has, hlen, he⟩ := h.joined
      exact ⟨ms, as, hms, by simp [has], hlen, he⟩
  · rw [hu]
    exact h

/-! ### `meta_merger` -/

-- The three sources in the order of their priority.
theorem callMerger_cases (t : RecordNet) :
    (∃ aev rest, t.acks = aev :: rest ∧ t.callMerger = { t with
      acks := rest, metas := t.metas ++ [(⟨RC_ACK, 0, aev.qpn, aev.psn, aev.validPsn, 1⟩, none)] }) ∨
    (∃ ev rest, t.reads = ev :: rest ∧ t.callMerger = { t with
      reads := rest, metas := t.metas ++ [(ev.ibhMeta, none)] }) ∨
    (∃ x rest, t.app = x :: rest ∧ t.callMerger = { t with
      app := rest, metas := t.metas ++ [(x.1.appIbhMeta, x.2)] }) ∨
    t.callMerger = t := by
  unfold callMerger
  cases hack : t.acks with
  | cons aev rest =>
    left
    exact ⟨aev, rest, rfl, by simp [Roce.metaMerger]⟩
  | nil =>
    cases hread : t.reads with
    | cons ev rest =>
      right; left
      exact ⟨ev, rest, rfl, by simp [Roce.metaMerger]⟩
    | nil =>
      cases happ : t.app with
      | cons x rest =>
        right; right; left
        exact ⟨x, rest, rfl, by simp [Roce.metaMerger]⟩
      | nil =>
        right; right; right
        simp only [Roce.metaMerger, List.map_nil, List.append_nil, List.drop_nil]
        rw [← hack, ← hread, ← happ]

-- A header is put behind the others, and no request is touched.
theorem Inv.queue (h : Inv t) {m : IbhMeta} {no : Option Nat}
    (hu : u = { t with acks := u.acks, reads := u.reads, app := u.app, metas := t.metas ++ [(m, no)] })
    (hreads : ∀ ev ∈ u.reads, ev.validPsn = true) (happ : ∀ x ∈ u.app, x ∈ t.app)
    (hnew : if needsNumber m then t.Belongs no m.opCode m.destQp else no = none)
    (hwait : ((t.app.filter fun x => !x.1.validPsn).map Prod.snd) =
      (if needsNumber m then [no] else []) ++ (u.app.filter fun x => !x.1.validPsn).map Prod.snd) : Inv u := by
  have hworking : u.working = t.working := by rw [hu]; rfl
  rw [hu]
  rw [hu] at hworking
  refine ⟨h.posted, h.taken, hreads, fun x hx => h.app x (happ x hx), ?_, ?_, ?_, h.log, h.headers, h.addrLens,
    h.joined⟩
  · rw [hworking, ← List.append_assoc]
    intro x hx
    rcases List.mem_append.mp hx with hx | hx
    · exact h.metas x hx
    · rw [List.mem_singleton.mp hx]
      exact hnew
  · rw [hworking]
    exact h.invalid
  · rw [← h.order, waiting, waiting, hworking, hwait, ← List.append_assoc t.working, List.filter_append,
      List.map_append, List.append_assoc]
    cases hn : needsNumber m <;> simp [hn]

theorem inv_callMerger (h : Inv t) : Inv t.callMerger := by
  rcases callMerger_cases t with ⟨aev, rest, hack, hu⟩ | ⟨ev, rest, hread, hu⟩ | ⟨x, rest, happ, hu⟩ | hu
  · refine h.queue (m := ⟨RC_ACK, 0, aev.qpn, aev.psn, aev.validPsn, 1⟩) (u := t.callMerger)
      (by rw [hu]) ?_ ?_ (by simp [needsNumber]) ?_ <;> rw [hu]
    · exact h.reads
    · exact fun x hx => hx
    · simp [needsNumber]
  · have hvalid := h.reads ev (by rw [hread]; exact List.mem_cons_self)
    refine h.queue (m := ev.ibhMeta) (u := t.callMerger)
      (by rw [hu]) ?_ ?_ (by simp [needsNumber, Event.ibhMeta, hvalid]) ?_ <;> rw [hu]
    · exact fun ev' hev' => h.reads ev' (by rw [hread]; exact List.mem_cons_of_mem _ hev')
    · exact fun x hx => hx
    · simp [needsNumber, Event.ibhMeta, hvalid]
  · have hx := h.app x (by rw [happ]; exact List.mem_cons_self)
    have hneeds : needsNumber x.1.appIbhMeta = !x.1.validPsn := by
      unfold Event.appIbhMeta
      cases hv : x.1.validPsn with
      | true => simp [needsNumber, Event.ibhMeta, hv]
      | false =>
        rw [hv] at hx
        simp [needsNumber, hx.1]
    have hop : x.1.appIbhMeta.opCode = x.1.opCode ∧ x.1.appIbhMeta.destQp = x.1.qpn := by
      unfold Event.appIbhMeta Event.ibhMeta
      split <;> exact ⟨rfl, rfl⟩
    refine h.queue (m := x.1.appIbhMeta) (u := t.callMerger) (by rw [hu]) ?_ ?_ ?_ ?_
    · rw [hu]
      exact h.reads
    · rw [hu, happ]
      exact fun y hy => List.mem_cons_of_mem _ hy
    · rw [hneeds, hop.1, hop.2]
      cases hv : x.1.validPsn with
      | true => simpa [hv] using hx
      | false =>
        rw [hv] at hx
        exact hx.2
    · rw [hneeds, hu, happ]
      cases hv : x.1.validPsn <;> simp [hv]
  · rw [hu]
    exact h

/-! ### `generate_ibh` -/

-- A header is taken up, or the number of one is there, or nothing happens.
theorem callIbh_cases (t : RecordNet) :
    (∃ x ms dst dsts, t.ibh.giState = .META ∧ t.metas = x :: ms ∧ t.dstQps = dst :: dsts ∧ x.1.validPSN = true ∧
      ∃ ibh header, ibh.giState = .META ∧ t.callIbh = { t with
        ibh, metas := ms, current := x.2, dstQps := dsts, headers := t.headers ++ [(header, x.2)] }) ∨
    (∃ x ms dst dsts, t.ibh.giState = .META ∧ t.metas = x :: ms ∧ t.dstQps = dst :: dsts ∧ x.1.validPSN = false ∧
      ∃ ibh, ibh.giState = .GET_PSN ∧ ibh.metaReg = { x.1 with partitionKey := 0xFFFF } ∧
      t.callIbh = { t with ibh, metas := ms, current := x.2, dstQps := dsts }) ∨
    (∃ r rs, t.ibh.giState = .GET_PSN ∧ t.txRsp = r :: rs ∧ ∃ ibh header, ibh.giState = .META ∧
      if t.ibh.metaReg.opCode = RC_ACK then
        t.callIbh = { t with ibh, txRsp := rs, headers := t.headers ++ [(header, t.current)] }
      else header.psn = r.reqNextPsn ∧ t.callIbh = { t with
        ibh, txRsp := rs
        insertMeta := t.insertMeta ++ [⟨t.ibh.metaReg.destQp.setWidth 16, r.reqNextPsn, t.ibh.metaReg.opCode⟩]
        headers := t.headers ++ [(header, t.current)]
        metaLog := t.metaLog ++
          [(⟨t.ibh.metaReg.destQp.setWidth 16, r.reqNextPsn, t.ibh.metaReg.opCode⟩, t.current)] }) ∨
    t.callIbh = t := by
  unfold callIbh
  cases hst : t.ibh.giState with
  | META =>
    cases hm : t.metas with
    | nil =>
      right; right; right
      simp [Roce.generateIbh, hst]
      rw [← hm]
    | cons x ms =>
      cases hd : t.dstQps with
      | nil =>
        right; right; right
        simp [Roce.generateIbh, hst]
        rw [← hm, ← hd]
      | cons dst dsts =>
        cases hv : x.1.validPSN with
        | true =>
          left
          refine ⟨x, ms, dst, dsts, rfl, rfl, rfl, hv,
            ⟨.META, ⟨x.1.opCode, 0xFFFF, true, x.1.psn, dst, false⟩, { x.1 with partitionKey := 0xFFFF }⟩,
            ⟨x.1.opCode, 0xFFFF, true, x.1.psn, dst, false⟩, rfl, ?_⟩
          simp [Roce.generateIbh, hst, hv]
        | false =>
          right; left
          refine ⟨x, ms, dst, dsts, rfl, rfl, rfl, hv,
            ⟨.GET_PSN, ⟨x.1.opCode, 0xFFFF, true, x.1.psn, dst, false⟩, { x.1 with partitionKey := 0xFFFF }⟩,
            rfl, rfl, ?_⟩
          simp [Roce.generateIbh, hst, hv]
  | GET_PSN =>
    cases hr : t.txRsp with
    | nil =>
      right; right; right
      simp [Roce.generateIbh, hst]
      rw [← hr]
    | cons r rs =>
      right; right; left
      refine ⟨r, rs, rfl, rfl, ?_⟩
      by_cases hop : t.ibh.metaReg.opCode = RC_ACK
      · refine ⟨⟨.META, { t.ibh.header with psn := r.respEpsn - 1 }, t.ibh.metaReg⟩,
          { t.ibh.header with psn := r.respEpsn - 1 }, rfl, ?_⟩
        rw [if_pos hop]
        simp [Roce.generateIbh, hst, getPsn, hop]
      · refine ⟨⟨.META, { t.ibh.header with psn := r.reqNextPsn, ackReq := true }, t.ibh.metaReg⟩,
          { t.ibh.header with psn := r.reqNextPsn, ackReq := true }, rfl, ?_⟩
        rw [if_neg hop]
        refine ⟨rfl, ?_⟩
        simp [Roce.generateIbh, hst, getPsn, hop]

theorem inv_callIbh (h : Inv t) : Inv t.callIbh := by
  rcases callIbh_cases t with ⟨x, ms, dst, dsts, hst, hm, -, hv, ibh, header, hgi, hu⟩ |
    ⟨x, ms, dst, dsts, hst, hm, -, hv, ibh, hgi, hreg, hu⟩ | ⟨r, rs, hst, -, ibh, header, hgi, hu⟩ | hu
  · -- a number is there already: no request waits for this packet
    have hneeds : needsNumber x.1 = false := by simp [needsNumber, hv]
    have hidle : t.working = [] := by simp [working, hst]
    have hidle' : t.callIbh.working = [] := by simp [working, hu, hgi]
    have hx := h.metas x (by rw [hm]; simp)
    rw [if_neg (by simp [hneeds])] at hx
    have hwait : t.callIbh.waiting = t.waiting := by
      rw [waiting, waiting, hidle, hidle', hu, hm]
      simp [hneeds]
    rw [hu] at hidle' hwait ⊢
    refine { h with
      metas := ?_, invalid := by simp [hidle'], order := hwait ▸ h.order, headers := by simpa [hx] using h.headers }
    rw [hidle']
    exact fun y hy => h.metas y (List.mem_append_right _ (by rw [hm]; exact List.mem_cons_of_mem _ hy))
  · -- the packet is taken up and waits for its number
    have hidle : t.working = [] := by simp [working, hst]
    have hbusy : t.callIbh.working = [(ibh.metaReg, x.2)] := by simp [working, hu, hgi]
    have hsame : needsNumber ibh.metaReg = needsNumber x.1 := by rw [hreg]; rfl
    have hwait : t.callIbh.waiting = t.waiting := by
      rw [waiting, waiting, hidle, hbusy, hu, hm]
      cases hn : needsNumber x.1 <;> simp [hn, hsame]
    rw [hu] at hbusy hwait ⊢
    refine { h with metas := ?_, invalid := ?_, order := hwait ▸ h.order }
    · have hx := h.metas x (by rw [hm]; simp)
      rw [hbusy]
      intro y hy
      rcases List.mem_cons.mp hy with rfl | hy
      · have hop : ibh.metaReg.opCode = x.1.opCode ∧ ibh.metaReg.destQp = x.1.destQp := by
          rw [hreg]
          exact ⟨rfl, rfl⟩
        show if needsNumber ibh.metaReg then _ else _
        rw [hsame, hop.1, hop.2]
        exact hx
      · exact h.metas y (List.mem_append_right _ (by rw [hm]; exact List.mem_cons_of_mem _ hy))
    · rw [hbusy]
      intro y hy
      rw [List.mem_singleton.mp hy, hreg]
      exact hv
  · have hbusy : t.working = [(t.ibh.metaReg, t.current)] := by simp [working, hst]
    have hvalid := h.invalid (t.ibh.metaReg, t.current) (by rw [hbusy]; exact List.mem_singleton_self _)
    have hx := h.metas (t.ibh.metaReg, t.current) (by rw [hbusy]; exact List.mem_cons_self)
    by_cases hop : t.ibh.metaReg.opCode = RC_ACK
    · -- an acknowledgement takes no number
      rw [if_pos hop] at hu
      have hneeds : needsNumber t.ibh.metaReg = false := by simp [needsNumber, hop]
      rw [if_neg (by simp [hneeds])] at hx
      have hidle' : t.callIbh.working = [] := by simp [working, hu, hgi]
      have hwait : t.callIbh.waiting = t.waiting := by
        rw [waiting, waiting, hbusy, hidle', hu]
        simp [hneeds]
      have hnone : t.current = none := hx
      rw [hu] at hidle' hwait ⊢
      refine { h with
        metas := ?_, invalid := by simp [hidle'], order := hwait ▸ h.order
        headers := by simpa [hnone] using h.headers }
      rw [hidle']
      exact fun y hy => h.metas y (List.mem_append_right _ hy)
    · -- a new request gets its number
      rw [if_neg hop] at hu
      obtain ⟨hpsn, hu⟩ := hu
      have hneeds : needsNumber t.ibh.metaReg = true := by
        have hv : t.ibh.metaReg.validPSN = false := hvalid
        simp [needsNumber, hv, hop]
      rw [if_pos hneeds] at hx
      have hidle' : t.callIbh.working = [] := by simp [working, hu, hgi]
      have hwait : t.waiting = t.current :: t.callIbh.waiting := by
        rw [waiting, waiting, hbusy, hidle', hu]
        simp [hneeds]
      have hsome : t.current.isSome = true := by
        obtain ⟨n, m, hno, -⟩ := hx
        have hcur : t.current = some n := hno
        rw [hcur]
        rfl
      have horder := h.order
      rw [hwait] at horder
      rw [hu] at hidle' horder ⊢
      refine { h with
        metas := ?_, invalid := by simp [hidle'], order := by simpa using horder, log := ?_
        headers := by simp [hsome, hpsn, h.headers], joined := ?_ }
      · rw [hidle']
        exact fun y hy => h.metas y (List.mem_append_right _ hy)
      · refine List.forall_mem_append.mpr ⟨h.log, fun y hy => ?_⟩
        rw [List.mem_singleton.mp hy]
        exact ⟨_, rfl, hx⟩
      · obtain ⟨done, as, hdone, has, hlen, he⟩ := h.joined
        exact ⟨done, as, by simp [hdone], has, hlen, he⟩
  · rw [hu]
    exact h

/-! ### `merge_retrans_request` -/

theorem inv_callMerge (h : Inv t) : Inv t.callMerge := by
  obtain ⟨done, as, hdone, has, hlen, he⟩ := h.joined
  unfold callMerge
  cases hm : t.insertMeta with
  | nil =>
    simp only [Roce.mergeRetransRequest, List.append_nil]
    rw [← hm]
    exact h
  | cons m ms =>
    cases ha : t.insertAddrLen with
    | nil =>
      simp only [Roce.mergeRetransRequest, List.append_nil]
      rw [← hm, ← ha]
      exact h
    | cons a rest =>
      refine { h with joined := ⟨done ++ [m], as ++ [a], ?_, ?_, ?_, ?_⟩ }
      · simp [Roce.mergeRetransRequest, hdone, hm]
      · simp [Roce.mergeRetransRequest, has, ha]
      · simp [hlen]
      · simp only [Roce.mergeRetransRequest]
        rw [he, List.zipWith_append hlen]
        rfl

/-! ## Main result -/

theorem inv_step {l : RecordLabel} (h : Inv t) (hok : supported t l) (hs : t.step l = some u) : Inv u := by
  cases l with
  | post m =>
    cases hs
    refine { h with posted := ?_ }
    intro m' hm'
    rcases List.mem_append.mp hm' with hm' | hm'
    · exact h.posted m' hm'
    · rw [List.mem_singleton.mp hm']
      exact hok
  | readEvent op qpn length psn =>
    cases hs
    refine { h with reads := ?_ }
    intro ev hev
    rcases List.mem_append.mp hev with hev | hev
    · exact h.reads ev hev
    · rw [List.mem_singleton.mp hev]
  | retransmit r | ackEvent r | connection r | stateRsp r =>
    cases hs
    exact { h with }
  | localReqHandler =>
    cases hs
    exact inv_callLocal h
  | metaMerger =>
    cases hs
    exact inv_callMerger h
  | generateIbh =>
    cases hs
    exact inv_callIbh h
  | mergeRetransRequest =>
    cases hs
    exact inv_callMerge h

theorem Inv.meta_eq (h : Inv t) {k : Nat} {x : RetransMeta × Option Nat} (hx : t.metaLog[k]? = some x) :
    ∃ m, t.requests[k]? = some m ∧ x.2 = some k ∧ x.1.qpn = m.qpn.setWidth 16 ∧ x.1.opCode = m.opCode := by
  have hlt : k < t.metaLog.length := (List.getElem?_eq_some_iff.mp hx).1
  obtain ⟨qpn, hqpn, n, m, hno, hm, hop, hq⟩ := h.log x (List.mem_of_getElem? hx)
  have hk : ((List.range t.requests.length).map some)[k]? = some x.2 := by
    rw [← h.order, List.getElem?_append_left (by rw [List.length_map]; exact hlt), List.getElem?_map, hx]
    rfl
  have hno' : x.2 = some k := by
    rw [List.getElem?_map, List.getElem?_range] at hk
    · exact (Option.some.inj hk).symm
    · by_contra hge
      rw [List.getElem?_eq_none (by rw [List.length_range]; omega)] at hk
      cases hk
  rw [hno'] at hno
  cases hno
  refine ⟨m, hm, hno', ?_, hop⟩
  rw [hqpn, hq, BitVec.setWidth_setWidth_of_le _ (by decide)]

/-- A record is made from the halves of one request. -/
theorem Inv.entry_eq (h : Inv t) {k : Nat} {e : RetransEntry} (hke : t.entries[k]? = some e) :
    ∃ m hd, t.requests[k]? = some m ∧ (hd, some k) ∈ t.headers ∧
      e = ⟨m.qpn.setWidth 16, hd.psn, m.opCode, m.laddr, m.raddr, m.length, m.lst, m.offs⟩ := by
  obtain ⟨done, as, hdone, has, hlen, he⟩ := h.joined
  rw [he, List.getElem?_zipWith_eq_some] at hke
  obtain ⟨rm, al, hrm, hal, hmerge⟩ := hke
  -- the half of `generate_ibh`
  have hlog : (t.metaLog.map Prod.fst)[k]? = some rm := by
    rw [hdone, List.getElem?_append_left (List.getElem?_eq_some_iff.mp hrm).1]
    exact hrm
  rw [List.getElem?_map, Option.map_eq_some_iff] at hlog
  obtain ⟨x, hx, rfl⟩ := hlog
  obtain ⟨m, hm, hno, hqpn, hop⟩ := h.meta_eq hx
  -- the half of `local_req_handler`
  have haddr : (t.addrLog.map Prod.fst)[k]? = some al := by
    rw [has, List.getElem?_append_left (List.getElem?_eq_some_iff.mp hal).1]
    exact hal
  have hal' : al = m.addrLen := by
    simp only [h.addrLens, List.map_map, List.getElem?_map, List.getElem?_zipIdx, hm] at haddr
    exact (Option.some.inj haddr).symm
  -- the header
  have hmem : (x.1.psn, x.2) ∈ (t.headers.filter fun y => y.2.isSome).map fun y => (y.1.psn, y.2) := by
    rw [h.headers]
    exact List.mem_map.mpr ⟨x, List.mem_of_getElem? hx, rfl⟩
  obtain ⟨y, hy, hyx⟩ := List.mem_map.mp hmem
  have hpsn : y.1.psn = x.1.psn := congrArg Prod.fst hyx
  have hyno : y.2 = some k := (congrArg Prod.snd hyx).trans hno
  refine ⟨m, y.1, hm, ?_, ?_⟩
  · rw [← hyno]
    exact (List.mem_filter.mp hy).1
  · rw [← hmerge, hal', RetransEntry.merge, hqpn, hop, hpsn]
    rfl

-- Retransmitted, a record asks for what the request asked for.
theorem replay_eq {m : TxMeta} (hm : Roce.forwarded m.opCode = true) (psn : BitVec 24) {e : RetransEntry}
    (he : e = ⟨m.qpn.setWidth 16, psn, m.opCode, m.laddr, m.raddr, m.length, m.lst, m.offs⟩) :
    (Roce.localReqHandler ⟨[(RetransMetaEntry.ofEntry e).event e.qpn], []⟩).2.txLocalTxMeta =
        [{ m.event with psn, validPsn := true }] ∧
      (Roce.localReqHandler ⟨[(RetransMetaEntry.ofEntry e).event e.qpn], []⟩).2.txLocalMemCmdFifo.map
          (fun c => (c.opCode, c.qpn, c.addr, c.len)) =
        (Roce.localReqHandler ⟨[], [m]⟩).2.txLocalMemCmdFifo.map fun c => (c.opCode, c.qpn, c.addr, c.len) := by
  have hlt : m.qpn.toNat < 2 ^ 10 := m.qpn.isLt
  have hqpn : ((m.qpn.setWidth 16).setWidth 24 : BitVec 24) = m.qpn.setWidth 24 := by
    apply BitVec.eq_of_toNat_eq
    simp only [BitVec.toNat_setWidth]
    omega
  have hqpn' : ((m.qpn.setWidth 24).setWidth 16 : BitVec 16) = m.qpn.setWidth 16 :=
    BitVec.setWidth_setWidth_of_le _ (by decide)
  subst he
  simp only [Roce.localReqHandler, RetransMetaEntry.event, RetransMetaEntry.ofEntry, TxMeta.event, hqpn, hqpn',
    true_and]
  cases hop : m.opCode <;> rw [hop] at hm <;>
    first
    | (simp [Roce.forwarded, sendsData] at hm; done)
    | simp [sendsData]

theorem Inv.recorded (h : Inv t) : Recorded t := by
  refine ⟨h.addrLens, fun k x hx => h.meta_eq hx, h.headers, fun k e hke => h.entry_eq hke, ?_⟩
  intro k e hke
  obtain ⟨m, hd, hm, hhd, he⟩ := h.entry_eq hke
  exact ⟨m, hd, hm, hhd, replay_eq (h.taken m (List.mem_of_getElem? hm)) hd.psn he⟩

/-- In every run whose new requests have a supported opcode, the two halves of every record belong to the same
request and no retransmission makes a record. -/
theorem records_describe_requests {t : RecordNet} (h : Reach step supported {} t) : Recorded t :=
  (h.invariant (P := Inv) inv_init fun _ _ _ hu hok hs => inv_step hu hok hs).recorded

/-- The requests of the run below: a write and a read. -/
def twoRequests : List TxMeta :=
  [{ opCode := RC_RDMA_WRITE_ONLY, qpn := 3, params := 64 <<< 128 ||| 0x2000 <<< 64 ||| 0x1000 },
    { opCode := RC_RDMA_READ_REQUEST, qpn := 5, params := 9000 <<< 128 ||| 0x4000 <<< 64 ||| 0x3000 }]

/-- A write, a retransmission and a read, with an acknowledgement between them. -/
def recordRun : List RecordLabel :=
  [.post twoRequests[0], .localReqHandler,
    .retransmit ⟨RC_RDMA_WRITE_ONLY, 3, 0x1000, 0x2000, 64, 77, 0, 0⟩, .post twoRequests[1], .localReqHandler,
    .localReqHandler, .ackEvent ⟨3, 9, false, false⟩, .metaMerger, .metaMerger, .metaMerger, .metaMerger,
    .connection 1, .connection 1, .connection 1, .connection 2,
    .generateIbh, .stateRsp {}, .generateIbh, .generateIbh, .stateRsp { reqNextPsn := 100 }, .generateIbh,
    .generateIbh, .generateIbh, .stateRsp { reqNextPsn := 200 }, .generateIbh,
    .mergeRetransRequest, .mergeRetransRequest]

-- Two records come out of this run, and nothing for the retransmission.
theorem records_describe_two : ∃ t, Reach step supported {} t ∧ Recorded t ∧
    t.entries.map (fun e => (e.qpn, e.psn, e.localAddr)) = [(3, 100, 0x1000), (5, 200, 0x3000)] := by
  have hrun : (runIf step supported {} recordRun).map
      (fun t => t.entries.map fun e => (e.qpn, e.psn, e.localAddr)) =
        some [(3, 100, 0x1000), (5, 200, 0x3000)] := by
    decide +kernel
  obtain ⟨t, ht, hval⟩ := Option.map_eq_some_iff.mp hrun
  have hreach := reach_of_runIf ht
  exact ⟨t, hreach, records_describe_requests hreach, hval⟩

end RecordNet

end FpgaNetworkStack.Roce
