import FpgaNetworkStack.Roce.RetransNet
import FpgaNetworkStack.Roce.TransportTimer
import FpgaNetworkStack.Roce.TxHeaders

/-!
# Indices of the tables

Every table of the stack is indexed by a queue pair number that came in with a packet, a request of the
application or a connection, and no process looks at its size.  The network below has all processes that hold
such a number, and records the entries that are accessed.
-/

namespace FpgaNetworkStack.Roce

open Lib IbOpCode

def InMeta (i : MetaIdx) : Prop := i.toNat < META_TABLE_SIZE

theorem inMeta_zero : InMeta 0 := by
  show (0 : MetaIdx).toNat < META_TABLE_SIZE
  decide

/-! ## The retransmitter -/

def RetransMetaReq.Within : RetransMetaReq → Prop
  | .read idx => InMeta idx
  | .append idx next => InMeta idx ∧ InMeta next
  | .write idx entry => InMeta idx ∧ InMeta entry.next

def RetransMetaReq.idx : RetransMetaReq → MetaIdx
  | .read idx | .append idx _ | .write idx _ => idx

theorem RetransMetaReq.Within.idx {r : RetransMetaReq} (h : r.Within) : InMeta r.idx := by
  cases r with
  | read i => exact h
  | append | write => exact h.1

theorem ofEntry_next (e : RetransEntry) : InMeta (RetransMetaEntry.ofEntry e).next := inMeta_zero

def RetransPointerEntry.Within (p : RetransPointerEntry) : Prop := InMeta p.head ∧ InMeta p.tail

-- `P` is what is known of the numbers that come in
variable {P : Qpn → Prop}

/-- The numbers and cells in the registers of `process_retransmissions`. -/
structure ProcessRetrans.Within (P : Qpn → Prop) (s : ProcessRetrans) : Prop where
  update : P s.update.qpn
  insert : P s.insert.qpn
  retrans : P s.retrans.qpn
  curr : InMeta s.curr
  newMetaIdx : InMeta s.newMetaIdx
  ptrMeta : s.ptrMeta.Within

structure ProcessRetransIn.Within (P : Qpn → Prop) (i : ProcessRetransIn) : Prop where
  update : ∀ v ∈ i.rx2retransUpd, P v.qpn
  nak : ∀ r ∈ i.rx2retransReq, P r.qpn
  timer : ∀ r ∈ i.timer2retransReq, P r.qpn
  insert : ∀ e ∈ i.tx2retransInsertRequest, P e.qpn
  pointer : ∀ p ∈ i.pointerRspFifo, p.Within
  cell : ∀ m ∈ i.metaRspFifo, InMeta m.next
  free : ∀ x ∈ i.freeListFifo, InMeta x

structure ProcessRetransOut.Within (P : Qpn → Prop) (o : ProcessRetransOut) : Prop where
  ptrReq : ∀ r ∈ o.pointerReqFifo, P r.qpn
  ptrUpd : ∀ v ∈ o.pointerUpdFifo, P v.qpn ∧ v.entry.Within
  metaReq : ∀ r ∈ o.metaReqFifo, r.Within
  release : ∀ x ∈ o.releaseFifo, InMeta x
  event : ∀ e ∈ o.retrans2event, ∃ q, P q ∧ e.qpn = q.setWidth 24

theorem ProcessRetransOut.within_empty : ProcessRetransOut.Within P {} := by
  constructor <;> simp

section
variable {s : ProcessRetrans} (h : s.Within P)
include h

variable {p : RetransPointerEntry}

theorem insert0_within (hp : p.Within) :
    (insert0 s p).1.Within P ∧ (insert0 s p).2.Within P := by
  unfold insert0
  split
  · refine ⟨{ h with ptrMeta := ⟨h.newMetaIdx, h.newMetaIdx⟩ }, ?_⟩
    constructor <;> simp [RetransMetaReq.Within, ofEntry_next, h.newMetaIdx, h.insert, RetransPointerEntry.Within]
  · refine ⟨{ h with ptrMeta := ⟨hp.1, h.newMetaIdx⟩ }, ?_⟩
    constructor <;> simp [RetransMetaReq.Within, h.newMetaIdx, hp.2]

theorem insert1_within : (insert1 s).1.Within P ∧ (insert1 s).2.Within P := by
  refine ⟨{ h with }, ?_⟩
  constructor <;> simp [insert1, RetransMetaReq.Within, ofEntry_next, h.newMetaIdx, h.insert, h.ptrMeta]

theorem update0_within (hp : p.Within) :
    (update0 s p).1.Within P ∧ (update0 s p).2.Within P := by
  unfold update0
  split
  · refine ⟨{ h with ptrMeta := hp, curr := hp.1 }, ?_⟩
    constructor <;> simp [RetransMetaReq.Within, hp.1]
  · refine ⟨{ h with ptrMeta := hp }, ?_⟩
    constructor <;> simp [h.update, hp]

variable {m : RetransMetaEntry}

theorem update1_within (hm : InMeta m.next) :
    (update1 s m).1.Within P ∧ (update1 s m).2.Within P := by
  have hadv : InMeta m.advance.next := hm
  unfold update1
  simp only
  split
  · exact ⟨{ h with }, ProcessRetransOut.within_empty⟩
  · split
    · refine ⟨{ h with }, ?_⟩
      constructor <;> simp [RetransMetaReq.Within, h.ptrMeta, h.ptrMeta.1, h.update, hadv]
    · refine ⟨{ h with ptrMeta := ⟨hm, h.ptrMeta.2⟩, curr := hm }, ?_⟩
      constructor <;> simp [RetransPointerEntry.Within, h.ptrMeta.2, h.update, h.curr, hm]

theorem retrans0_within (hp : p.Within) :
    (retrans0 s p).1.Within P ∧ (retrans0 s p).2.Within P := by
  unfold retrans0
  split
  · refine ⟨{ h with ptrMeta := hp, curr := hp.1 }, ?_⟩
    constructor <;> simp [RetransMetaReq.Within, hp.1]
  · exact ⟨{ h with ptrMeta := hp }, ProcessRetransOut.within_empty⟩

theorem timerRetrans0_within (hp : p.Within) :
    (timerRetrans0 s p).1.Within P ∧ (timerRetrans0 s p).2.Within P := by
  unfold timerRetrans0
  split
  · refine ⟨{ h with ptrMeta := hp }, ?_⟩
    constructor <;> simp [RetransMetaReq.Within, hp.1]
  · exact ⟨{ h with ptrMeta := hp }, ProcessRetransOut.within_empty⟩

theorem retrans1_within (hm : InMeta m.next) :
    (retrans1 s m).1.Within P ∧ (retrans1 s m).2.Within P := by
  unfold retrans1
  split
  · refine ⟨{ h with }, ?_⟩
    constructor
    · simp
    · simp
    · cases m.isTail <;> simp [RetransMetaReq.Within, hm]
    · simp
    · cases m.psn == s.retrans.psn <;> simp [RetransMetaEntry.event]
      exact ⟨s.retrans.qpn, h.retrans, rfl⟩
  · exact ⟨{ h with }, ProcessRetransOut.within_empty⟩

theorem retrans2_within (hm : InMeta m.next) :
    (retrans2 s m).1.Within P ∧ (retrans2 s m).2.Within P := by
  unfold retrans2
  split
  · refine ⟨{ h with }, ?_⟩
    constructor
    · simp
    · simp
    · cases m.isTail <;> simp [RetransMetaReq.Within, hm]
    · simp
    · simp only [List.mem_singleton, forall_eq]
      exact ⟨s.retrans.qpn, h.retrans, rfl⟩
  · exact ⟨{ h with }, ProcessRetransOut.within_empty⟩

variable {i : ProcessRetransIn} (hi : i.Within P)
include hi

theorem retransMain_within : (retransMain s i).1.Within P ∧ (retransMain s i).2.1.Within P ∧
    (retransMain s i).2.2.Within P := by
  unfold retransMain
  split
  · next update rest hupd =>
      have hq := List.forall_mem_cons.mp (hupd ▸ hi.update)
      exact ⟨{ h with update := hq.1 }, { hi with update := hq.2 }, by constructor <;> simp [hq.1]⟩
  · next retrans rest _ hreq =>
      have hq := List.forall_mem_cons.mp (hreq ▸ hi.nak)
      exact ⟨{ h with retrans := hq.1 }, { hi with nak := hq.2 }, by constructor <;> simp [hq.1]⟩
  · next retrans rest _ _ hreq =>
      have hq := List.forall_mem_cons.mp (hreq ▸ hi.timer)
      exact ⟨{ h with retrans := hq.1 }, { hi with timer := hq.2 }, by constructor <;> simp [hq.1]⟩
  · next insert rest idx free _ _ _ hins hfree =>
      have hq := List.forall_mem_cons.mp (hins ▸ hi.insert)
      have hf := List.forall_mem_cons.mp (hfree ▸ hi.free)
      exact ⟨{ h with insert := hq.1, newMetaIdx := hf.1 }, { hi with insert := hq.2, free := hf.2 },
        by constructor <;> simp [hq.1]⟩
  · exact ⟨h, hi, ProcessRetransOut.within_empty⟩

theorem withPointer_within {f : RetransPointerEntry → ProcessRetrans × ProcessRetransOut}
    (hf : ∀ p : RetransPointerEntry, p.Within → (f p).1.Within P ∧ (f p).2.Within P) :
    (withPointer i s f).1.Within P ∧ (withPointer i s f).2.1.Within P ∧ (withPointer i s f).2.2.Within P := by
  unfold withPointer
  split
  · exact ⟨h, hi, ProcessRetransOut.within_empty⟩
  · next p rest hrsp =>
      have hp := List.forall_mem_cons.mp (hrsp ▸ hi.pointer)
      exact ⟨(hf p hp.1).1, { hi with pointer := hp.2 }, (hf p hp.1).2⟩

theorem withMeta_within {f : RetransMetaEntry → ProcessRetrans × ProcessRetransOut}
    (hf : ∀ m : RetransMetaEntry, InMeta m.next → (f m).1.Within P ∧ (f m).2.Within P) :
    (withMeta i s f).1.Within P ∧ (withMeta i s f).2.1.Within P ∧ (withMeta i s f).2.2.Within P := by
  unfold withMeta
  split
  · exact ⟨h, hi, ProcessRetransOut.within_empty⟩
  · next m rest hrsp =>
      have hm := List.forall_mem_cons.mp (hrsp ▸ hi.cell)
      exact ⟨(hf m hm.1).1, { hi with cell := hm.2 }, (hf m hm.1).2⟩

/-- `process_retransmissions` makes up neither numbers nor cells. -/
theorem processRetransmissions_within : (processRetransmissions s i).1.Within P ∧
    (processRetransmissions s i).2.1.Within P ∧ (processRetransmissions s i).2.2.Within P := by
  unfold processRetransmissions
  split
  · exact retransMain_within h hi
  · exact withPointer_within h hi fun _ => insert0_within h
  · exact ⟨(insert1_within h).1, hi, (insert1_within h).2⟩
  · exact withPointer_within h hi fun _ => update0_within h
  · exact withMeta_within h hi fun _ => update1_within h
  · exact withPointer_within h hi fun _ => retrans0_within h
  · exact withMeta_within h hi fun _ => retrans1_within h
  · exact withMeta_within h hi fun _ => retrans2_within h
  · exact withPointer_within h hi fun _ => timerRetrans0_within h

end

/-! ## The processes -/

/-- An event; those that start the timer have a number of 16 bits. -/
structure Event.Within (P : Qpn → Prop) (e : Event) : Prop where
  qpn : P (e.qpn.setWidth 16)
  short : setsTimer e.opCode = true → e.qpn = (e.qpn.setWidth 16).setWidth 24

/-- Everything `rx_ibh_fsm` writes for a packet is about its queue pair. -/
theorem process_qpn (m : IbhMeta) (emeta : ExhMeta) (isResponse : Bool) (r : RxStateRsp) :
    (∀ q ∈ (process m emeta isResponse r).stateTableUpdReq, q.qpn = m.destQp.setWidth 16) ∧
    (∀ x ∈ (process m emeta isResponse r).metaOut, x.destQp = m.destQp) ∧
    (∀ a ∈ (process m emeta isResponse r).ibhEventFifo, a.qpn = m.destQp) ∧
    (∀ v ∈ (process m emeta isResponse r).rxClearTimerReq, v.qpn = m.destQp.setWidth 16) ∧
    ∀ v ∈ (process m emeta isResponse r).rx2retransUpd, v.qpn = m.destQp.setWidth 16 := by
  unfold process
  split
  · simp only [processInOrder]
    refine ⟨?_, ?_, ?_, ?_, ?_⟩ <;> (try split) <;> simp [RxStateReq.accept, IbhMeta.forward]
  · split
    · unfold processDuplicate
      split
      · simp [IbhMeta.forward]
      · split <;> simp
    · unfold processInvalid
      split <;> simp [RxStateReq.retry]

theorem data_qpn {s : RxExhFsm} {out : RxExhFsmOut} (h : s.data = some out) :
    (∀ r ∈ out.rx2retransReq, r.qpn = s.metaReg.destQp.setWidth 16) ∧
    (∀ r ∈ out.readRequestFifo, r.qpn = s.metaReg.destQp) ∧
    (∀ r ∈ out.rxExh2msnTableUpdReq, r.qpn = s.metaReg.destQp.setWidth 16) ∧
    ∀ a ∈ out.rxExhEventMetaFifo, a.qpn = s.metaReg.destQp := by
  have hnak : ∀ r ∈ s.nak, r.qpn = s.metaReg.destQp.setWidth 16 := by
    unfold RxExhFsm.nak
    split <;> simp
  have hrequest : (∀ r ∈ s.readRequest.readRequestFifo, r.qpn = s.metaReg.destQp) ∧
      ∀ r ∈ s.readRequest.rxExh2msnTableUpdReq, r.qpn = s.metaReg.destQp.setWidth 16 := by
    unfold RxExhFsm.readRequest
    split <;> simp [RxMsnReq.count]
  have hempty : s.readRequest.rx2retransReq = [] ∧ s.readRequest.rxExhEventMetaFifo = [] := by
    unfold RxExhFsm.readRequest
    split <;> simp
  unfold RxExhFsm.data RxExhFsm.rdmaWriteFirst at h
  split at h <;> (try split at h) <;> cases h <;>
    first
    | exact ⟨by simp [hempty], hrequest.1, hrequest.2, by simp [hempty]⟩
    | simp [RxExhFsm.send, RxExhFsm.rdmaWrite, RxExhFsm.rdmaWriteNext, RxExhFsm.readResp, RxExhFsm.ack,
        RxMsnReq.count, RxMsnReq.store]; done
    | exact ⟨hnak, by simp [RxExhFsm.readResp], by simp [RxExhFsm.readResp, RxMsnReq.store],
        by simp [RxExhFsm.readResp]⟩

/-! ## What the tables access -/

def StateTableIn.accessed (i : StateTableIn) : List Qpn :=
  match i.rxIbh2stateTableUpdReq, i.txIbh2stateTableUpdReq, i.qpi2stateTableUpdReq with
  | r :: _, _, _ => [r.qpn]
  | [], r :: _, _ => [r.qpn]
  | [], [], r :: _ => [r.qpn]
  | [], [], [] => []

def MsnTableIn.accessed (i : MsnTableIn) : List Qpn :=
  match i.rxExh2msnTableUpdReq, i.txExh2msnTableReq, i.if2msnTableInit with
  | r :: _, _, _ => [r.qpn]
  | [], qpn :: _, _ => [qpn]
  | [], [], r :: _ => [r.qpn]
  | [], [], [] => []

def ConnTableIn.accessed (i : ConnTableIn) : List Qpn :=
  match i.txIbhconnTableReq, i.qpi2connTableReq with
  | qpn :: _, _ => [qpn]
  | [], r :: _ => [r.qpn]
  | [], [] => []

/-- A request that has to wait for the lock accesses the table later. -/
def PointerTable.accessed (s : PointerTable) (i : PointerTableIn) : List Qpn :=
  match i.pointerUpdFifo, i.pointerReqFifo, s.wait with
  | upd :: _, _, _ => [upd.qpn]
  | [], req :: _, false => if req.lock && s.isLocked then [] else [req.qpn]
  | [], _, true => if s.isLocked then [] else [s.req.qpn]
  | [], [], false => []

theorem stateTable_accessed {table table' : Qpn → StateTableEntry} {i : StateTableIn}
    (h : ∀ q ∈ i.accessed, table q = table' q) : (stateTable table i).2 = (stateTable table' i).2 ∧
      ∀ q, q ∉ i.accessed → (stateTable table i).1 q = table q := by
  unfold StateTableIn.accessed at h ⊢
  unfold stateTable
  split at h <;> simp_all <;> split <;> simp_all [Function.update_of_ne]

theorem msnTable_accessed {table table' : Qpn → DmaState} {i : MsnTableIn}
    (h : ∀ q ∈ i.accessed, table q = table' q) : (msnTable table i).2 = (msnTable table' i).2 ∧
      ∀ q, q ∉ i.accessed → (msnTable table i).1 q = table q := by
  unfold MsnTableIn.accessed at h ⊢
  unfold msnTable
  split at h <;> simp_all
  split <;> simp_all [Function.update_of_ne]

theorem connTable_accessed {table table' : Qpn → ConnTableEntry} {i : ConnTableIn}
    (h : ∀ q ∈ i.accessed, table q = table' q) : (connTable table i).2 = (connTable table' i).2 ∧
      ∀ q, q ∉ i.accessed → (connTable table i).1 q = table q := by
  unfold ConnTableIn.accessed at h ⊢
  unfold connTable
  split at h <;> simp_all

theorem retransPointerTable_accessed {s : PointerTable} {i : PointerTableIn}
    {table' : Qpn → RetransPointerEntry} (h : ∀ q ∈ s.accessed i, s.ptrTable q = table' q) :
    (retransPointerTable s i).2 = (retransPointerTable { s with ptrTable := table' } i).2 ∧
      ∀ q, q ∉ s.accessed i → (retransPointerTable s i).1.ptrTable q = s.ptrTable q := by
  unfold PointerTable.accessed at h ⊢
  unfold retransPointerTable
  split at h <;> simp_all <;> split <;> simp_all

theorem retransMetaTable_accessed {table table' : MetaIdx → RetransMetaEntry} {reqs : List RetransMetaReq}
    (h : ∀ r ∈ reqs.head?, table r.idx = table' r.idx) :
    (retransMetaTable table reqs).2 = (retransMetaTable table' reqs).2 ∧
      ∀ x, (∀ r ∈ reqs.head?, x ≠ r.idx) → (retransMetaTable table reqs).1 x = table x := by
  cases reqs with
  | nil => simp [retransMetaTable]
  | cons r rest => cases r <;> simp_all [retransMetaTable, RetransMetaReq.idx, RetransMetaReq.reply, RetransMetaReq.apply]

/-! ## The network -/

inductive QpTable where
  | state_table | msn_table | conn_table | ptr_table | transportTimerTable
  deriving DecidableEq, Repr

structure IndexNet where
  ibh : RxIbhFsm := {}
  ibhIn : RxIbhFsmIn := {}
  states : Qpn → StateTableEntry := fun _ => {}
  statesIn : StateTableIn := {}
  exh : RxExhFsm := {}
  exhIn : RxExhFsmIn := {}
  msn : Qpn → DmaState := fun _ => {}
  msnIn : MsnTableIn := {}
  reads : HandleReadRequests := {}
  readRequestFifo : List ReadRequest := []
  rxExhEventMetaFifo : List AckEvent := []
  rxIbhEventFifo : List AckEvent := []
  localIn : LocalReqIn := {}
  mergerIn : MetaMergerIn := {}
  conn : Qpn → ConnTableEntry := fun _ => {}
  connIn : ConnTableIn := {}
  udpIn : IpUdpMergerIn := {}
  ibhGen : GenerateIbh := {}
  ibhGenIn : GenerateIbhIn := {}
  exhGen : GenerateExh := {}
  exhGenIn : GenerateExhIn := {}
  insertMeta : List RetransMeta := []
  insertAddrLen : List RetransAddrLen := []
  timer : TransportTimer := {}
  timerIn : TransportTimerIn := {}
  retrans : RetransNet := {}
  qpi : QpInterface := {}
  qpiIn : QpInterfaceIn := {}
  /-- The entries accessed so far. -/
  accesses : List (QpTable × Nat) := []
  cells : List MetaIdx := []

/-- Packets with their headers and lengths, requests of the application, and connections come at any time;
`full` is the state of the FIFO behind the timer. -/
inductive IndexLabel where
  | ibh (m : IbhMeta)
  | exhMeta (e : ExhMeta)
  | udpLength (n : BitVec 16)
  | header (h : BitVec RETH_SIZE)
  | sqMeta (m : TxMeta)
  | qpContext (c : QpContext)
  | connReq (r : IfConnReq)
  | rxIbhFsm | stateTable | rxExhFsm | msnTable | handleReadRequests | streamMerger | localReqHandler
  | metaMerger | connTable | txIpUdpMetaMerger | generateIbh | generateExh | mergeRetransRequest
  | transportTimer (full : Bool)
  | process | pointerTable | metaTable | freelist | qpInterface

namespace IndexNet

def callIbh (t : IndexNet) : IndexNet :=
  let (ibh, ibhIn, out) := rxIbhFsm t.ibh t.ibhIn
  { t with
    ibh, ibhIn
    statesIn := { t.statesIn with
      rxIbh2stateTableUpdReq := t.statesIn.rxIbh2stateTableUpdReq ++ out.stateTableUpdReq }
    exhIn := { t.exhIn with metaIn := t.exhIn.metaIn ++ out.metaOut }
    rxIbhEventFifo := t.rxIbhEventFifo ++ out.ibhEventFifo
    timerIn := { t.timerIn with rxClearTimerReq := t.timerIn.rxClearTimerReq ++ out.rxClearTimerReq }
    retrans := { t.retrans with inp := { t.retrans.inp with
      rx2retransUpd := t.retrans.inp.rx2retransUpd ++ out.rx2retransUpd } } }

def callStateTable (t : IndexNet) : IndexNet :=
  let (states, statesIn, out) := stateTable t.states t.statesIn
  { t with
    states, statesIn
    ibhIn := { t.ibhIn with stateTableRsp := t.ibhIn.stateTableRsp ++ out.stateTable2rxIbhRsp }
    ibhGenIn := { t.ibhGenIn with
      stateTable2txIbhRsp := t.ibhGenIn.stateTable2txIbhRsp ++ out.stateTable2txIbhRsp }
    qpiIn := { t.qpiIn with stateTable2qpiRsp := t.qpiIn.stateTable2qpiRsp ++ out.stateTable2qpiRsp }
    accesses := t.accesses ++ t.statesIn.accessed.map fun q => (.state_table, q.toNat) }

def callExh (t : IndexNet) : IndexNet :=
  let (exh, exhIn, out) := rxExhFsm t.exh t.exhIn
  { t with
    exh, exhIn
    msnIn := { t.msnIn with
      rxExh2msnTableUpdReq := t.msnIn.rxExh2msnTableUpdReq ++ out.rxExh2msnTableUpdReq }
    readRequestFifo := t.readRequestFifo ++ out.readRequestFifo
    rxExhEventMetaFifo := t.rxExhEventMetaFifo ++ out.rxExhEventMetaFifo
    retrans := { t.retrans with inp := { t.retrans.inp with
      rx2retransReq := t.retrans.inp.rx2retransReq ++ out.rx2retransReq } } }

def callMsnTable (t : IndexNet) : IndexNet :=
  let (msn, msnIn, out) := msnTable t.msn t.msnIn
  { t with
    msn, msnIn
    exhIn := { t.exhIn with msnTable2rxExhRsp := t.exhIn.msnTable2rxExhRsp ++ out.msnTable2rxExhRsp }
    exhGenIn := { t.exhGenIn with msnTable2txExhRsp := t.exhGenIn.msnTable2txExhRsp ++ out.msnTable2txExhRsp }
    accesses := t.accesses ++ t.msnIn.accessed.map fun q => (.msn_table, q.toNat) }

def callReadRequests (t : IndexNet) : IndexNet :=
  let (reads, readRequestFifo, out) := handleReadRequests t.reads t.readRequestFifo
  { t with
    reads, readRequestFifo
    mergerIn := { t.mergerIn with rxReadEvenFifo := t.mergerIn.rxReadEvenFifo ++ out.readEventFifo } }

/-- `stream_merger`: the events of `rx_exh_fsm` first. -/
def callStreamMerger (t : IndexNet) : IndexNet :=
  match t.rxExhEventMetaFifo, t.rxIbhEventFifo with
  | a :: rest, _ =>
    { t with
      rxExhEventMetaFifo := rest
      mergerIn := { t.mergerIn with rxAckEventFifo := t.mergerIn.rxAckEventFifo ++ [a] } }
  | [], a :: rest =>
    { t with
      rxIbhEventFifo := rest
      mergerIn := { t.mergerIn with rxAckEventFifo := t.mergerIn.rxAckEventFifo ++ [a] } }
  | [], [] => t

def callLocalReq (t : IndexNet) : IndexNet :=
  let (localIn, out) := localReqHandler t.localIn
  { t with
    localIn
    mergerIn := { t.mergerIn with txAppMetaFifo := t.mergerIn.txAppMetaFifo ++ out.txLocalTxMeta }
    insertAddrLen := t.insertAddrLen ++ out.tx2retransInsertAddrLen }

def callMetaMerger (t : IndexNet) : IndexNet :=
  let (mergerIn, out) := metaMerger t.mergerIn
  { t with
    mergerIn
    connIn := { t.connIn with txIbhconnTableReq := t.connIn.txIbhconnTableReq ++ out.txConnTableReq }
    ibhGenIn := { t.ibhGenIn with metaIn := t.ibhGenIn.metaIn ++ out.txIbhMetaFifo }
    exhGenIn := { t.exhGenIn with metaIn := t.exhGenIn.metaIn ++ out.txExhMetaFifo } }

def callConnTable (t : IndexNet) : IndexNet :=
  let (conn, connIn, out) := connTable t.conn t.connIn
  { t with
    conn, connIn
    udpIn := { t.udpIn with txConnTable2ibhRsp := t.udpIn.txConnTable2ibhRsp ++ out }
    accesses := t.accesses ++ t.connIn.accessed.map fun q => (.conn_table, q.toNat) }

def callIpUdp (t : IndexNet) : IndexNet :=
  let (udpIn, _, dstQp) := txIpUdpMetaMerger t.udpIn
  { t with udpIn, ibhGenIn := { t.ibhGenIn with dstQpIn := t.ibhGenIn.dstQpIn ++ dstQp } }

def callGenerateIbh (t : IndexNet) : IndexNet :=
  let (ibhGen, ibhGenIn, out) := generateIbh t.ibhGen t.ibhGenIn
  { t with
    ibhGen, ibhGenIn
    statesIn := { t.statesIn with
      txIbh2stateTableUpdReq := t.statesIn.txIbh2stateTableUpdReq ++ out.txIbh2stateTableUpdReq }
    insertMeta := t.insertMeta ++ out.tx2retransInsertMeta }

def callGenerateExh (W : Nat) (t : IndexNet) : IndexNet :=
  let (exhGen, exhGenIn, out) := generateExh W t.exhGen t.exhGenIn
  { t with
    exhGen, exhGenIn
    msnIn := { t.msnIn with txExh2msnTableReq := t.msnIn.txExh2msnTableReq ++ out.txExh2msnTableReq }
    udpIn := { t.udpIn with txLengthFifo := t.udpIn.txLengthFifo ++ out.lengthFifo }
    timerIn := { t.timerIn with txSetTimerReq := t.timerIn.txSetTimerReq ++ out.txSetTimerReq } }

def callMergeRetrans (t : IndexNet) : IndexNet :=
  let (insertMeta, insertAddrLen, out) := mergeRetransRequest t.insertMeta t.insertAddrLen
  { t with
    insertMeta, insertAddrLen
    retrans := { t.retrans with inp := { t.retrans.inp with
      tx2retransInsertRequest := t.retrans.inp.tx2retransInsertRequest ++ out } } }

def callTimer (t : IndexNet) (full : Bool) : IndexNet :=
  let (timer, timerIn, out) := t.timer.call t.timerIn full
  { t with
    timer, timerIn
    retrans := { t.retrans with inp := { t.retrans.inp with
      timer2retransReq := t.retrans.inp.timer2retransReq ++ out } }
    accesses := t.accesses ++ [(.transportTimerTable, t.timer.accessed t.timerIn)] }

def callProcess (t : IndexNet) : IndexNet :=
  let (retrans, out) := t.retrans.callProcess
  { t with
    retrans
    exhIn := { t.exhIn with retrans2rxInit := t.exhIn.retrans2rxInit ++ out.retrans2rxInit }
    localIn := { t.localIn with retransEventFifo := t.localIn.retransEventFifo ++ out.retrans2event } }

def callPointerTable (t : IndexNet) : IndexNet :=
  let (ptr, ptrIn, out) := retransPointerTable t.retrans.ptr t.retrans.ptrIn
  { t with
    retrans := { t.retrans with
      ptr, ptrIn
      inp := { t.retrans.inp with pointerRspFifo := t.retrans.inp.pointerRspFifo ++ out } }
    accesses := t.accesses ++ (t.retrans.ptr.accessed t.retrans.ptrIn).map fun q => (.ptr_table, q.toNat) }

def callMetaTable (t : IndexNet) : IndexNet :=
  let (metaTable, metaReq, out) := retransMetaTable t.retrans.metaTable t.retrans.metaReq
  { t with
    retrans := { t.retrans with
      metaTable, metaReq, inp := { t.retrans.inp with metaRspFifo := t.retrans.inp.metaRspFifo ++ out } }
    cells := t.cells ++ t.retrans.metaReq.head?.toList.map (·.idx) }

def callFreelist (t : IndexNet) : IndexNet :=
  let (freeListCounter, releaseFifo, out) :=
    freelistHandler t.retrans.freeListCounter t.retrans.releaseFifo t.retrans.inp.freeListFifo
  { t with
    retrans := { t.retrans with
      freeListCounter, releaseFifo
      inp := { t.retrans.inp with freeListFifo := t.retrans.inp.freeListFifo ++ out } } }

def callQpInterface (t : IndexNet) : IndexNet :=
  let (qpi, qpiIn, out) := qpInterface t.qpi t.qpiIn
  { t with
    qpi, qpiIn
    statesIn := { t.statesIn with
      qpi2stateTableUpdReq := t.statesIn.qpi2stateTableUpdReq ++ out.qpi2stateTableUpdReq }
    msnIn := { t.msnIn with if2msnTableInit := t.msnIn.if2msnTableInit ++ out.if2msnTableInit } }

def step (W : Nat) (t : IndexNet) : IndexLabel → Option IndexNet
  | .ibh m => some { t with ibhIn := { t.ibhIn with metaIn := t.ibhIn.metaIn ++ [m] } }
  | .exhMeta e => some { t with ibhIn := { t.ibhIn with exhMetaFifo := t.ibhIn.exhMetaFifo ++ [e] } }
  | .udpLength n => some { t with exhIn := { t.exhIn with udpLengthFifo := t.exhIn.udpLengthFifo ++ [n] } }
  | .header h => some { t with exhIn := { t.exhIn with headerInput := t.exhIn.headerInput ++ [h] } }
  | .sqMeta m => some { t with localIn := { t.localIn with sqMeta := t.localIn.sqMeta ++ [m] } }
  | .qpContext c => some { t with qpiIn := { t.qpiIn with contextIn := t.qpiIn.contextIn ++ [c] } }
  | .connReq r => some { t with connIn := { t.connIn with qpi2connTableReq := t.connIn.qpi2connTableReq ++ [r] } }
  | .rxIbhFsm => some t.callIbh
  | .stateTable => some t.callStateTable
  | .rxExhFsm => some t.callExh
  | .msnTable => some t.callMsnTable
  | .handleReadRequests => some t.callReadRequests
  | .streamMerger => some t.callStreamMerger
  | .localReqHandler => some t.callLocalReq
  | .metaMerger => some t.callMetaMerger
  | .connTable => some t.callConnTable
  | .txIpUdpMetaMerger => some t.callIpUdp
  | .generateIbh => some t.callGenerateIbh
  | .generateExh => some (t.callGenerateExh W)
  | .mergeRetransRequest => some t.callMergeRetrans
  | .transportTimer full => some (t.callTimer full)
  | .process => some t.callProcess
  | .pointerTable => some t.callPointerTable
  | .metaTable => some t.callMetaTable
  | .freelist => some t.callFreelist
  | .qpInterface => some t.callQpInterface

/-! ## What is known of the numbers -/

variable {t u : IndexNet}

/-- `P` holds of all numbers, and all cells are cells of the table. -/
structure Inv (P : Qpn → Prop) (t : IndexNet) : Prop where
  ibhReg : P (t.ibh.metaReg.destQp.setWidth 16)
  ibhMeta : ∀ m ∈ t.ibhIn.metaIn, P (m.destQp.setWidth 16)
  statesRx : ∀ r ∈ t.statesIn.rxIbh2stateTableUpdReq, P r.qpn
  statesTx : ∀ r ∈ t.statesIn.txIbh2stateTableUpdReq, P r.qpn
  statesQpi : ∀ r ∈ t.statesIn.qpi2stateTableUpdReq, P r.qpn
  exhReg : P (t.exh.metaReg.destQp.setWidth 16)
  exhMeta : ∀ m ∈ t.exhIn.metaIn, P (m.destQp.setWidth 16)
  msnRx : ∀ r ∈ t.msnIn.rxExh2msnTableUpdReq, P r.qpn
  msnTx : ∀ q ∈ t.msnIn.txExh2msnTableReq, P q
  msnIf : ∀ r ∈ t.msnIn.if2msnTableInit, P r.qpn
  readReg : P (t.reads.request.qpn.setWidth 16)
  readRequest : ∀ r ∈ t.readRequestFifo, P (r.qpn.setWidth 16)
  exhEvent : ∀ a ∈ t.rxExhEventMetaFifo, P (a.qpn.setWidth 16)
  ibhEvent : ∀ a ∈ t.rxIbhEventFifo, P (a.qpn.setWidth 16)
  retransEvent : ∀ e ∈ t.localIn.retransEventFifo, ∃ q, P q ∧ e.qpn = q.setWidth 24
  sqMeta : ∀ m ∈ t.localIn.sqMeta, P (m.qpn.setWidth 16)
  ackEvent : ∀ a ∈ t.mergerIn.rxAckEventFifo, P (a.qpn.setWidth 16)
  readEvent : ∀ e ∈ t.mergerIn.rxReadEvenFifo, e.Within P
  appEvent : ∀ e ∈ t.mergerIn.txAppMetaFifo, e.Within P
  connTx : ∀ q ∈ t.connIn.txIbhconnTableReq, P q
  connIf : ∀ r ∈ t.connIn.qpi2connTableReq, P r.qpn
  ibhGenReg : P (t.ibhGen.metaReg.destQp.setWidth 16)
  ibhGenMeta : ∀ m ∈ t.ibhGenIn.metaIn, P (m.destQp.setWidth 16)
  exhGenMeta : ∀ e ∈ t.exhGenIn.metaIn, e.Within P
  insertMeta : ∀ m ∈ t.insertMeta, P m.qpn
  timerClear : ∀ r ∈ t.timerIn.rxClearTimerReq, P r.qpn
  timerSet : ∀ q ∈ t.timerIn.txSetTimerReq, ∃ p, P p ∧ q = p.setWidth 24
  timerPosition : P t.timer.ttCurrPosition
  qpiReg : P (t.qpi.context.qpNum.setWidth 16)
  qpiContext : ∀ c ∈ t.qpiIn.contextIn, P (c.qpNum.setWidth 16)
  proc : t.retrans.proc.Within P
  procIn : t.retrans.inp.Within P
  ptrReq : ∀ r ∈ t.retrans.ptrIn.pointerReqFifo, P r.qpn
  ptrUpd : ∀ v ∈ t.retrans.ptrIn.pointerUpdFifo, P v.qpn ∧ v.entry.Within
  ptrHeld : P t.retrans.ptr.req.qpn
  ptrTable : ∀ q, (t.retrans.ptr.ptrTable q).Within
  metaReq : ∀ r ∈ t.retrans.metaReq, r.Within
  metaTable : ∀ x, InMeta (t.retrans.metaTable x).next
  release : ∀ x ∈ t.retrans.releaseFifo, InMeta x
  accesses : ∀ a ∈ t.accesses, ∃ q, P q ∧ a.2 = q.toNat
  cells : ∀ x ∈ t.cells, InMeta x

def Enters (P : Qpn → Prop) (t : IndexNet) : IndexLabel → Prop
  | .ibh m => P (m.destQp.setWidth 16)
  | .sqMeta m => P (m.qpn.setWidth 16)
  | .qpContext c => P (c.qpNum.setWidth 16)
  | .connReq r => P r.qpn
  | .transportTimer full => P (t.timer.call t.timerIn full).1.ttCurrPosition
  | _ => True

theorem forall_mem_append {α : Type} {p : α → Prop} {l l' : List α} (h : ∀ x ∈ l, p x) (h' : ∀ x ∈ l', p x) :
    ∀ x ∈ l ++ l', p x :=
  List.forall_mem_append.mpr ⟨h, h'⟩

variable {P : Qpn → Prop}

theorem access {l : List (QpTable × Nat)} {qs : List Qpn} (table : QpTable)
    (h : ∀ a ∈ l, ∃ q, P q ∧ a.2 = q.toNat) (hq : ∀ q ∈ qs, P q) :
    ∀ a ∈ l ++ qs.map fun q => (table, q.toNat), ∃ q, P q ∧ a.2 = q.toNat := by
  refine forall_mem_append h fun a ha => ?_
  obtain ⟨q, hm, rfl⟩ := List.mem_map.mp ha
  exact ⟨q, hq q hm, rfl⟩

theorem Inv.ibh (h : Inv P t) : Inv P t.callIbh := by
  rcases rxIbhFsm_cases t.ibh t.ibhIn with ⟨m, ms, e, es, hs, hm, he, hcall⟩ | ⟨r, rs, hs, hr, hcall⟩ | hcall
  · have hq := List.forall_mem_cons.mp (hm ▸ h.ibhMeta)
    simp only [callIbh, hcall, List.append_nil]
    exact { h with
      ibhReg := hq.1, ibhMeta := hq.2
      statesRx := forall_mem_append h.statesRx (by simpa [RxStateReq.read] using hq.1) }
  · obtain ⟨hstate, hmeta, hevent, htimer, hupd⟩ := process_qpn t.ibh.metaReg t.ibh.emeta t.ibh.isResponse r
    simp only [callIbh, hcall]
    exact { h with
      statesRx := forall_mem_append h.statesRx fun x hx => by rw [hstate x hx]; exact h.ibhReg
      exhMeta := forall_mem_append h.exhMeta fun x hx => by rw [hmeta x hx]; exact h.ibhReg
      ibhEvent := forall_mem_append h.ibhEvent fun x hx => by rw [hevent x hx]; exact h.ibhReg
      timerClear := forall_mem_append h.timerClear fun x hx => by rw [htimer x hx]; exact h.ibhReg
      procIn := { h.procIn with
        update := forall_mem_append h.procIn.update fun x hx => by rw [hupd x hx]; exact h.ibhReg } }
  · have hidle : t.callIbh = t := by simp [callIbh, hcall]
    rw [hidle]
    exact h

theorem Inv.stateTable (h : Inv P t) : Inv P t.callStateTable := by
  have hacc : ∀ q ∈ t.statesIn.accessed, P q := by
    unfold StateTableIn.accessed
    split
    · next r rest hreq => simpa using h.statesRx r (by rw [hreq]; exact List.mem_cons_self)
    · next r rest _ hreq => simpa using h.statesTx r (by rw [hreq]; exact List.mem_cons_self)
    · next r rest _ _ hreq => simpa using h.statesQpi r (by rw [hreq]; exact List.mem_cons_self)
    · simp
  have haccesses := access .state_table h.accesses hacc
  simp only [callStateTable, Roce.stateTable]
  split
  · next r rest hreq =>
      have hq := List.forall_mem_cons.mp (hreq ▸ h.statesRx)
      split <;> exact { h with statesRx := hq.2, accesses := haccesses }
  · next r rest _ hreq =>
      have hq := List.forall_mem_cons.mp (hreq ▸ h.statesTx)
      split <;> exact { h with statesTx := hq.2, accesses := haccesses }
  · next r rest _ _ hreq =>
      have hq := List.forall_mem_cons.mp (hreq ▸ h.statesQpi)
      split <;> exact { h with statesQpi := hq.2, accesses := haccesses }
  · exact { h with accesses := haccesses }

theorem Inv.exh (h : Inv P t) : Inv P t.callExh := by
  cases hs : t.exh.peFsmState with
  | META =>
    cases hm : t.exhIn.metaIn with
    | nil =>
      have hcall : t.callExh = t := by simp [callExh, rxExhFsm, hs, hm]
      rw [hcall]
      exact h
    | cons m ms =>
      have hq := List.forall_mem_cons.mp (hm ▸ h.exhMeta)
      cases hh : t.exhIn.headerInput with
      | nil =>
        have hcall : t.callExh = t := by simp [callExh, rxExhFsm, hs, hm, hh]
        rw [hcall]
        exact h
      | cons header headers =>
        simp only [callExh, rxExhFsm, hs, hm, hh, List.append_nil]
        exact { h with
          exhReg := hq.1, exhMeta := hq.2
          msnRx := forall_mem_append h.msnRx (by simpa [RxMsnReq.read] using hq.1) }
  | DMA_META =>
    have hkeep : ∃ s' i', rxExhFsm t.exh t.exhIn = (s', i', {}) ∧ s'.metaReg = t.exh.metaReg ∧
        i'.metaIn = t.exhIn.metaIn := by
      unfold rxExhFsm
      simp only [hs]
      split <;> exact ⟨_, _, rfl, rfl, rfl⟩
    obtain ⟨s', i', hcall, hreg, hmeta⟩ := hkeep
    simp only [callExh, hcall, List.append_nil]
    exact { h with exhReg := by rw [hreg]; exact h.exhReg, exhMeta := by rw [hmeta]; exact h.exhMeta }
  | DATA =>
    cases hd : t.exh.data with
    | none =>
      have hcall : t.callExh = t := by simp [callExh, rxExhFsm, hs, hd]
      rw [hcall]
      exact h
    | some out =>
      obtain ⟨hnak, hread, hmsn, hevent⟩ := data_qpn hd
      simp only [callExh, rxExhFsm, hs, hd]
      exact { h with
        msnRx := forall_mem_append h.msnRx fun x hx => by rw [hmsn x hx]; exact h.exhReg
        readRequest := forall_mem_append h.readRequest fun x hx => by rw [hread x hx]; exact h.exhReg
        exhEvent := forall_mem_append h.exhEvent fun x hx => by rw [hevent x hx]; exact h.exhReg
        procIn := { h.procIn with
          nak := forall_mem_append h.procIn.nak fun x hx => by rw [hnak x hx]; exact h.exhReg } }

theorem Inv.msnTable (h : Inv P t) : Inv P t.callMsnTable := by
  have hacc : ∀ q ∈ t.msnIn.accessed, P q := by
    unfold MsnTableIn.accessed
    split
    · next r rest hreq => simpa using h.msnRx r (by rw [hreq]; exact List.mem_cons_self)
    · next q rest _ hreq => simpa using h.msnTx q (by rw [hreq]; exact List.mem_cons_self)
    · next r rest _ _ hreq => simpa using h.msnIf r (by rw [hreq]; exact List.mem_cons_self)
    · simp
  have haccesses := access .msn_table h.accesses hacc
  simp only [callMsnTable, Roce.msnTable]
  split
  · next r rest hreq =>
      have hq := List.forall_mem_cons.mp (hreq ▸ h.msnRx)
      split <;> exact { h with msnRx := hq.2, accesses := haccesses }
  · next q rest _ hreq =>
      have hq := List.forall_mem_cons.mp (hreq ▸ h.msnTx)
      exact { h with msnTx := hq.2, accesses := haccesses }
  · next r rest _ _ hreq =>
      have hq := List.forall_mem_cons.mp (hreq ▸ h.msnIf)
      exact { h with msnIf := hq.2, accesses := haccesses }
  · exact { h with accesses := haccesses }

theorem Inv.readRequests (h : Inv P t) : Inv P t.callReadRequests := by
  have hemit : ∀ (r : ReadRequest) (op : IbOpCode) (n : BitVec 32), P (r.qpn.setWidth 16) →
      setsTimer op = false → ∀ e ∈ (r.emit op n).readEventFifo, e.Within P := by
    intro r op n hr hop e he
    rw [List.mem_singleton.mp he]
    exact ⟨hr, fun hc => by rw [show setsTimer op = true from hc] at hop; cases hop⟩
  have hadv (r : ReadRequest) : r.advance.qpn = r.qpn := by unfold ReadRequest.advance; rfl
  have hcall : (∀ r ∈ (handleReadRequests t.reads t.readRequestFifo).2.1, P (r.qpn.setWidth 16)) ∧
      P ((handleReadRequests t.reads t.readRequestFifo).1.request.qpn.setWidth 16) ∧
      ∀ e ∈ (handleReadRequests t.reads t.readRequestFifo).2.2.readEventFifo, e.Within P := by
    unfold handleReadRequests
    split
    · exact ⟨by simp, h.readReg, by simp⟩
    · next r rest _ hreq =>
        have hq := List.forall_mem_cons.mp (hreq ▸ h.readRequest)
        split
        · exact ⟨hq.2, by rw [hadv]; exact hq.1, hemit r _ _ hq.1 rfl⟩
        · exact ⟨hq.2, hq.1, hemit r _ _ hq.1 rfl⟩
    · simp only
      split
      · exact ⟨h.readRequest, by rw [hadv]; exact h.readReg,
          hemit { t.reads.request with psn := _ } _ _ h.readReg rfl⟩
      · exact ⟨h.readRequest, h.readReg, hemit { t.reads.request with psn := _ } _ _ h.readReg rfl⟩
  simp only [callReadRequests]
  exact { h with
    readRequest := hcall.1, readReg := hcall.2.1, readEvent := forall_mem_append h.readEvent hcall.2.2 }

theorem Inv.streamMerger (h : Inv P t) : Inv P t.callStreamMerger := by
  unfold callStreamMerger
  split
  · next a rest hev =>
      have hq := List.forall_mem_cons.mp (hev ▸ h.exhEvent)
      exact { h with exhEvent := hq.2, ackEvent := forall_mem_append h.ackEvent (by simpa using hq.1) }
  · next a rest _ hev =>
      have hq := List.forall_mem_cons.mp (hev ▸ h.ibhEvent)
      exact { h with ibhEvent := hq.2, ackEvent := forall_mem_append h.ackEvent (by simpa using hq.1) }
  · exact h

theorem Inv.localReq (h : Inv P t) : Inv P t.callLocalReq := by
  simp only [callLocalReq, localReqHandler]
  split
  · next e rest hev =>
      have hq := List.forall_mem_cons.mp (hev ▸ h.retransEvent)
      obtain ⟨q, hP, hqpn⟩ := hq.1
      have hcut : e.qpn.setWidth 16 = q := by simp [hqpn]
      exact { h with
        retransEvent := hq.2
        appEvent := forall_mem_append h.appEvent (by
          simp only [List.mem_singleton, forall_eq]
          exact ⟨by rw [hcut]; exact hP, fun _ => by rw [hcut]; exact hqpn⟩) }
  · next m rest _ hm =>
      have hq := List.forall_mem_cons.mp (hm ▸ h.sqMeta)
      have hcut : (m.qpn.setWidth 24).setWidth 16 = m.qpn.setWidth 16 := by
        apply BitVec.eq_of_toNat_eq
        have := m.qpn.isLt
        simp only [BitVec.toNat_setWidth]
        omega
      have hshort : m.qpn.setWidth 24 = (m.qpn.setWidth 16).setWidth 24 := by
        apply BitVec.eq_of_toNat_eq
        have := m.qpn.isLt
        simp only [BitVec.toNat_setWidth]
        omega
      have hevent : m.event.Within P :=
        ⟨by rw [TxMeta.event, hcut]; exact hq.1, fun _ => by rw [TxMeta.event, hcut]; exact hshort⟩
      have happ : ∀ e ∈ (if forwarded m.opCode then [m.event] else []), e.Within P := by
        split <;> simp [hevent]
      exact { h with sqMeta := hq.2, appEvent := forall_mem_append h.appEvent happ }
  · simp only [List.append_nil]
    exact h

theorem Inv.metaMerger (h : Inv P t) : Inv P t.callMetaMerger := by
  simp only [callMetaMerger, Roce.metaMerger]
  split
  · next a rest hev =>
      have hq := List.forall_mem_cons.mp (hev ▸ h.ackEvent)
      exact { h with
        ackEvent := hq.2
        connTx := forall_mem_append h.connTx (by simpa using hq.1)
        ibhGenMeta := forall_mem_append h.ibhGenMeta (by simpa using hq.1)
        exhGenMeta := forall_mem_append h.exhGenMeta (by
          simp only [List.mem_singleton, forall_eq]
          exact ⟨hq.1, fun hc => by cases hc⟩) }
  · next e rest _ hev =>
      have hq := List.forall_mem_cons.mp (hev ▸ h.readEvent)
      exact { h with
        readEvent := hq.2
        connTx := forall_mem_append h.connTx (by simpa using hq.1.qpn)
        ibhGenMeta := forall_mem_append h.ibhGenMeta (by simpa [Event.ibhMeta] using hq.1.qpn)
        exhGenMeta := forall_mem_append h.exhGenMeta (by simpa using hq.1) }
  · next e rest _ _ hev =>
      have hq := List.forall_mem_cons.mp (hev ▸ h.appEvent)
      exact { h with
        appEvent := hq.2
        connTx := forall_mem_append h.connTx (by simpa using hq.1.qpn)
        ibhGenMeta := forall_mem_append h.ibhGenMeta (by
          simp only [List.mem_singleton, forall_eq, Event.appIbhMeta]
          split <;> exact hq.1.qpn)
        exhGenMeta := forall_mem_append h.exhGenMeta (by simpa using hq.1) }
  · simp only [List.append_nil]
    exact h

theorem Inv.connTable (h : Inv P t) : Inv P t.callConnTable := by
  have hacc : ∀ q ∈ t.connIn.accessed, P q := by
    unfold ConnTableIn.accessed
    split
    · next q rest hreq => simpa using h.connTx q (by rw [hreq]; exact List.mem_cons_self)
    · next r rest _ hreq => simpa using h.connIf r (by rw [hreq]; exact List.mem_cons_self)
    · simp
  have haccesses := access .conn_table h.accesses hacc
  simp only [callConnTable, Roce.connTable]
  split
  · next q rest hreq =>
      have hq := List.forall_mem_cons.mp (hreq ▸ h.connTx)
      exact { h with connTx := hq.2, accesses := haccesses }
  · next r rest _ hreq =>
      have hq := List.forall_mem_cons.mp (hreq ▸ h.connIf)
      exact { h with connIf := hq.2, accesses := haccesses }
  · exact { h with accesses := haccesses }

theorem Inv.ipUdp (h : Inv P t) : Inv P t.callIpUdp := by
  simp only [callIpUdp]
  exact { h with }

theorem Inv.generateIbh (h : Inv P t) : Inv P t.callGenerateIbh := by
  simp only [callGenerateIbh, Roce.generateIbh]
  split
  · next m ms dst dsts _ hm _ =>
      have hq := List.forall_mem_cons.mp (hm ▸ h.ibhGenMeta)
      split
      · simp only [List.append_nil]
        exact { h with ibhGenReg := hq.1, ibhGenMeta := hq.2 }
      · simp only [List.append_nil]
        exact { h with
          ibhGenReg := hq.1, ibhGenMeta := hq.2
          statesTx := forall_mem_append h.statesTx (by simpa using hq.1) }
  · next r rest _ hr =>
      unfold getPsn
      split
      · simp only [List.append_nil]
        exact { h with }
      · exact { h with
          statesTx := forall_mem_append h.statesTx (by simpa using h.ibhGenReg)
          insertMeta := forall_mem_append h.insertMeta (by simpa using h.ibhGenReg) }
  · simp only [List.append_nil]
    exact { h with }

theorem Inv.generateExh {W : Nat} (h : Inv P t) : Inv P (t.callGenerateExh W) := by
  simp only [callGenerateExh, Roce.generateExh]
  split
  · next e rest _ hm =>
      have hq := List.forall_mem_cons.mp (hm ▸ h.exhGenMeta)
      refine { h with
        exhGenMeta := hq.2
        msnTx := forall_mem_append h.msnTx (by simpa using hq.1.qpn)
        timerSet := forall_mem_append h.timerSet ?_ }
      split
      · next hop =>
          simp only [List.mem_singleton, forall_eq]
          exact ⟨_, hq.1.qpn, hq.1.short hop⟩
      · simp
  · simp only [List.append_nil]
    exact { h with }
  · have hnone : (t.exhGen.process W).2.txExh2msnTableReq = [] ∧ (t.exhGen.process W).2.txSetTimerReq = [] := by
      unfold GenerateExh.process
      split <;> simp [GenerateExh.reth, GenerateExh.aeth, GenerateExh.raw]
    simp only [hnone.1, hnone.2, List.append_nil]
    exact { h with }
  · simp only [List.append_nil]
    exact { h with }

theorem Inv.mergeRetrans (h : Inv P t) : Inv P t.callMergeRetrans := by
  simp only [callMergeRetrans, mergeRetransRequest]
  split
  · next m ms a as hm _ =>
      have hq := List.forall_mem_cons.mp (hm ▸ h.insertMeta)
      exact { h with
        insertMeta := hq.2
        procIn := { h.procIn with
          insert := forall_mem_append h.procIn.insert (by simpa [RetransEntry.merge] using hq.1) } }
  · simp only [List.append_nil]
    exact { h with }

theorem Inv.timer (h : Inv P t) {full : Bool} (hpos : P (t.timer.call t.timerIn full).1.ttCurrPosition) :
    Inv P (t.callTimer full) := by
  have hretrans := TransportTimer.call_retransmission (s := t.timer) (i := t.timerIn) full
  have hacc : ∃ q, P q ∧ t.timer.accessed t.timerIn = q.toNat := by
    unfold TransportTimer.accessed
    split
    · next r rest hreq => exact ⟨r.qpn, h.timerClear r (by rw [hreq]; exact List.mem_cons_self), rfl⟩
    · next q rest _ hreq =>
        obtain ⟨p, hp, rfl⟩ := h.timerSet q (by rw [hreq]; exact List.mem_cons_self)
        refine ⟨p, hp, ?_⟩
        have := p.isLt
        rw [BitVec.toNat_setWidth, Nat.mod_eq_of_lt (by omega)]
    · exact ⟨t.timer.ttCurrPosition, h.timerPosition, rfl⟩
  have hin : (∀ r ∈ (t.timer.call t.timerIn full).2.1.rxClearTimerReq, P r.qpn) ∧
      ∀ q ∈ (t.timer.call t.timerIn full).2.1.txSetTimerReq, ∃ p, P p ∧ q = p.setWidth 24 := by
    unfold TransportTimer.call
    split
    · next r rest hreq => exact ⟨(List.forall_mem_cons.mp (hreq ▸ h.timerClear)).2, h.timerSet⟩
    · next q rest _ hreq => exact ⟨h.timerClear, (List.forall_mem_cons.mp (hreq ▸ h.timerSet)).2⟩
    · exact ⟨h.timerClear, h.timerSet⟩
  simp only [callTimer]
  exact { h with
    timerPosition := hpos, timerClear := hin.1, timerSet := hin.2
    procIn := { h.procIn with
      timer := forall_mem_append h.procIn.timer fun r hr => by rw [hretrans r hr]; exact h.timerPosition }
    accesses := forall_mem_append h.accesses (by simpa using hacc) }

theorem Inv.process (h : Inv P t) : Inv P t.callProcess := by
  obtain ⟨hproc, hin, hout⟩ := processRetransmissions_within h.proc h.procIn
  simp only [callProcess, RetransNet.callProcess]
  exact { h with
    proc := hproc, procIn := hin
    ptrReq := forall_mem_append h.ptrReq hout.ptrReq
    ptrUpd := forall_mem_append h.ptrUpd hout.ptrUpd
    metaReq := forall_mem_append h.metaReq hout.metaReq
    release := forall_mem_append h.release hout.release
    retransEvent := forall_mem_append h.retransEvent hout.event }

theorem Inv.pointerTable (h : Inv P t) : Inv P t.callPointerTable := by
  have hacc : ∀ q ∈ t.retrans.ptr.accessed t.retrans.ptrIn, P q := by
    unfold PointerTable.accessed
    split
    · next v rest hupd => simpa using (h.ptrUpd v (by rw [hupd]; exact List.mem_cons_self)).1
    · next r rest _ hreq _ =>
        have hq := h.ptrReq r (by rw [hreq]; exact List.mem_cons_self)
        split <;> simp [hq]
    · split <;> simp [h.ptrHeld]
    · simp
  have haccesses := access .ptr_table h.accesses hacc
  simp only [callPointerTable, retransPointerTable]
  split
  · next v rest hupd =>
      have hq := List.forall_mem_cons.mp (hupd ▸ h.ptrUpd)
      simp only [List.append_nil]
      refine { h with ptrUpd := hq.2, procIn := { h.procIn with }, accesses := haccesses, ptrTable := fun q => ?_ }
      simp only [Function.update_apply]
      split
      · exact hq.1.2
      · exact h.ptrTable q
  · next r rest _ hreq _ =>
      have hq := List.forall_mem_cons.mp (hreq ▸ h.ptrReq)
      split
      · simp only [List.append_nil]
        exact { h with ptrReq := hq.2, ptrHeld := hq.1, procIn := { h.procIn with }, accesses := haccesses }
      · exact { h with
          ptrReq := hq.2, ptrHeld := hq.1, accesses := haccesses
          procIn := { h.procIn with
            pointer := forall_mem_append h.procIn.pointer (by simpa using h.ptrTable r.qpn) } }
  · split
    · simp only [List.append_nil]
      exact { h with procIn := { h.procIn with }, accesses := haccesses }
    · exact { h with
        accesses := haccesses
        procIn := { h.procIn with
          pointer := forall_mem_append h.procIn.pointer (by simpa using h.ptrTable _) } }
  · simp only [List.append_nil]
    exact { h with procIn := { h.procIn with }, accesses := haccesses }

theorem Inv.metaTableCall (h : Inv P t) : Inv P t.callMetaTable := by
  unfold callMetaTable
  cases hreq : t.retrans.metaReq with
  | nil =>
    simp only [retransMetaTable, List.append_nil, List.head?_nil, Option.toList_none, List.map_nil]
    exact { h with metaReq := by simp }
  | cons r rest =>
    have hq := List.forall_mem_cons.mp (hreq ▸ h.metaReq)
    have htable : ∀ x, InMeta (r.apply t.retrans.metaTable x).next := by
      intro x
      cases r with
      | read idx => exact h.metaTable x
      | append | write =>
        simp only [RetransMetaReq.apply, Function.update_apply]
        split
        · exact hq.1.2
        · exact h.metaTable x
    have hreply : ∀ m ∈ r.reply t.retrans.metaTable, InMeta m.next := by
      cases r with
      | read idx => simpa [RetransMetaReq.reply] using h.metaTable idx
      | append | write => simp [RetransMetaReq.reply]
    simp only [retransMetaTable, List.head?_cons, Option.toList_some, List.map_cons, List.map_nil]
    exact { h with
      metaReq := hq.2, metaTable := htable
      procIn := { h.procIn with cell := forall_mem_append h.procIn.cell hreply }
      cells := forall_mem_append h.cells (by simpa using hq.1.idx) }

theorem Inv.freelist (h : Inv P t) : Inv P t.callFreelist := by
  simp only [callFreelist, freelistHandler]
  split
  · next x rest hrel =>
      have hq := List.forall_mem_cons.mp (hrel ▸ h.release)
      exact { h with
        release := hq.2
        procIn := { h.procIn with free := forall_mem_append h.procIn.free (by simpa using hq.1) } }
  · split
    · next hc =>
        have hnew : InMeta (BitVec.ofNat 16 t.retrans.freeListCounter) := by
          have hpow : META_TABLE_SIZE < 2 ^ 16 := by decide
          show (BitVec.ofNat 16 _).toNat < META_TABLE_SIZE
          rw [BitVec.toNat_ofNat, Nat.mod_eq_of_lt (by omega)]
          exact hc.1
        exact { h with
          release := by simp
          procIn := { h.procIn with free := forall_mem_append h.procIn.free (by simpa using hnew) } }
    · simp only [List.append_nil]
      exact { h with release := by simp }

theorem Inv.qpInterface (h : Inv P t) : Inv P t.callQpInterface := by
  simp only [callQpInterface, Roce.qpInterface]
  split
  · next c rest _ hc =>
      have hq := List.forall_mem_cons.mp (hc ▸ h.qpiContext)
      simp only [List.append_nil]
      exact { h with
        qpiReg := hq.1, qpiContext := hq.2
        statesQpi := forall_mem_append h.statesQpi (by simpa using hq.1) }
  · exact { h with
      statesQpi := forall_mem_append h.statesQpi (by simpa using h.qpiReg)
      msnIf := forall_mem_append h.msnIf (by simpa using h.qpiReg) }
  · simp only [List.append_nil]
    exact { h with }

/-! ## Runs -/

theorem inv_step {W : Nat} {l : IndexLabel} (h : Inv P t) (he : t.Enters P l) (hs : t.step W l = some u) :
    Inv P u := by
  cases l with
  | ibh m =>
    cases hs
    exact { h with ibhMeta := forall_mem_append h.ibhMeta (List.forall_mem_singleton.mpr he) }
  | sqMeta m =>
    cases hs
    exact { h with sqMeta := forall_mem_append h.sqMeta (List.forall_mem_singleton.mpr he) }
  | qpContext c =>
    cases hs
    exact { h with qpiContext := forall_mem_append h.qpiContext (List.forall_mem_singleton.mpr he) }
  | connReq r =>
    cases hs
    exact { h with connIf := forall_mem_append h.connIf (List.forall_mem_singleton.mpr he) }
  | exhMeta _ | udpLength _ | header _ =>
    cases hs
    exact { h with }
  | rxIbhFsm => cases hs; exact h.ibh
  | stateTable => cases hs; exact h.stateTable
  | rxExhFsm => cases hs; exact h.exh
  | msnTable => cases hs; exact h.msnTable
  | handleReadRequests => cases hs; exact h.readRequests
  | streamMerger => cases hs; exact h.streamMerger
  | localReqHandler => cases hs; exact h.localReq
  | metaMerger => cases hs; exact h.metaMerger
  | connTable => cases hs; exact h.connTable
  | txIpUdpMetaMerger => cases hs; exact h.ipUdp
  | generateIbh => cases hs; exact h.generateIbh
  | generateExh => cases hs; exact h.generateExh
  | mergeRetransRequest => cases hs; exact h.mergeRetrans
  | transportTimer full => cases hs; exact h.timer he
  | process => cases hs; exact h.process
  | pointerTable => cases hs; exact h.pointerTable
  | metaTable => cases hs; exact h.metaTableCall
  | freelist => cases hs; exact h.freelist
  | qpInterface => cases hs; exact h.qpInterface

theorem inv_init (h : P 0) : Inv P {} := by
  refine ⟨h, ?_, ?_, ?_, ?_, h, ?_, ?_, ?_, ?_, h, ?_, ?_, ?_, ?_, ?_, ?_, ?_, ?_, ?_, ?_, h, ?_, ?_, ?_, ?_, ?_, h, h,
    ?_, ⟨h, h, h, inMeta_zero, inMeta_zero, inMeta_zero, inMeta_zero⟩, ?_, ?_, ?_, h,
    fun _ => ⟨inMeta_zero, inMeta_zero⟩, ?_, fun _ => inMeta_zero, ?_, ?_, ?_⟩
  all_goals first
    | exact fun _ hx => (List.not_mem_nil hx).elim
    | constructor <;> exact fun _ hx => (List.not_mem_nil hx).elim

/-- The numbers that come in name entries of the tables, and the scan of the timer is not pushed out. -/
def inRange (t : IndexNet) : IndexLabel → Bool
  | .ibh m => decide ((m.destQp.setWidth 16).toNat < MAX_QPS)
  | .sqMeta m => decide (m.qpn.toNat < MAX_QPS)
  | .qpContext c => decide ((c.qpNum.setWidth 16).toNat < MAX_QPS)
  | .connReq r => decide (r.qpn.toNat < MAX_QPS)
  | .transportTimer _ => !t.timer.overruns t.timerIn
  | _ => true

theorem enters_of_inRange {l : IndexLabel} (h : Inv (fun q => q.toNat < MAX_QPS) t) (hl : t.inRange l = true) :
    t.Enters (fun q => q.toNat < MAX_QPS) l := by
  cases l with
  | ibh | qpContext | connReq => simpa [inRange, Enters] using hl
  | sqMeta m =>
    have hq : m.qpn.toNat < MAX_QPS := of_decide_eq_true hl
    have := m.qpn.isLt
    show (m.qpn.setWidth 16).toNat < MAX_QPS
    rw [BitVec.toNat_setWidth, Nat.mod_eq_of_lt (by omega)]
    exact hq
  | transportTimer full =>
    exact TransportTimer.call_position full h.timerPosition (by simpa [inRange] using hl)
  | _ => trivial

/-- In every run the cells are those of the meta table.  As long as the numbers that come in with packets,
requests and connections, cut to 16 bits, are below `MAX_QPS` and the scan of the timer is not pushed past
the end, so are the indices of all tables of queue pairs. -/
theorem table_indices {W : Nat} (h : Reach (step W) anyStep {} t) :
    (∀ x ∈ t.cells, x.toNat < META_TABLE_SIZE) ∧
      (Reach (step W) (fun t l => t.inRange l = true) {} t → ∀ a ∈ t.accesses, a.2 < MAX_QPS) := by
  constructor
  · have hinv := h.invariant (P := Inv fun _ => True) (inv_init trivial) fun u l v hu _ hs =>
      inv_step hu (by cases l <;> trivial) hs
    exact hinv.cells
  · intro hin a ha
    have hinv := hin.invariant (P := Inv fun q => q.toNat < MAX_QPS) (inv_init (by decide)) fun u l v hu hl hs =>
      inv_step hu (enters_of_inRange hu hl) hs
    obtain ⟨q, hq, hidx⟩ := hinv.accesses a ha
    rw [hidx]
    exact hq

def packetOutside : List IndexLabel :=
  [.ibh ⟨RC_SEND_ONLY, 0xFFFF, 500, 0, true, 1⟩, .exhMeta ⟨false, 1⟩, .rxIbhFsm, .stateTable]

theorem packetOutside_access : ∃ t, Reach (step 512) anyStep {} t ∧ (.state_table, MAX_QPS) ∈ t.accesses := by
  have h : (run (step 512) {} packetOutside).map (·.accesses) = some [(.state_table, MAX_QPS)] := by
    decide +kernel
  obtain ⟨t, ht, hx⟩ := Option.map_eq_some_iff.mp h
  exact ⟨t, reach_of_run ht, by rw [hx]; exact List.mem_cons_self⟩

/-- A write of queue pair 7 is sent and stored for retransmission. -/
def sendWrite : List IndexLabel :=
  [.qpContext ⟨7, 10, 20, 3⟩, .qpInterface, .stateTable, .qpInterface, .stateTable, .msnTable,
    .connReq ⟨7, 9, 0, 4791⟩, .connTable, .freelist,
    .sqMeta { opCode := RC_RDMA_WRITE_ONLY, qpn := 7, params := 0 },
    .localReqHandler, .metaMerger, .connTable, .generateExh, .msnTable, .generateExh, .generateExh,
    .txIpUdpMetaMerger, .generateIbh, .stateTable, .generateIbh, .stateTable, .mergeRetransRequest,
    .transportTimer false, .process, .pointerTable, .process, .pointerTable, .metaTable]

theorem table_indices_write : ∃ t, Reach (step 512) anyStep {} t ∧
    t.accesses.map (·.2) = [7, 7, 7, 7, 7, 7, 7, 7, 7, 7, 7] ∧ t.cells = [0] ∧
    (∀ x ∈ t.cells, x.toNat < META_TABLE_SIZE) ∧ ∀ a ∈ t.accesses, a.2 < MAX_QPS := by
  have h : (runIf (step 512) (fun t l => t.inRange l = true) {} sendWrite).map
      (fun t => (t.accesses.map (·.2), t.cells)) = some ([7, 7, 7, 7, 7, 7, 7, 7, 7, 7, 7], [0]) := by
    decide +kernel
  obtain ⟨t, ht, hx⟩ := Option.map_eq_some_iff.mp h
  obtain ⟨haccesses, hcells⟩ := Prod.mk.inj hx
  have hreach := reach_of_runIf ht
  obtain ⟨hmeta, hqp⟩ := table_indices hreach.any
  exact ⟨t, hreach.any, haccesses, hcells, hmeta, hqp hreach⟩

end IndexNet

end FpgaNetworkStack.Roce
