import FpgaNetworkStack.Lib.Blocks
import FpgaNetworkStack.Lib.Client
import FpgaNetworkStack.Lib.Reach
import FpgaNetworkStack.Roce.RxEngine

/-!
# The responder executes requests in order

`rx_ibh_fsm` reads the expected number of a queue pair, decides, and writes the number behind the packet.
All accesses go through one FIFO, so it never decides on an old number, and the requests it accepts lie one
behind the other in the space of packet sequence numbers.
-/

namespace FpgaNetworkStack.Roce

open Lib IbOpCode

/-! ## Packets -/

/-- A received packet: its base header, the NAK of an AETH and the length of a RETH. -/
structure Packet where
  ibh : IbhMeta
  isNak : Bool := false
  length : BitVec 32 := 0
  deriving DecidableEq, Inhabited

namespace Packet

/-- What `rx_process_exh` reports for the packet. -/
def exh (p : Packet) : ExhMeta :=
  match headerState p.ibh.opCode with
  | .ACK_HEADER => { isNak := p.isNak }
  | .RETH_HEADER => rethMeta p.ibh.opCode p.length
  | _ => { isNak := false }

def qpn (p : Packet) : Qpn := p.ibh.destQp.setWidth 16

def isRequest (q : Qpn) (p : Packet) : Bool := p.qpn == q && !checkIfResponse p.ibh.opCode

/-- How many packet sequence numbers the packet takes: one, or one for each packet of the response. -/
def covers (p : Packet) : Nat :=
  if p.ibh.opCode = RC_RDMA_READ_REQUEST then (p.length.toNat + (PMTU - 1)) / PMTU else 1

end Packet

/-! ## What a decision writes -/

section Decision

variable {q : Qpn} {p : Packet} {r : RxStateRsp}

theorem covers_lt (p : Packet) : p.covers < 2 ^ 22 := by
  unfold Packet.covers PMTU
  have := p.length.isLt
  split <;> omega

theorem exh_numPkg (p : Packet) : p.exh.numPkg.setWidth 24 = BitVec.ofNat 24 p.covers := by
  have hlt := covers_lt p
  apply BitVec.eq_of_toNat_eq
  rw [BitVec.toNat_setWidth, BitVec.toNat_ofNat]
  congr 1
  by_cases hop : p.ibh.opCode = RC_RDMA_READ_REQUEST
  · simp only [Packet.covers, hop, if_true] at hlt ⊢
    simpa [Packet.exh, headerState, checkIfAethHeader, checkIfRethHeader, rethMeta, hop, numPackets]
      using hlt
  · unfold Packet.exh
    split <;> simp [Packet.covers, hop, rethMeta]

theorem exh_isNak (h : checkIfResponse p.ibh.opCode = false) : p.exh.isNak = false := by
  unfold Packet.exh headerState
  cases hop : p.ibh.opCode <;> simp [hop, checkIfResponse] at h <;>
    simp [checkIfAethHeader, checkIfRethHeader, rethMeta]

/-- The decision on `p` when the table answers `r`. -/
def Packet.decide (p : Packet) (r : RxStateRsp) : RxIbhFsmOut :=
  process p.ibh p.exh (checkIfResponse p.ibh.opCode) r

/-- Every request to the table is a write for the role and the queue pair of the packet. -/
theorem decide_writes (p : Packet) (r : RxStateRsp) : ∀ u ∈ (p.decide r).stateTableUpdReq,
    u.write = true ∧ u.isResponse = checkIfResponse p.ibh.opCode ∧ u.qpn = p.qpn := by
  intro u hu
  unfold Packet.decide process at hu
  split at hu
  · unfold processInOrder at hu
    split at hu
    · rw [List.mem_singleton.mp hu]
      exact ⟨rfl, rfl, rfl⟩
    · cases hu
  · split at hu
    · unfold processDuplicate at hu
      split at hu
      · cases hu
      · split at hu <;> cases hu
    · unfold processInvalid at hu
      split at hu
      · rw [List.mem_singleton.mp hu]
        exact ⟨rfl, rfl, rfl⟩
      · cases hu

/-- What is decided on another packet is no write for the responder of `q`. -/
theorem decide_other (h : p.isRequest q = false) :
    ∀ u ∈ (p.decide r).stateTableUpdReq, (u.write && !u.isResponse && u.qpn == q) = false := by
  intro u hu
  obtain ⟨hw, hrsp, hq⟩ := decide_writes p r u hu
  rw [hw, hrsp, hq]
  simp only [Packet.isRequest, Bool.and_eq_false_iff] at h
  rcases h with hne | hresp
  · simp [hne]
  · rw [Bool.not_eq_eq_eq_not] at hresp
    simp [hresp]

theorem psn_of_inOrder (hreq : p.isRequest q = true) (h : inOrder p.ibh r = true) : p.ibh.psn = r.epsn := by
  simp only [inOrder, Bool.or_eq_true, beq_iff_eq] at h
  rcases h with h | hack
  · exact h.symm
  · rw [Packet.isRequest, hack, Bool.and_eq_true] at hreq
    cases hreq.2

theorem decide_policy (h : inOrder p.ibh r = true) : (p.decide r).ibhDropMetaFifo = [⟨false, false⟩] := by
  rw [Packet.decide, process, if_pos h]
  rfl

theorem decide_through (h : false ∈ (p.decide r).ibhDropFifo) : inOrder p.ibh r = true := by
  by_contra hin
  rw [Packet.decide, process, if_neg hin] at h
  split at h
  · unfold processDuplicate at h
    split at h
    · cases h
    · split at h
      · simp at h
      · simp at h
  · unfold processInvalid at h
    split at h <;> simp at h

end Decision

/-! ## The network -/

/-- A packet with the state of the queue pair it was judged by and what came out. -/
structure Handled where
  packet : Packet
  state : RxStateRsp
  out : RxIbhFsmOut

def Handled.accepted (q : Qpn) (h : Handled) : Bool :=
  h.packet.isRequest q && inOrder h.packet.ibh h.state && h.out.ibhDropMetaFifo == [⟨false, false⟩]

structure ResponderNet where
  fsm : RxIbhFsm
  /-- The packets whose headers are in `metaIn` and `exhMetaFifo`. -/
  packets : List Packet
  /-- The packet `rx_ibh_fsm` works on. -/
  current : Packet
  req : StateTableIn
  rsp : List RxStateRsp
  table : Qpn → StateTableEntry
  arrived : List Packet
  handled : List Handled

inductive ResponderLabel where
  | arrive (p : Packet)
  | tx (r : TxStateReq)
  | qpi (r : IfStateReq)
  | rxIbhFsm
  | stateTable

namespace ResponderNet

/-- The packet handled by a call of `rx_ibh_fsm`, if one is. -/
def handles (t : ResponderNet) (out : RxIbhFsmOut) : List Handled :=
  match t.fsm.fsmState, t.rsp with
  | .PROCESS, r :: _ => [⟨t.current, r, out⟩]
  | _, _ => []

/-- One call of a process, or one action of the environment: packets of any queue pair, requests of
`generate_ibh`, and requests of `qp_interface` that do not connect `q` again. -/
def step (q : Qpn) (t : ResponderNet) : ResponderLabel → Option ResponderNet
  | .arrive p => some { t with packets := t.packets ++ [p], arrived := t.arrived ++ [p] }
  | .tx r => some { t with req := { t.req with txIbh2stateTableUpdReq :=
      t.req.txIbh2stateTableUpdReq ++ [r] } }
  | .qpi r =>
    if r.write && r.qpn == q then none
    else some { t with req := { t.req with qpi2stateTableUpdReq := t.req.qpi2stateTableUpdReq ++ [r] } }
  | .rxIbhFsm =>
    let (fsm, i, out) := rxIbhFsm t.fsm ⟨t.packets.map (·.ibh), t.packets.map (·.exh), t.rsp⟩
    let taken := t.packets.take (t.packets.length - i.metaIn.length)
    some { t with
      fsm
      packets := t.packets.drop taken.length
      current := taken.head?.getD t.current
      rsp := i.stateTableRsp
      req := { t.req with rxIbh2stateTableUpdReq :=
        t.req.rxIbh2stateTableUpdReq ++ out.stateTableUpdReq }
      handled := t.handled ++ t.handles out }
  | .stateTable =>
    let (table, req, out) := stateTable t.table t.req
    some { t with table, req, rsp := t.rsp ++ out.stateTable2rxIbhRsp }

/-- `resp_epsn` of `q` after a request of `rx_ibh_fsm`. -/
def epsnAfter (q : Qpn) (epsn : BitVec 24) (r : RxStateReq) : BitVec 24 :=
  if r.write && !r.isResponse && r.qpn == q then r.epsn else epsn

/-- `resp_epsn` of `q` once the requests on their way are served. -/
def respEpsn (t : ResponderNet) (q : Qpn) : BitVec 24 :=
  t.req.rxIbh2stateTableUpdReq.foldl (epsnAfter q) (t.table q).respEpsn

def accepted (t : ResponderNet) (q : Qpn) : List Packet :=
  (t.handled.filter (·.accepted q)).map (·.packet)

/-- Packets that are not handled yet, oldest first. -/
def pending (t : ResponderNet) : List Packet :=
  match t.fsm.fsmState with
  | .LOAD => t.packets
  | .PROCESS => t.current :: t.packets

/-- `q` is connected, `e` is its initial `resp_epsn`, and no packet was received yet. -/
structure Connected (q : Qpn) (e : BitVec 24) (t : ResponderNet) : Prop where
  epsn : (t.table q).respEpsn = e
  load : t.fsm.fsmState = .LOAD
  packets : t.packets = []
  req : t.req.rxIbh2stateTableUpdReq = []
  rsp : t.rsp = []
  qpi : ∀ r ∈ t.req.qpi2stateTableUpdReq, r.write = true → r.qpn ≠ q
  logs : t.arrived = [] ∧ t.handled = []

/-! ## Invariant -/

structure Inv (q : Qpn) (e : Nat) (t : ResponderNet) : Prop where
  client : TableClient RxStateReq.write (t.fsm.fsmState == .PROCESS) t.req.rxIbh2stateTableUpdReq t.rsp
  registers : t.fsm.fsmState = .PROCESS → t.fsm.metaReg = t.current.ibh ∧ t.fsm.emeta = t.current.exh ∧
    t.fsm.isResponse = checkIfResponse t.current.ibh.opCode
  reads : ∀ r ∈ t.req.rxIbh2stateTableUpdReq, r.write = false →
    r = .read t.current.ibh.destQp (checkIfResponse t.current.ibh.opCode)
  answer : ∀ r ∈ t.rsp, t.current.isRequest q = true → r.epsn = t.respEpsn q
  qpi : ∀ r ∈ t.req.qpi2stateTableUpdReq, r.write = true → r.qpn ≠ q
  order : t.arrived = t.handled.map (·.packet) ++ t.pending
  tiles : (t.accepted q).map (fun p => (p.ibh.psn, p.covers)) =
    blocks 24 e ((t.accepted q).map Packet.covers)
  epsn : t.respEpsn q = BitVec.ofNat 24 (e + ((t.accepted q).map Packet.covers).sum)
  through : ∀ h ∈ t.handled, h.packet.isRequest q = true → false ∈ h.out.ibhDropFifo → h.accepted q = true

variable {q : Qpn} {e : Nat} {t u : ResponderNet}

/-- The requests of a decision move `resp_epsn` of `q` behind an expected request and leave it as it is
otherwise. -/
theorem decide_epsn {p : Packet} {r : RxStateRsp} {epsn : BitVec 24}
    (h : p.isRequest q = true → r.epsn = epsn) :
    (p.decide r).stateTableUpdReq.foldl (epsnAfter q) epsn =
      if p.isRequest q && inOrder p.ibh r then p.ibh.psn + BitVec.ofNat 24 p.covers else epsn := by
  cases hreq : p.isRequest q with
  | false =>
    -- no request of another role or queue pair touches the number
    have hskip := decide_other (r := r) hreq
    simp only [Bool.false_and, Bool.false_eq_true, if_false]
    generalize (p.decide r).stateTableUpdReq = us at hskip
    induction us with
    | nil => rfl
    | cons u us ih =>
      rw [List.foldl_cons, epsnAfter, hskip u List.mem_cons_self, if_neg Bool.false_ne_true]
      exact ih fun v hv => hskip v (List.mem_cons_of_mem _ hv)
  | true =>
    have hr := h hreq
    simp only [Packet.isRequest, Bool.and_eq_true, Bool.not_eq_true', beq_iff_eq] at hreq
    obtain ⟨hq, hresp⟩ := hreq
    have hack : p.ibh.opCode ≠ RC_ACK := by
      intro hop
      rw [hop] at hresp
      cases hresp
    have hnak := exh_isNak hresp
    unfold Packet.decide process
    cases hin : inOrder p.ibh r with
    | true =>
      have hmove : (!p.exh.isNak && (p.ibh.opCode != RC_ACK || ackInWindow p.ibh r)) = true := by
        simp [hnak, hack]
      simp only [if_true, processInOrder, hmove, List.foldl_cons, List.foldl_nil, Bool.and_self]
      simp [epsnAfter, RxStateReq.accept, hresp, ← hq, Packet.qpn, exh_numPkg]
    | false =>
      simp only [Bool.false_eq_true, if_false, Bool.and_false]
      cases hdup : duplicate p.ibh r with
      | true =>
        simp only [if_true, processDuplicate]
        split
        · rfl
        · split <;> rfl
      | false =>
        simp only [Bool.false_eq_true, if_false, processInvalid, ne_eq, hack, not_false_eq_true, if_true,
          List.foldl_cons, List.foldl_nil]
        simp [epsnAfter, RxStateReq.retry, hresp, ← hq, Packet.qpn, hr]

theorem foldl_epsnAfter_read {us : List RxStateReq} {epsn : BitVec 24} {qp : BitVec 24} {isRsp : Bool} :
    (us ++ [RxStateReq.read qp isRsp]).foldl (epsnAfter q) epsn = us.foldl (epsnAfter q) epsn := by
  rw [List.foldl_append]
  rfl

theorem Inv.load {p : Packet} {ps : List Packet} {fsm : RxIbhFsm} (h : Inv q e t)
    (hl : t.fsm.fsmState = .LOAD) (hp : t.packets = p :: ps) (hf : fsm.fsmState = .PROCESS)
    (hm : fsm.metaReg = p.ibh) (he : fsm.emeta = p.exh)
    (hr : fsm.isResponse = checkIfResponse p.ibh.opCode) :
    Inv q e { t with
      fsm, packets := ps, current := p
      req := { t.req with rxIbh2stateTableUpdReq := t.req.rxIbh2stateTableUpdReq ++
        [.read p.ibh.destQp (checkIfResponse p.ibh.opCode)] } } := by
  have hclient := h.client
  rw [hl] at hclient
  have hepsn : respEpsn { t with
      fsm, packets := ps, current := p
      req := { t.req with rxIbh2stateTableUpdReq := t.req.rxIbh2stateTableUpdReq ++
        [.read p.ibh.destQp (checkIfResponse p.ibh.opCode)] } } q = t.respEpsn q := foldl_epsnAfter_read
  refine ⟨?_, fun _ => ⟨hm, he, hr⟩, ?_, ?_, h.qpi, ?_, h.tiles, ?_, h.through⟩
  · rw [hf]
    exact hclient.ask rfl
  · intro r hr hw
    rcases List.mem_append.mp hr with hr | hr
    · rw [hclient.writes r hr] at hw
      cases hw
    · exact List.mem_singleton.mp hr
  · intro r hr
    rw [hclient.rsps_eq_nil] at hr
    cases hr
  · rw [h.order, pending, pending, hl, hf, hp]
  · rw [hepsn]
    exact h.epsn

theorem Inv.process {r : RxStateRsp} {rs : List RxStateRsp} {fsm : RxIbhFsm} (h : Inv q e t)
    (hp : t.fsm.fsmState = .PROCESS) (hrsp : t.rsp = r :: rs) (hf : fsm.fsmState = .LOAD) :
    Inv q e { t with
      fsm, rsp := rs
      req := { t.req with rxIbh2stateTableUpdReq := t.req.rxIbh2stateTableUpdReq ++
        (t.current.decide r).stateTableUpdReq }
      handled := t.handled ++ [⟨t.current, r, t.current.decide r⟩] } := by
  have hclient := h.client
  rw [hrsp] at hclient
  obtain ⟨-, hreqs, hrs⟩ := hclient.take
  have hans := h.answer r (by rw [hrsp]; exact List.mem_cons_self)
  have hepsn := decide_epsn (q := q) hans
  rw [hreqs, List.nil_append]
  have hnow : t.respEpsn q = (t.table q).respEpsn := by rw [respEpsn, hreqs, List.foldl_nil]
  rw [hnow] at hepsn
  have hacc : (⟨t.current, r, t.current.decide r⟩ : Handled).accepted q =
      (t.current.isRequest q && inOrder t.current.ibh r) := by
    unfold Handled.accepted
    cases hin : inOrder t.current.ibh r with
    | false => simp
    | true => simp [decide_policy hin]
  have hlog : accepted { t with
      fsm, rsp := rs, req := { t.req with rxIbh2stateTableUpdReq := (t.current.decide r).stateTableUpdReq }
      handled := t.handled ++ [⟨t.current, r, t.current.decide r⟩] } q =
      t.accepted q ++ if t.current.isRequest q && inOrder t.current.ibh r then [t.current] else [] := by
    unfold accepted
    rw [List.filter_append, List.map_append, List.filter_singleton, hacc]
    cases t.current.isRequest q && inOrder t.current.ibh r <;> rfl
  have hthrough : ∀ h ∈ t.handled ++ [⟨t.current, r, t.current.decide r⟩], h.packet.isRequest q = true →
      false ∈ h.out.ibhDropFifo → h.accepted q = true := by
    intro x hx hreq hfalse
    rcases List.mem_append.mp hx with hx | hx
    · exact h.through x hx hreq hfalse
    · rw [List.mem_singleton.mp hx] at hreq hfalse ⊢
      rw [hacc, hreq, decide_through hfalse]
      rfl
  refine ⟨?_, ?_, ?_, ?_, h.qpi, ?_, ?_, ?_, hthrough⟩
  · rw [hf, hrs]
    exact TableClient.quiet fun u hu => (decide_writes _ r u hu).1
  · intro hc
    rw [hf] at hc
    cases hc
  · intro u hu hw
    rw [(decide_writes _ r u hu).1] at hw
    cases hw
  · rw [hrs]
    simp
  · rw [h.order, pending, pending, hp, hf]
    simp
  · rw [hlog]
    split
    · next hin =>
        rw [Bool.and_eq_true] at hin
        rw [List.map_append, List.map_append, h.tiles, List.map_singleton, List.map_singleton, blocks_snoc,
          psn_of_inOrder hin.1 hin.2, hans hin.1, h.epsn]
    · simpa using h.tiles
  · rw [hlog]
    refine hepsn.trans ?_
    split
    · next hin =>
        rw [Bool.and_eq_true] at hin
        rw [psn_of_inOrder hin.1 hin.2, hans hin.1, h.epsn, ← BitVec.ofNat_add]
        simp [Nat.add_assoc]
    · rw [← hnow, h.epsn, List.append_nil]

theorem Inv.rxIbhFsm (h : Inv q e t) (hs : t.step q .rxIbhFsm = some u) : Inv q e u := by
  simp only [step, Option.some.injEq] at hs
  cases hst : t.fsm.fsmState with
  | LOAD =>
    cases hp : t.packets with
    | nil =>
      simp [Roce.rxIbhFsm, handles, hst, hp] at hs
      rw [← hs]
      convert h using 1
      simp [← hp]
    | cons p ps =>
      simp [Roce.rxIbhFsm, handles, hst, hp] at hs
      rw [← hs]
      exact h.load hst hp rfl rfl rfl rfl
  | PROCESS =>
    obtain ⟨hm, he, hr⟩ := h.registers hst
    cases hrsp : t.rsp with
    | nil =>
      simp [Roce.rxIbhFsm, handles, hst, hrsp] at hs
      rw [← hs]
      convert h using 1
      simp [← hrsp]
    | cons r rs =>
      simp [Roce.rxIbhFsm, handles, hst, hrsp, hm, he, hr] at hs
      rw [← hs]
      exact h.process hst hrsp rfl

/-- A call of the table that leaves `resp_epsn` of `q`, with the updates on their way, as it is. -/
theorem Inv.served {table : Qpn → StateTableEntry} {req : StateTableIn} {rsp : List RxStateRsp}
    (h : Inv q e t)
    (hclient : TableClient RxStateReq.write (t.fsm.fsmState == .PROCESS) req.rxIbh2stateTableUpdReq rsp)
    (hreq : ∀ r ∈ req.rxIbh2stateTableUpdReq, r ∈ t.req.rxIbh2stateTableUpdReq)
    (hqpi : ∀ r ∈ req.qpi2stateTableUpdReq, r ∈ t.req.qpi2stateTableUpdReq)
    (hepsn : respEpsn { t with table, req, rsp } q = t.respEpsn q)
    (hrsp : ∀ r ∈ rsp, r ∈ t.rsp ∨ (t.current.isRequest q = true → r.epsn = t.respEpsn q)) :
    Inv q e { t with table, req, rsp } := by
  refine ⟨hclient, h.registers, fun r hr => h.reads r (hreq r hr), ?_, fun r hr => h.qpi r (hqpi r hr),
    h.order, h.tiles, hepsn.trans h.epsn, h.through⟩
  intro r hr hreq
  rw [hepsn]
  rcases hrsp r hr with hold | hnew
  · exact h.answer r hold hreq
  · exact hnew hreq

theorem rxUpdate_respEpsn (table : Qpn → StateTableEntry) {r : RxStateReq} (hw : r.write = true) :
    (Function.update table r.qpn ((table r.qpn).rxUpdate r) q).respEpsn =
      epsnAfter q (table q).respEpsn r := by
  unfold epsnAfter StateTableEntry.rxUpdate
  by_cases hq : q = r.qpn
  · subst hq
    cases hrsp : r.isResponse <;> simp [hw]
  · rw [Function.update_of_ne hq]
    simp [Ne.symm hq]

theorem Inv.stateTable (h : Inv q e t) (hs : t.step q .stateTable = some u) : Inv q e u := by
  simp only [step, Option.some.injEq] at hs
  rw [← hs]
  unfold Roce.stateTable
  have hclient := h.client
  split
  · next r rest hrx =>
      rw [hrx] at hclient
      cases hw : r.write with
      | true =>
        simp only [if_true, List.append_nil]
        refine h.served (hclient.serve_write hw) ?_ (fun r hr => hr) ?_ (fun r hr => .inl hr)
        · rw [hrx]
          exact fun _ hr => List.mem_cons_of_mem _ hr
        · rw [respEpsn, respEpsn, hrx, List.foldl_cons, rxUpdate_respEpsn _ hw]
      | false =>
        obtain ⟨hbusy, hrest, hrsp⟩ := hclient.serve_read hw
        have hread := h.reads r (by rw [hrx]; exact List.mem_cons_self) hw
        have hepsn : t.respEpsn q = (t.table q).respEpsn := by
          rw [respEpsn, hrx, hrest, List.foldl_cons, List.foldl_nil, epsnAfter, hw]
          rfl
        simp only [Bool.false_eq_true, if_false, hrsp, hrest, List.nil_append]
        refine h.served ?_ (by simp) (fun r hr => hr) hepsn.symm ?_
        · rw [hbusy]
          exact TableClient.answered _
        · intro x hx
          right
          intro hreq
          simp only [Packet.isRequest, Bool.and_eq_true, beq_iff_eq, Bool.not_eq_true'] at hreq
          rw [List.mem_singleton.mp hx, hepsn, hread, ← hreq.1, hreq.2]
          rfl
  · next r rest hrx htx =>
      have hsame (table : Qpn → StateTableEntry) (ht : (table q).respEpsn = (t.table q).respEpsn) :
          Inv q e { t with table, req := { t.req with txIbh2stateTableUpdReq := rest }, rsp := t.rsp } := by
        refine h.served hclient (fun r hr => hr) (fun r hr => hr) ?_ (fun r hr => .inl hr)
        simp only [respEpsn, ht]
      split
      · simp only [List.append_nil]
        apply hsame
        by_cases hq : q = r.qpn
        · subst hq
          simp
        · rw [Function.update_of_ne hq]
      · simp only [List.append_nil]
        exact hsame t.table rfl
  · next r rest hrx htx hqpi =>
      have hne := h.qpi r (by rw [hqpi]; exact List.mem_cons_self)
      have hsame (table : Qpn → StateTableEntry) (ht : table q = t.table q) :
          Inv q e { t with table, req := { t.req with qpi2stateTableUpdReq := rest }, rsp := t.rsp } := by
        refine h.served hclient (fun r hr => hr) ?_ ?_ (fun r hr => .inl hr)
        · rw [hqpi]
          exact fun _ hr => List.mem_cons_of_mem _ hr
        · simp only [respEpsn, ht]
      cases hw : r.write with
      | true =>
        simp only [if_true, List.append_nil]
        apply hsame
        exact Function.update_of_ne (hne hw).symm _ _
      | false =>
        simp only [Bool.false_eq_true, if_false, List.append_nil]
        exact hsame t.table rfl
  · simpa using h

theorem inv_step {l : ResponderLabel} (h : Inv q e t) (hs : t.step q l = some u) : Inv q e u := by
  cases l with
  | arrive p =>
    cases hs
    refine { h with order := ?_ }
    rw [h.order, pending, pending]
    cases t.fsm.fsmState <;> simp
  | tx r =>
    cases hs
    exact { h with }
  | qpi r =>
    simp only [step] at hs
    split at hs
    · cases hs
    · next hr =>
        cases hs
        refine { h with qpi := ?_ }
        intro x hx hw hq
        rcases List.mem_append.mp hx with hx | hx
        · exact h.qpi x hx hw hq
        · rw [List.mem_singleton.mp hx] at hw hq
          exact hr (by simp [hw, hq])
  | rxIbhFsm => exact h.rxIbhFsm hs
  | stateTable => exact h.stateTable hs

theorem Connected.inv {e : BitVec 24} (h : Connected q e t) : Inv q e.toNat t := by
  have hacc : t.accepted q = [] := by simp [accepted, h.logs.2]
  refine ⟨?_, ?_, ?_, ?_, h.qpi, ?_, ?_, ?_, ?_⟩
  · rw [h.load, h.req, h.rsp]
    exact TableClient.quiet (by simp)
  · rw [h.load]
    intro hc
    cases hc
  · simp [h.req]
  · simp [h.rsp]
  · rw [h.logs.1, h.logs.2, pending, h.load, h.packets]
    rfl
  · rw [hacc]
    rfl
  · rw [hacc, respEpsn, h.req]
    simp [h.epsn]
  · simp [h.logs.2]

/-! ## Main result -/

/-- In every run of a connected queue pair, packets are handled in the order of their arrival; the accepted
requests cover the packet sequence numbers from the initial `resp_epsn` on, one behind the other, and none
of them covers nothing; a payload is let through only with an accepted request; and `resp_epsn` moves with
an accepted request only. -/
theorem responder_exactly_once {e : BitVec 24} {t₀ t : ResponderNet} (h₀ : Connected q e t₀)
    (h : Reach (step q) anyStep t₀ t) :
    t.arrived = t.handled.map (·.packet) ++ t.pending ∧
      (t.accepted q).map (fun p => (p.ibh.psn, p.covers)) =
        blocks 24 e.toNat ((t.accepted q).map Packet.covers) ∧
      (∀ p ∈ t.accepted q, p.ibh.opCode ≠ RC_RDMA_READ_REQUEST ∨ p.length ≠ 0 → 0 < p.covers) ∧
      (∀ h ∈ t.handled, h.packet.isRequest q = true → false ∈ h.out.ibhDropFifo → h.accepted q = true) ∧
      t.respEpsn q = e + BitVec.ofNat 24 ((t.accepted q).map Packet.covers).sum ∧
      ∀ l u, t.step q l = some u → u.accepted q = t.accepted q → u.respEpsn q = t.respEpsn q := by
  have hinv : Inv q e.toNat t := h.invariant h₀.inv fun u l v hu _ hs => inv_step hu hs
  refine ⟨hinv.order, hinv.tiles, ?_, hinv.through, ?_, ?_⟩
  · intro p _ hp
    unfold Packet.covers PMTU
    split
    · next hop =>
        have hlen : p.length ≠ 0 := hp.resolve_left (not_not_intro hop)
        have : p.length.toNat ≠ 0 := fun h0 => hlen (BitVec.eq_of_toNat_eq (by simpa using h0))
        omega
    · exact Nat.one_pos
  · rw [hinv.epsn, BitVec.ofNat_add, BitVec.ofNat_toNat, BitVec.setWidth_eq]
  · intro l u hs hacc
    rw [hinv.epsn, (inv_step hinv hs).epsn, hacc]

/-- Queue pair 3 is connected with the last number before the wrap. -/
def connected : ResponderNet :=
  { fsm := {}, packets := [], current := default, req := {}, rsp := []
    table := Function.update (fun _ => {}) 3 (.connect ⟨3, 100, 0xFFFFFF, true⟩)
    arrived := [], handled := [] }

theorem connected_connected : Connected 3 0xFFFFFF connected := by
  refine ⟨rfl, rfl, rfl, rfl, rfl, ?_, rfl, rfl⟩
  intro r hr
  cases hr

def receive (opCode : IbOpCode) (psn : BitVec 24) (length : BitVec 32) : List ResponderLabel :=
  [.arrive { ibh := ⟨opCode, 0, 3, psn, true, 1⟩, length }, .rxIbhFsm, .stateTable, .rxIbhFsm, .stateTable]

-- A write before the wrap and its duplicate, a read of three packets, a send that came too early, and the
-- send that was expected.
theorem responder_exactly_once_wrap :
    ∃ t, Connected 3 0xFFFFFF connected ∧ Reach (step 3) anyStep connected t ∧ t.respEpsn 3 = 4 ∧
      (t.accepted 3).map (fun p => (p.ibh.psn, p.covers)) = [(0xFFFFFF, 1), (0, 3), (3, 1)] := by
  have h : (run (step 3) connected (receive RC_RDMA_WRITE_ONLY 0xFFFFFF 64 ++
      receive RC_RDMA_WRITE_ONLY 0xFFFFFF 64 ++ receive RC_RDMA_READ_REQUEST 0 10000 ++
      receive RC_SEND_ONLY 5 0 ++ receive RC_SEND_ONLY 3 0)).map
      (fun t => (t.accepted 3).map (fun p => (p.ibh.psn, p.covers))) =
        some [(0xFFFFFF, 1), (0, 3), (3, 1)] := by
    decide +kernel
  obtain ⟨t, ht, hacc⟩ := Option.map_eq_some_iff.mp h
  have hr := reach_of_run ht
  obtain ⟨-, -, -, -, hepsn, -⟩ := responder_exactly_once connected_connected hr
  have hcov : (t.accepted 3).map Packet.covers = [1, 3, 1] := by
    have := congrArg (List.map Prod.snd) hacc
    simpa [Function.comp_def] using this
  refine ⟨t, connected_connected, hr, ?_, hacc⟩
  rw [hepsn, hcov]
  decide

end ResponderNet

end FpgaNetworkStack.Roce
