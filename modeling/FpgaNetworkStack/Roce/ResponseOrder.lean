import FpgaNetworkStack.Lib.Lanes
import FpgaNetworkStack.Roce.HeaderNet
import FpgaNetworkStack.Roce.Responder

/-!
# The order of the responses

`rx_exh_fsm` answers a write or a send with an event for `stream_merger` and hands a read request over to
`handle_read_requests`.  `meta_merger` takes what has come through on the two ways, acknowledgements first.  The
network below numbers the accepted packets and keeps the number with everything that is derived from them.
-/

namespace FpgaNetworkStack.Roce

open Lib IbOpCode
open Toe (popped)
open HeaderNet (readTag)

/-- One call of `stream_merger`: the first input goes first. -/
def streamMerger {α : Type} (in1 in2 : List α) : List α × List α × List α :=
  match in1, in2 with
  | x :: rest, _ => (rest, in2, [x])
  | [], x :: rest => ([], rest, [x])
  | [], [] => ([], [], [])

def ReadRequest.events (r : ReadRequest) : List Event := (List.range r.packets).map r.readEvent

/-- The header `meta_merger` makes of an acknowledgement. -/
def AckEvent.ibhMeta (a : AckEvent) : IbhMeta := ⟨RC_ACK, 0, a.qpn, a.psn, a.validPsn, 1⟩

namespace IbhMeta

variable (m : IbhMeta) (header : BitVec RETH_SIZE)

/-- The packet with what `rx_process_exh` takes from its RETH. -/
def packet : Packet := { ibh := m, length := getLength header }

def readRequest : ReadRequest :=
  { qpn := m.destQp, vaddr := getVirtualAddress header, dmaLength := getLength header, psn := m.psn }

/-- The headers of the responses to the packet, in order. -/
def responses : List IbhMeta :=
  if m.opCode = RC_RDMA_READ_REQUEST then (m.readRequest header).events.map Event.ibhMeta
  else if checkIfResponse m.opCode then []
  else [⟨RC_ACK, 0, m.destQp, m.psn, true, 1⟩]

end IbhMeta

structure OrderNet where
  exhFsm : RxExhFsm := {}
  /-- The packet in the registers of `rx_exh_fsm`. -/
  held : Nat := 0
  /-- `rx_fsm2exh_MetaFifo` -/
  ibhs : Tagged IbhMeta := []
  headers : List (BitVec RETH_SIZE) := []
  lengths : List (BitVec 16) := []
  msnRsps : List DmaState := []
  inits : List RetransRdInit := []
  reads : HandleReadRequests := {}
  /-- The packet in the register of `handle_read_requests`. -/
  reading : Nat := 0
  readRequests : Tagged ReadRequest := []
  readEvents : Tagged Event := []
  /-- `rx_exhEventMetaFifo` -/
  exhEvents : Tagged AckEvent := []
  /-- `rx_ackEventFifo` -/
  ackEvents : Tagged AckEvent := []
  appEvents : List Event := []
  /-- The number expected next. -/
  epsn : Qpn → BitVec 24
  accepted : Nat := 0
  /-- The responses to all accepted packets, in the order of the packets. -/
  expected : Tagged IbhMeta := []
  /-- The responses `meta_merger` has written. -/
  emitted : Tagged IbhMeta := []

inductive OrderLabel where
  | accept (m : IbhMeta) (header : BitVec RETH_SIZE) (length : BitVec 16)
  | msnRsp (d : DmaState)
  | retransRdInit (r : RetransRdInit)
  | appEvent (ev : Event)
  | rxExhFsm
  | handleReadRequests
  | streamMerger
  | metaMerger

namespace OrderNet

def init (epsn : Qpn → BitVec 24) : OrderNet := { epsn }

def callExhFsm (t : OrderNet) : OrderNet :=
  let (exhFsm, i, out) := rxExhFsm t.exhFsm ⟨t.ibhs.map (·.2), t.lengths, t.msnRsps, t.inits, t.headers⟩
  let held := readTag t.ibhs i.metaIn t.held
  { t with
    exhFsm, held
    ibhs := t.ibhs.drop (popped t.ibhs i.metaIn)
    headers := i.headerInput
    lengths := i.udpLengthFifo
    msnRsps := i.msnTable2rxExhRsp
    inits := i.retrans2rxInit
    readRequests := t.readRequests ++ out.readRequestFifo.map (held, ·)
    exhEvents := t.exhEvents ++ out.rxExhEventMetaFifo.map (held, ·) }

def callReads (t : OrderNet) : OrderNet :=
  let (reads, requestIn, out) := handleReadRequests t.reads (t.readRequests.map (·.2))
  let reading := readTag t.readRequests requestIn t.reading
  { t with
    reads, reading
    readRequests := t.readRequests.drop (popped t.readRequests requestIn)
    readEvents := t.readEvents ++ out.readEventFifo.map (reading, ·) }

/-- Every packet is in order, so `rx_ibh_fsm` writes no event of its own. -/
def callStreamMerger (t : OrderNet) : OrderNet :=
  let (exhEvents, _, out) := streamMerger t.exhEvents []
  { t with exhEvents, ackEvents := t.ackEvents ++ out }

def callMetaMerger (t : OrderNet) : OrderNet :=
  let (i, out) := metaMerger ⟨t.ackEvents.map (·.2), t.readEvents.map (·.2), t.appEvents⟩
  let acks := t.ackEvents.take (popped t.ackEvents i.rxAckEventFifo)
  let reads := t.readEvents.take (popped t.readEvents i.rxReadEvenFifo)
  { t with
    ackEvents := t.ackEvents.drop acks.length
    readEvents := t.readEvents.drop reads.length
    appEvents := i.txAppMetaFifo
    emitted := t.emitted ++
      (acks.map (·.1) ++ reads.map (·.1)).flatMap fun no => out.txIbhMetaFifo.map (no, ·) }

/-- One call of a process, or one action of the environment.  `accept` is a packet that `rx_ibh_fsm` found in
order: a request has the expected number, and the next one follows the numbers it takes. -/
def step (t : OrderNet) : OrderLabel → Option OrderNet
  | .accept m header length =>
    let q : Qpn := m.destQp.setWidth 16
    if checkIfResponse m.opCode = false ∧ m.psn ≠ t.epsn q then none
    else
      some { t with
        ibhs := t.ibhs ++ [(t.accepted, m)], headers := t.headers ++ [header], lengths := t.lengths ++ [length]
        epsn :=
          if checkIfResponse m.opCode then t.epsn
          else Function.update t.epsn q (m.psn + (m.packet header).exh.numPkg.setWidth 24)
        accepted := t.accepted + 1
        expected := t.expected ++ (m.responses header).map (t.accepted, ·) }
  | .msnRsp d => some { t with msnRsps := t.msnRsps ++ [d] }
  | .retransRdInit r => some { t with inits := t.inits ++ [r] }
  | .appEvent ev => some { t with appEvents := t.appEvents ++ [ev] }
  | .rxExhFsm => some t.callExhFsm
  | .handleReadRequests => some t.callReads
  | .streamMerger => some t.callStreamMerger
  | .metaMerger => some t.callMetaMerger

/-- The read requests with packets that `meta_merger` has not taken, and their queue pairs. -/
def readsLeft (t : OrderNet) : Tagged (BitVec 24) :=
  t.readEvents.map (fun p => (p.1, p.2.qpn)) ++
    (if t.reads.hrrFsmState = .GENERATE then [(t.reading, t.reads.request.qpn)] else []) ++
    t.readRequests.map fun p => (p.1, p.2.qpn)

/-- The acknowledgements that `stream_merger` has not taken. -/
def acksLeft (t : OrderNet) : Tagged (BitVec 24) := t.exhEvents.map fun p => (p.1, p.2.qpn)

/-- An earlier packet of the same queue pair. -/
def precedes (no : Nat) (qpn : BitVec 24) (p : Nat × BitVec 24) : Bool :=
  decide (p.1 < no) && (p.2.setWidth 16 : Qpn) == qpn.setWidth 16

/-- What `meta_merger` takes leaves nothing behind, on the other way, of an earlier packet of the queue
pair. -/
def inTurn (t : OrderNet) : OrderLabel → Bool
  | .metaMerger =>
    match t.ackEvents, t.readEvents with
    | (no, a) :: _, _ => !t.readsLeft.any (precedes no a.qpn)
    | [], (no, ev) :: _ => !t.acksLeft.any (precedes no ev.qpn)
    | [], [] => true
  | _ => true

def of (q : Qpn) (l : Tagged IbhMeta) : Tagged IbhMeta := l.filter fun p => p.2.destQp.setWidth 16 == q

/-- The responses for `q` come out in the order of the requests, with one number after the other; when a response
is out, so are all of the earlier requests. -/
structure InOrder (epsn : Qpn → BitVec 24) (t : OrderNet) (q : Qpn) : Prop where
  ordered : of q t.emitted <+: of q t.expected
  psns : (of q t.emitted).map (·.2.psn) =
    (List.range (of q t.emitted).length).map fun i => epsn q + BitVec.ofNat 24 i
  earlier : ∀ p ∈ of q t.emitted, ∀ r ∈ of q t.expected, r.1 < p.1 → r ∈ of q t.emitted

/-! ### The responses to one packet -/

section Responses

variable {m : IbhMeta} {header : BitVec RETH_SIZE}

theorem responses_qpn : ∀ x ∈ m.responses header, x.destQp = m.destQp := by
  unfold IbhMeta.responses
  intro x hx
  split at hx
  · obtain ⟨ev, hev, rfl⟩ := List.mem_map.mp hx
    obtain ⟨i, -, rfl⟩ := List.mem_map.mp hev
    rfl
  · split at hx
    · cases hx
    · rw [List.mem_singleton.mp hx]

theorem readEvent_opCode (r : ReadRequest) (i : Nat) : (r.readEvent i).opCode ≠ RC_ACK := by
  show r.opCode i ≠ RC_ACK
  unfold ReadRequest.opCode
  split_ifs <;> exact fun h => by cases h

theorem responses_lane (m : IbhMeta) (header : BitVec RETH_SIZE) :
    (∀ x ∈ m.responses header, x.opCode = RC_ACK) ∨ ∀ x ∈ m.responses header, x.opCode ≠ RC_ACK := by
  unfold IbhMeta.responses
  split
  · right
    intro x hx
    obtain ⟨ev, hev, rfl⟩ := List.mem_map.mp hx
    obtain ⟨i, -, rfl⟩ := List.mem_map.mp hev
    exact readEvent_opCode _ i
  · left
    intro x hx
    split at hx
    · cases hx
    · rw [List.mem_singleton.mp hx]

theorem responses_of_response (h : checkIfResponse m.opCode = true) : m.responses header = [] := by
  have hop : m.opCode ≠ RC_RDMA_READ_REQUEST := by
    intro hop
    rw [hop] at h
    cases h
  rw [IbhMeta.responses, if_neg hop, if_pos h]

theorem responses_psn (header : BitVec RETH_SIZE) (h : checkIfResponse m.opCode = false) :
    (m.responses header).map (·.psn) =
      (List.range (m.packet header).covers).map fun i => m.psn + BitVec.ofNat 24 i := by
  unfold IbhMeta.responses Packet.covers
  by_cases hop : m.opCode = RC_RDMA_READ_REQUEST
  · have hop' : (m.packet header).ibh.opCode = RC_RDMA_READ_REQUEST := hop
    rw [if_pos hop, if_pos hop', List.map_map, ReadRequest.events, List.map_map]
    rfl
  · have hop' : ¬ (m.packet header).ibh.opCode = RC_RDMA_READ_REQUEST := hop
    rw [if_neg hop, if_neg hop', h]
    simp

theorem data_answers {s : RxExhFsm} {out : RxExhFsmOut} (h : s.data = some out) :
    (out.readRequestFifo = [] ∧
      out.rxExhEventMetaFifo.map AckEvent.ibhMeta = s.metaReg.responses s.exHeader) ∨
    ∃ r, 0 < r.dmaLength.toNat ∧ out.readRequestFifo = [r] ∧ out.rxExhEventMetaFifo = [] ∧
      r.events.map Event.ibhMeta = s.metaReg.responses s.exHeader := by
  unfold RxExhFsm.data RxExhFsm.rdmaWriteFirst at h
  by_cases hop : s.metaReg.opCode = RC_RDMA_READ_REQUEST
  · rw [hop] at h
    cases h
    by_cases hlen : getLength s.exHeader = 0
    · left
      have hpackets : (s.metaReg.readRequest s.exHeader).packets = 0 := by
        simp [ReadRequest.packets, IbhMeta.readRequest, hlen, PMTU]
      simp [RxExhFsm.readRequest, hlen, IbhMeta.responses, hop, ReadRequest.events, hpackets]
    · right
      refine ⟨s.metaReg.readRequest s.exHeader, ?_, ?_, ?_, ?_⟩
      · rw [Nat.pos_iff_ne_zero]
        exact fun h0 => hlen (BitVec.eq_of_toNat_eq h0)
      · rw [RxExhFsm.readRequest, if_pos hlen]
        rfl
      · rw [RxExhFsm.readRequest, if_pos hlen]
      · rw [IbhMeta.responses, if_pos hop]
  · left
    cases hc : s.metaReg.opCode <;> simp only [hc] at h hop <;> (try split at h) <;> cases h <;>
      first
      | exact absurd trivial hop
      | simp [IbhMeta.responses, hc, checkIfResponse, RxExhFsm.send, RxExhFsm.rdmaWrite, RxExhFsm.rdmaWriteNext,
          RxExhFsm.readResp, RxExhFsm.ack, AckEvent.ibhMeta]

end Responses

/-! ### The register of `handle_read_requests` -/

/-- `left` are the events of the request in the register that are still to be written. -/
def Generating (s : HandleReadRequests) (left : List Event) : Prop :=
  match s.hrrFsmState with
  | .META => left = []
  | .GENERATE => ∃ (r : ReadRequest) (i : Nat), 0 < i ∧ i < r.packets ∧
      { s.request with psn := s.request.psn + 1 } = r.part i ∧
      left = (List.range' i (r.packets - i)).map r.readEvent

section Generating

variable {s : HandleReadRequests} {left : List Event} {r : ReadRequest} {i : Nat}

theorem generating_rest (h : i < r.packets) :
    Generating (if i + 1 < r.packets then ⟨.GENERATE, (r.part i).advance⟩ else ⟨.META, r.part i⟩)
      ((List.range' (i + 1) (r.packets - (i + 1))).map r.readEvent) := by
  split
  · next hlt => exact ⟨r, i + 1, Nat.succ_pos i, hlt, ReadRequest.advance_part hlt, rfl⟩
  · next hge =>
      have hend : r.packets - (i + 1) = 0 := by omega
      rw [hend]
      exact List.map_nil

theorem range'_packets (h : i < r.packets) : (List.range' i (r.packets - i)).map r.readEvent =
    r.readEvent i :: (List.range' (i + 1) (r.packets - (i + 1))).map r.readEvent := by
  have hsucc : r.packets - i = (r.packets - (i + 1)) + 1 := by omega
  rw [hsucc, List.range'_succ, List.map_cons]

theorem generating_next (h : Generating s left) (hs : s.hrrFsmState = .GENERATE) (rest : List ReadRequest) :
    ∃ ev left', left = ev :: left' ∧ (handleReadRequests s rest).2.1 = rest ∧
      (handleReadRequests s rest).2.2.readEventFifo = [ev] ∧ Generating (handleReadRequests s rest).1 left' := by
  rw [Generating, hs] at h
  obtain ⟨r, i, hi, hlt, hreq, rfl⟩ := h
  refine ⟨_, _, range'_packets hlt, ?_⟩
  rw [ReadRequest.generate_step rest hi hlt hs hreq]
  exact ⟨rfl, rfl, generating_rest hlt⟩

theorem generating_first (hs : s.hrrFsmState = .META) (hlen : 0 < r.dmaLength.toNat) (rest : List ReadRequest) :
    ∃ ev left', r.events = ev :: left' ∧ (handleReadRequests s (r :: rest)).2.1 = rest ∧
      (handleReadRequests s (r :: rest)).2.2.readEventFifo = [ev] ∧
      Generating (handleReadRequests s (r :: rest)).1 left' := by
  have hpos : 0 < r.packets := ReadRequest.lt_packets.mpr (by rw [Nat.mul_zero]; exact hlen)
  refine ⟨r.readEvent 0, (List.range' 1 (r.packets - 1)).map r.readEvent, ?_, ?_⟩
  · rw [ReadRequest.events, List.range_eq_range']
    exact range'_packets hpos
  · have hrest := generating_rest hpos
    rw [ReadRequest.part_zero] at hrest
    rw [ReadRequest.generate_first rest hs hlen]
    exact ⟨rfl, rfl, hrest⟩

theorem generating_qpn (h : Generating s left) {ev : Event} (hev : ev ∈ left) :
    s.hrrFsmState = .GENERATE ∧ ev.qpn = s.request.qpn := by
  unfold Generating at h
  split at h
  · rw [h] at hev
    cases hev
  · next hs =>
      obtain ⟨r, i, -, -, hreq, rfl⟩ := h
      obtain ⟨j, -, rfl⟩ := List.mem_map.mp hev
      exact ⟨hs, (congrArg ReadRequest.qpn hreq).symm⟩

end Generating

/-! ### Invariant -/

/-- Responses of the same packet all go the same way. -/
def After (p r : Nat × IbhMeta) : Prop :=
  p.1 < r.1 ∨ p.1 = r.1 ∧ (p.2.opCode = RC_ACK ↔ r.2.opCode = RC_ACK)

def isAck (p : Nat × IbhMeta) : Bool := p.2.opCode == RC_ACK

/-- What `rx_exh_fsm` is still to answer. -/
def future (t : OrderNet) : Tagged IbhMeta :=
  (match t.exhFsm.peFsmState with
    | .META => []
    | _ => (t.exhFsm.metaReg.responses t.exhFsm.exHeader).map (t.held, ·)) ++
  (t.ibhs.zip t.headers).flatMap fun p => (p.1.2.responses p.2).map (p.1.1, ·)

def ackLane (t : OrderNet) : Tagged IbhMeta := (t.ackEvents ++ t.exhEvents).map fun p => (p.1, p.2.ibhMeta)

def readLane (t : OrderNet) (left : List Event) : Tagged IbhMeta :=
  t.readEvents.map (fun p => (p.1, p.2.ibhMeta)) ++ left.map (fun ev => (t.reading, ev.ibhMeta)) ++
    t.readRequests.flatMap fun p => (p.2.events.map Event.ibhMeta).map (p.1, ·)

/-- The responses that are still to come lie on the two lanes. -/
def Waiting (t : OrderNet) (left : List Event) (q : Qpn) : Prop :=
  ∃ w, of q t.expected = of q t.emitted ++ w ++ of q t.future ∧
    Lanes isAck w (of q t.ackLane) (of q (t.readLane left))

structure Inv (epsn : Qpn → BitVec 24) (t : OrderNet) (left : List Event) : Prop where
  paired : t.headers.length = t.ibhs.length
  requests : ∀ p ∈ t.readRequests, 0 < p.2.dmaLength.toNat
  generating : Generating t.reads left
  fresh : ∀ p ∈ t.expected, p.1 < t.accepted
  sorted : t.expected.Pairwise After
  psns : ∀ q, (of q t.expected).map (·.2.psn) =
    (List.range (of q t.expected).length).map fun i => epsn q + BitVec.ofNat 24 i
  next : ∀ q, t.epsn q = epsn q + BitVec.ofNat 24 (of q t.expected).length
  waiting : ∀ q, t.Waiting left q

theorem of_append (q : Qpn) (l l' : Tagged IbhMeta) : of q (l ++ l') = of q l ++ of q l' := List.filter_append _ _

theorem of_nil (q : Qpn) : of q [] = [] := rfl

theorem of_responses (q : Qpn) (m : IbhMeta) (header : BitVec RETH_SIZE) (no : Nat) :
    of q ((m.responses header).map (no, ·)) =
      if m.destQp.setWidth 16 = q then (m.responses header).map (no, ·) else [] := by
  have hqpn (p : Nat × IbhMeta) (hp : p ∈ (m.responses header).map (no, ·)) : p.2.destQp = m.destQp := by
    obtain ⟨x, hx, rfl⟩ := List.mem_map.mp hp
    exact responses_qpn x hx
  split
  · next hq =>
      apply List.filter_eq_self.mpr
      intro p hp
      rw [hqpn p hp, hq]
      exact beq_self_eq_true q
  · next hq =>
      apply List.filter_eq_nil_iff.mpr
      intro p hp
      rw [hqpn p hp]
      simpa using hq

theorem inv_init (epsn : Qpn → BitVec 24) : Inv epsn (init epsn) [] where
  paired := rfl
  requests := fun _ hp => (List.not_mem_nil hp).elim
  generating := rfl
  fresh := fun _ hp => (List.not_mem_nil hp).elim
  sorted := List.Pairwise.nil
  psns := fun _ => rfl
  next := fun q => by simp [init, of_nil]
  waiting := fun _ => ⟨[], rfl, Lanes.nil⟩

section Steps

variable {epsn : Qpn → BitVec 24} {t u : OrderNet} {left : List Event}

theorem range_append {a : BitVec 24} {n k : Nat} :
    (List.range n).map (fun i => a + BitVec.ofNat 24 i) ++
        (List.range k).map (fun i => a + BitVec.ofNat 24 n + BitVec.ofNat 24 i) =
      (List.range (n + k)).map fun i => a + BitVec.ofNat 24 i := by
  rw [List.range_add, List.map_append, List.map_map]
  congr 1
  apply List.map_congr_left
  intro i _
  rw [Function.comp_apply, BitVec.ofNat_add, BitVec.add_assoc]

theorem Inv.accept (h : Inv epsn t left) {m : IbhMeta} {header : BitVec RETH_SIZE} {length : BitVec 16}
    (hs : t.step (.accept m header length) = some u) : Inv epsn u left := by
  simp only [step] at hs
  split at hs
  · cases hs
  · next hpsn =>
    cases hs
    refine ⟨?_, h.requests, h.generating, ?_, ?_, ?_, ?_, ?_⟩
    · simp [h.paired]
    · intro p hp
      rcases List.mem_append.mp hp with hp | hp
      · exact Nat.lt_succ_of_lt (h.fresh p hp)
      · obtain ⟨x, -, rfl⟩ := List.mem_map.mp hp
        exact Nat.lt_succ_self _
    · rw [List.pairwise_append, List.pairwise_map]
      refine ⟨h.sorted, ?_, ?_⟩
      · apply List.pairwise_of_forall_mem_list
        intro x hx y hy
        rcases responses_lane m header with hlane | hlane
        · exact .inr ⟨rfl, iff_of_true (hlane x hx) (hlane y hy)⟩
        · exact .inr ⟨rfl, iff_of_false (hlane x hx) (hlane y hy)⟩
      · intro p hp r hr
        obtain ⟨x, -, rfl⟩ := List.mem_map.mp hr
        exact .inl (h.fresh p hp)
    · intro q
      rw [of_append, of_responses]
      by_cases hq : m.destQp.setWidth 16 = q
      · rw [if_pos hq, List.map_append, h.psns q, List.length_append, List.map_map]
        cases hr : checkIfResponse m.opCode with
        | true => simp [responses_of_response hr]
        | false =>
          have hnum : m.psn = epsn q + BitVec.ofNat 24 (of q t.expected).length := by
            rw [← h.next q, ← hq]
            by_contra hne
            exact hpsn ⟨hr, hne⟩
          have hpsns := responses_psn header hr
          have hlen := congrArg List.length hpsns
          rw [List.length_map, List.length_map, List.length_range] at hlen
          rw [List.length_map, hlen, ← range_append, ← hnum, ← hpsns]
          rfl
      · rw [if_neg hq, List.append_nil]
        exact h.psns q
    · intro q
      have hnext := h.next q
      rw [of_append, of_responses]
      cases hr : checkIfResponse m.opCode with
      | true =>
        rw [responses_of_response hr]
        simpa using hnext
      | false =>
        by_cases hq : m.destQp.setWidth 16 = q
        · have hnum : m.psn = t.epsn q := by
            rw [← hq]
            by_contra hne
            exact hpsn ⟨hr, hne⟩
          have hlen := congrArg List.length (responses_psn header hr)
          rw [List.length_map, List.length_map, List.length_range] at hlen
          rw [if_pos hq, if_neg Bool.false_ne_true, hq, List.length_append, List.length_map, hlen]
          show Function.update t.epsn q _ q = _
          rw [Function.update_self, hnum, hnext, exh_numPkg, BitVec.ofNat_add, ← BitVec.add_assoc]
        · rw [if_neg hq, List.append_nil, if_neg Bool.false_ne_true]
          show Function.update t.epsn _ _ q = _
          rw [Function.update_of_ne (Ne.symm hq)]
          exact hnext
    · intro q
      obtain ⟨w, hw, hlanes⟩ := h.waiting q
      refine ⟨w, ?_, hlanes⟩
      have hzip : ((t.ibhs ++ [(t.accepted, m)]).zip (t.headers ++ [header])) =
          t.ibhs.zip t.headers ++ [((t.accepted, m), header)] := by
        rw [List.zip_append h.paired.symm]
        rfl
      rw [of_append, hw, List.append_assoc, ← of_append]
      simp only [future, hzip, List.flatMap_append, List.flatMap_singleton, List.append_assoc]

/-- A step that only moves what is under way, and leaves the two lanes and the rest as they are. -/
theorem Waiting.congr (u : OrderNet) (left' : List Event) {q : Qpn} (h : t.Waiting left q)
    (hexp : u.expected = t.expected) (hem : u.emitted = t.emitted) (hfut : u.future = t.future) (hack : u.ackLane = t.ackLane)
    (hread : u.readLane left' = t.readLane left) : u.Waiting left' q := by
  unfold Waiting
  rw [hexp, hem, hfut, hack, hread]
  exact h

theorem Inv.exhFsm (h : Inv epsn t left) : Inv epsn t.callExhFsm left := by
  cases hst : t.exhFsm.peFsmState with
  | META =>
    rcases hm : t.ibhs with _ | ⟨⟨no, m⟩, ibhs⟩
    · have hcall : t.callExhFsm = t := by
        simp [callExhFsm, Roce.rxExhFsm, hst, hm, popped, readTag]
        rw [← hm]
      rw [hcall]
      exact h
    have hpaired := h.paired
    rcases hx : t.headers with _ | ⟨header, headers⟩
    · rw [hx, hm] at hpaired
      cases hpaired
    rw [hx, hm] at hpaired
    have hcall : t.callExhFsm = { t with
        exhFsm := { t.exhFsm with
          peFsmState := .DMA_META, metaReg := m, exHeader := header
          consumeReadInit := startsReadResp m.opCode }
        held := no, ibhs, headers } := by
      simp [callExhFsm, Roce.rxExhFsm, hst, hm, hx, popped, readTag]
    have hfuture : t.callExhFsm.future = t.future := by
      simp [hcall, future, hst, hm, hx]
    have hwait := fun q => (h.waiting q).congr t.callExhFsm left (by rw [hcall]) (by rw [hcall])
      hfuture (by rw [hcall]; rfl) (by rw [hcall]; rfl)
    rw [hcall] at hwait ⊢
    exact { h with paired := Nat.succ.inj hpaired, waiting := hwait }
  | DMA_META =>
    have hcall : t.callExhFsm = { t with
        exhFsm := t.callExhFsm.exhFsm, lengths := t.callExhFsm.lengths, msnRsps := t.callExhFsm.msnRsps
        inits := t.callExhFsm.inits } ∧ t.callExhFsm.exhFsm.peFsmState ≠ .META ∧
        t.callExhFsm.exhFsm.metaReg = t.exhFsm.metaReg ∧ t.callExhFsm.exhFsm.exHeader = t.exhFsm.exHeader := by
      unfold callExhFsm Roce.rxExhFsm
      rw [hst]
      cases t.msnRsps <;> cases t.lengths <;> cases t.exhFsm.consumeReadInit <;> cases t.inits <;>
        simp [popped, readTag, hst]
    obtain ⟨hcall, hst', hmeta, hheader⟩ := hcall
    have hfuture : t.callExhFsm.future = t.future := by
      unfold future
      rw [hmeta, hheader, hst, hcall]
      cases hs' : t.callExhFsm.exhFsm.peFsmState with
      | META => exact absurd hs' hst'
      | DMA_META | DATA => rfl
    have hwait := fun q => (h.waiting q).congr t.callExhFsm left (by rw [hcall]) (by rw [hcall])
      hfuture (by rw [hcall]; rfl) (by rw [hcall]; rfl)
    rw [hcall] at hwait ⊢
    exact { h with waiting := hwait }
  | DATA =>
    cases hd : t.exhFsm.data with
    | none =>
      have hcall : t.callExhFsm = t := by
        simp [callExhFsm, Roce.rxExhFsm, hst, hd, popped, readTag]
      rw [hcall]
      exact h
    | some out =>
      have hcall : t.callExhFsm = { t with
          exhFsm := { t.exhFsm with peFsmState := .META }
          readRequests := t.readRequests ++ out.readRequestFifo.map (t.held, ·)
          exhEvents := t.exhEvents ++ out.rxExhEventMetaFifo.map (t.held, ·) } := by
        simp [callExhFsm, Roce.rxExhFsm, hst, hd, popped, readTag]
      -- the responses leave `future` for one of the lanes
      have hfuture : t.future =
          (t.exhFsm.metaReg.responses t.exhFsm.exHeader).map (t.held, ·) ++ t.callExhFsm.future := by
        simp [hcall, future, hst]
      have hlanes : Lanes isAck ((t.exhFsm.metaReg.responses t.exhFsm.exHeader).map (t.held, ·))
          (out.rxExhEventMetaFifo.map fun a => (t.held, a.ibhMeta))
          (out.readRequestFifo.flatMap fun r => (r.events.map Event.ibhMeta).map (t.held, ·)) := by
        rcases data_answers hd with ⟨hreq, hack⟩ | ⟨r, -, hreq, hack, hread⟩
        · rw [hreq, List.flatMap_nil, ← hack, List.map_map]
          apply Lanes.all_left
          intro p hp
          obtain ⟨a, -, rfl⟩ := List.mem_map.mp hp
          rfl
        · rw [hreq, hack, List.flatMap_singleton, List.map_nil, hread]
          apply Lanes.all_right
          intro p hp
          rw [← hread, List.map_map] at hp
          obtain ⟨ev, hev, rfl⟩ := List.mem_map.mp hp
          obtain ⟨i, -, rfl⟩ := List.mem_map.mp hev
          exact beq_false_of_ne (readEvent_opCode r i)
      have hreqs : ∀ p ∈ t.callExhFsm.readRequests, 0 < p.2.dmaLength.toNat := by
        intro p hp
        rw [hcall] at hp
        rcases List.mem_append.mp hp with hp | hp
        · exact h.requests p hp
        · obtain ⟨r, hr, rfl⟩ := List.mem_map.mp hp
          rcases data_answers hd with ⟨hreq, -⟩ | ⟨r', hlen, hreq, -, -⟩
          · rw [hreq] at hr
            cases hr
          · rw [hreq] at hr
            rw [List.mem_singleton.mp hr]
            exact hlen
      have hwait : ∀ q, t.callExhFsm.Waiting left q := by
        intro q
        obtain ⟨w, hw, hlw⟩ := h.waiting q
        refine ⟨w ++ of q ((t.exhFsm.metaReg.responses t.exhFsm.exHeader).map (t.held, ·)), ?_, ?_⟩
        · rw [hfuture, of_append] at hw
          rw [← List.append_assoc, List.append_assoc _ w] at hw
          rw [hcall] at hw ⊢
          exact hw
        · have hack : of q t.callExhFsm.ackLane = of q t.ackLane ++
              of q (out.rxExhEventMetaFifo.map fun a => (t.held, a.ibhMeta)) := by
            rw [← of_append, hcall]
            simp only [ackLane, List.map_append, List.map_map, List.append_assoc]
            rfl
          have hread : of q (t.callExhFsm.readLane left) = of q (t.readLane left) ++
              of q (out.readRequestFifo.flatMap fun r => (r.events.map Event.ibhMeta).map (t.held, ·)) := by
            rw [← of_append, hcall]
            simp [readLane, List.flatMap_map]
          rw [hack, hread]
          exact hlw.append (hlanes.filter _)
      rw [hcall] at hreqs hwait ⊢
      exact { h with requests := hreqs, waiting := hwait }

theorem Inv.streamMerger (h : Inv epsn t left) : Inv epsn t.callStreamMerger left := by
  cases hx : t.exhEvents with
  | nil =>
    have hcall : t.callStreamMerger = t := by
      simp [callStreamMerger, Roce.streamMerger, hx]
      rw [← hx]
    rw [hcall]
    exact h
  | cons a rest =>
    have hcall : t.callStreamMerger = { t with exhEvents := rest, ackEvents := t.ackEvents ++ [a] } := by
      simp [callStreamMerger, Roce.streamMerger, hx]
    have hack : t.callStreamMerger.ackLane = t.ackLane := by
      simp [hcall, ackLane, hx]
    have hwait := fun q => (h.waiting q).congr t.callStreamMerger left (by rw [hcall])
      (by rw [hcall]) (by rw [hcall]; rfl) hack (by rw [hcall]; rfl)
    rw [hcall] at hwait ⊢
    exact { h with waiting := hwait }

theorem Inv.reads (h : Inv epsn t left) : ∃ left', Inv epsn t.callReads left' := by
  cases hst : t.reads.hrrFsmState with
  | META =>
    have hleft : left = [] := by
      have hg := h.generating
      rw [Generating, hst] at hg
      exact hg
    rcases hr : t.readRequests with _ | ⟨⟨no, r⟩, readRequests⟩
    · have hcall : t.callReads = t := by
        simp [callReads, Roce.handleReadRequests, hst, hr, popped, readTag]
        rw [← hr]
      rw [hcall]
      exact ⟨left, h⟩
    have hreqs := h.requests
    rw [hr, List.forall_mem_cons] at hreqs
    obtain ⟨ev, left', hev, hrest, hout, hgen⟩ :=
      generating_first (s := t.reads) hst hreqs.1 (readRequests.map (·.2))
    refine ⟨left', ?_⟩
    have hcall : t.callReads = { t with
        reads := (handleReadRequests t.reads (r :: readRequests.map (·.2))).1
        reading := no, readRequests
        readEvents := t.readEvents ++ [(no, ev)] } := by
      simp [callReads, hr, hrest, hout, popped, readTag]
    have hread : t.callReads.readLane left' = t.readLane left := by
      simp [hcall, readLane, hr, hleft, hev]
    have hwait := fun q => (h.waiting q).congr t.callReads left' (by rw [hcall])
      (by rw [hcall]) (by rw [hcall]; rfl) (by rw [hcall]; rfl) hread
    rw [hcall] at hwait ⊢
    exact { h with requests := hreqs.2, generating := hgen, waiting := hwait }
  | GENERATE =>
    obtain ⟨ev, left', hleft, hrest, hout, hgen⟩ := generating_next h.generating hst (t.readRequests.map (·.2))
    refine ⟨left', ?_⟩
    have hcall : t.callReads = { t with
        reads := (handleReadRequests t.reads (t.readRequests.map (·.2))).1
        readEvents := t.readEvents ++ [(t.reading, ev)] } := by
      simp [callReads, hrest, hout, popped, readTag]
    have hread : t.callReads.readLane left' = t.readLane left := by
      simp [hcall, readLane, hleft]
    have hwait := fun q => (h.waiting q).congr t.callReads left' (by rw [hcall])
      (by rw [hcall]) (by rw [hcall]; rfl) (by rw [hcall]; rfl) hread
    rw [hcall] at hwait ⊢
    exact { h with generating := hgen, waiting := hwait }

theorem mem_readsLeft (hg : Generating t.reads left) {p : Nat × IbhMeta} (hp : p ∈ t.readLane left) :
    (p.1, p.2.destQp) ∈ t.readsLeft := by
  unfold readLane at hp
  unfold readsLeft
  rcases List.mem_append.mp hp with hp | hp
  · apply List.mem_append_left
    rcases List.mem_append.mp hp with hp | hp
    · obtain ⟨e, he, rfl⟩ := List.mem_map.mp hp
      exact List.mem_append_left _ (List.mem_map.mpr ⟨e, he, rfl⟩)
    · -- the register
      obtain ⟨ev, hev, rfl⟩ := List.mem_map.mp hp
      obtain ⟨hs, hqpn⟩ := generating_qpn hg hev
      apply List.mem_append_right
      rw [if_pos hs, List.mem_singleton, ← hqpn]
      rfl
  · apply List.mem_append_right
    obtain ⟨e, he, hp⟩ := List.mem_flatMap.mp hp
    rw [List.map_map] at hp
    obtain ⟨ev, hev, rfl⟩ := List.mem_map.mp hp
    obtain ⟨i, -, rfl⟩ := List.mem_map.mp hev
    exact List.mem_map.mpr ⟨e, he, rfl⟩

-- not from an earlier packet, and not from the same one
theorem not_after {l : Tagged (BitVec 24)} {qpn : BitVec 24} {p r : Nat × IbhMeta} {q : Qpn}
    (hno : l.any (precedes r.1 qpn) = false) (hp : (p.1, p.2.destQp) ∈ l) (hpq : p.2.destQp.setWidth 16 = q)
    (hq : qpn.setWidth 16 = q) (hop : isAck p ≠ isAck r) : ¬ After p r := by
  rintro (hlt | ⟨-, hsame⟩)
  · have hfirst := List.any_eq_false.mp hno _ hp
    simp [precedes, hlt, hpq, hq] at hfirst
  · simp only [isAck] at hop
    by_cases hack : r.2.opCode = RC_ACK
    · simp [hack, hsame.mpr hack] at hop
    · have hpack : p.2.opCode ≠ RC_ACK := fun hc => hack (hsame.mp hc)
      rw [beq_false_of_ne hack, beq_false_of_ne hpack] at hop
      exact hop rfl

theorem mem_of {q : Qpn} {l : Tagged IbhMeta} {p : Nat × IbhMeta} (h : p ∈ of q l) :
    p ∈ l ∧ p.2.destQp.setWidth 16 = q := by
  obtain ⟨hmem, hq⟩ := List.mem_filter.mp h
  exact ⟨hmem, by simpa using hq⟩

theorem Inv.metaMerger (h : Inv epsn t left) (hok : t.inTurn .metaMerger = true) : Inv epsn t.callMetaMerger left := by
  have hsorted {q : Qpn} {w : Tagged IbhMeta} (hw : of q t.expected = of q t.emitted ++ w ++ of q t.future) :
      w.Pairwise After := by
    have hexp : (of q t.expected).Pairwise After := h.sorted.filter _
    rw [hw] at hexp
    exact (List.pairwise_append.mp (List.pairwise_append.mp hexp).1).2.1
  -- what is taken is the oldest of its queue pair, so it moves from `w` to what is emitted
  have hmove {q : Qpn} {w : Tagged IbhMeta} {x : Nat × IbhMeta}
      (hw : of q t.expected = of q t.emitted ++ x :: w ++ of q t.future) (hx : x.2.destQp.setWidth 16 = q) :
      of q t.expected = of q (t.emitted ++ [x]) ++ w ++ of q t.future := by
    have hone : of q [x] = [x] := by simp [of, hx]
    rw [of_append, hone, hw]
    simp
  have hskip {q : Qpn} {x : Nat × IbhMeta} (hx : x.2.destQp.setWidth 16 ≠ q) (l : Tagged IbhMeta) :
      of q (x :: l) = of q l ∧ of q (l ++ [x]) = of q l := by
    simp [of, hx]
  have htake {q : Qpn} {x : Nat × IbhMeta} (hx : x.2.destQp.setWidth 16 = q) (l : Tagged IbhMeta) :
      of q (x :: l) = x :: of q l := by
    simp [of, hx]
  rcases ha : t.ackEvents with _ | ⟨⟨no, a⟩, ackEvents⟩
  · rcases hr : t.readEvents with _ | ⟨⟨no, ev⟩, readEvents⟩
    · -- a request of the application, or nothing
      have hcall : t.callMetaMerger = { t with appEvents := t.callMetaMerger.appEvents } := by
        unfold callMetaMerger Roce.metaMerger
        rw [ha, hr]
        cases t.appEvents <;> simp [popped]
      have hwait := fun q => (h.waiting q).congr t.callMetaMerger left (by rw [hcall])
        (by rw [hcall]) (by rw [hcall]; rfl) (by rw [hcall]; rfl) (by rw [hcall]; rfl)
      rw [hcall] at hwait ⊢
      exact { h with waiting := hwait }
    · have hcall : t.callMetaMerger = { t with
          readEvents, emitted := t.emitted ++ [(no, ev.ibhMeta)] } := by
        simp [callMetaMerger, Roce.metaMerger, ha, hr, popped]
      have hlane : t.readLane left = (no, ev.ibhMeta) :: t.callMetaMerger.readLane left := by
        simp [hcall, readLane, hr]
      simp only [inTurn, ha, hr, Bool.not_eq_true'] at hok
      have hwait : ∀ q, t.callMetaMerger.Waiting left q := by
        intro q
        obtain ⟨w, hw, hlanes⟩ := h.waiting q
        rw [hlane] at hlanes
        by_cases hq : ev.ibhMeta.destQp.setWidth 16 = q
        · rw [htake hq] at hlanes
          have hright : ∀ y ∈ of q t.ackLane, ¬ After y (no, ev.ibhMeta) := by
            intro y hy
            have hmem : isAck y = true := by
              rw [← hlanes.left_eq] at hy
              exact (List.mem_filter.mp hy).2
            have hread : isAck (no, ev.ibhMeta) = false := by
              have hx : (no, ev.ibhMeta) ∈ w.filter fun x => !isAck x := by
                rw [hlanes.right_eq]
                exact List.mem_cons_self
              simpa using (List.mem_filter.mp hx).2
            obtain ⟨hy, hyq⟩ := mem_of hy
            rw [ackLane, ha, List.nil_append] at hy
            obtain ⟨e, he, rfl⟩ := List.mem_map.mp hy
            exact not_after hok (List.mem_map.mpr ⟨e, he, rfl⟩) hyq hq (by rw [hmem, hread]; decide)
          obtain ⟨w', rfl, hrest⟩ := hlanes.take_right (hsorted hw) hright
          have hw := hmove hw hq
          rw [hcall] at hrest ⊢
          exact ⟨w', hw, hrest⟩
        · rw [(hskip hq _).1] at hlanes
          rw [hcall] at hlanes ⊢
          exact ⟨w, by rw [(hskip hq _).2]; exact hw, hlanes⟩
      rw [hcall] at hwait ⊢
      exact { h with waiting := hwait }
  · have hcall : t.callMetaMerger = { t with
        ackEvents, emitted := t.emitted ++ [(no, a.ibhMeta)] } := by
      simp [callMetaMerger, Roce.metaMerger, ha, popped, AckEvent.ibhMeta]
    have hlane : t.ackLane = (no, a.ibhMeta) :: t.callMetaMerger.ackLane := by
      simp [hcall, ackLane, ha]
    simp only [inTurn, ha, Bool.not_eq_true'] at hok
    have hwait : ∀ q, t.callMetaMerger.Waiting left q := by
      intro q
      obtain ⟨w, hw, hlanes⟩ := h.waiting q
      rw [hlane] at hlanes
      by_cases hq : a.ibhMeta.destQp.setWidth 16 = q
      · rw [htake hq] at hlanes
        have hleft : ∀ y ∈ of q (t.readLane left), ¬ After y (no, a.ibhMeta) := by
          intro y hy
          have hmem : isAck y = false := by
            rw [← hlanes.right_eq] at hy
            simpa using (List.mem_filter.mp hy).2
          obtain ⟨hy, hyq⟩ := mem_of hy
          exact not_after hok (mem_readsLeft h.generating hy) hyq hq (by rw [hmem]; exact Bool.false_ne_true)
        obtain ⟨w', rfl, hrest⟩ := hlanes.take_left (hsorted hw) hleft
        have hw := hmove hw hq
        rw [hcall] at hrest ⊢
        exact ⟨w', hw, hrest⟩
      · rw [(hskip hq _).1] at hlanes
        rw [hcall] at hlanes ⊢
        exact ⟨w, by rw [(hskip hq _).2]; exact hw, hlanes⟩
    rw [hcall] at hwait ⊢
    exact { h with waiting := hwait }

theorem inv_step {l : OrderLabel} (h : Inv epsn t left) (hok : t.inTurn l = true) (hs : t.step l = some u) :
    ∃ left, Inv epsn u left := by
  cases l with
  | accept m header length => exact ⟨left, h.accept hs⟩
  | rxExhFsm =>
    cases hs
    exact ⟨left, h.exhFsm⟩
  | handleReadRequests =>
    cases hs
    exact h.reads
  | streamMerger =>
    cases hs
    exact ⟨left, h.streamMerger⟩
  | metaMerger =>
    cases hs
    exact ⟨left, h.metaMerger hok⟩
  | msnRsp | retransRdInit | appEvent =>
    cases hs
    exact ⟨left, { h with waiting := h.waiting }⟩

theorem Inv.inOrder (h : Inv epsn t left) (q : Qpn) : InOrder epsn t q := by
  obtain ⟨w, hw, -⟩ := h.waiting q
  rw [List.append_assoc] at hw
  have hordered : of q t.emitted <+: of q t.expected := ⟨_, hw.symm⟩
  refine ⟨hordered, ?_, ?_⟩
  · have hle := hordered.length_le
    have htake := congrArg (List.take (of q t.emitted).length) (h.psns q)
    rw [← List.map_take, hw, List.take_left, ← List.map_take, List.take_range, Nat.min_eq_left] at htake
    · exact htake
    · rw [← hw]
      exact hle
  · -- a response that is not out yet is of no earlier packet
    intro p hp r hr hlt
    have hsorted : (of q t.expected).Pairwise After := h.sorted.filter _
    rw [hw] at hr hsorted
    rcases List.mem_append.mp hr with hr | hr
    · exact hr
    · rcases (List.pairwise_append.mp hsorted).2.2 p hp r hr with hgt | ⟨heq, -⟩ <;> omega

end Steps

/-- The responses of every queue pair leave in the order of its requests, in every run in which `meta_merger` leaves
nothing behind. -/
theorem responses_in_order (epsn : Qpn → BitVec 24) (t : OrderNet)
    (h : Reach step (fun t l => t.inTurn l = true) (init epsn) t) (q : Qpn) : InOrder epsn t q := by
  obtain ⟨left, hinv⟩ := h.invariant (P := fun t => ∃ left, Inv epsn t left) ⟨_, inv_init epsn⟩
    fun _ _ _ ⟨_, hu⟩ hok hs => inv_step hu hok hs
  exact hinv.inOrder q

/-! ### Two runs -/

/-- A packet of queue pair 5 with its length in the RETH. -/
def request (op : IbOpCode) (psn : BitVec 24) (length : BitVec 32) : OrderLabel :=
  .accept ⟨op, 0, 5, psn, true, 1⟩ (reverse32 length ++ (0 : BitVec 96)) 40

def handlePacket : List OrderLabel := [.rxExhFsm, .msnRsp {}, .rxExhFsm, .rxExhFsm]

/-- A read of three packets, and a write behind it that is handled after the first of them. -/
def overtakingRun : List OrderLabel :=
  [request RC_RDMA_READ_REQUEST 7 10000, request RC_RDMA_WRITE_ONLY 10 64] ++ handlePacket ++
    [.handleReadRequests, .metaMerger] ++ handlePacket ++ [.streamMerger, .metaMerger]

-- The acknowledgement of the write overtakes two packets of the read.
theorem write_overtakes_read :
    ∃ t, run step (init fun _ => 7) overtakingRun = some t ∧
      t.emitted.map (fun p => (p.2.opCode, p.2.psn)) = [(RC_RDMA_READ_RESP_FIRST, 7), (RC_ACK, 10)] ∧
      ¬ InOrder (fun _ => 7) t 5 := by
  have h : (run step (init fun _ => 7) overtakingRun).map
      (fun t => (t.emitted.map (fun p => (p.2.opCode, p.2.psn)), (of 5 t.emitted).map (·.2.psn))) =
      some ([(RC_RDMA_READ_RESP_FIRST, 7), (RC_ACK, 10)], [7, 10]) := by
    decide +kernel
  obtain ⟨t, ht, hx⟩ := Option.map_eq_some_iff.mp h
  obtain ⟨hem, hpsns⟩ := Prod.mk.inj hx
  refine ⟨t, ht, hem, fun hin => ?_⟩
  have hnum := hin.psns
  have hlen := congrArg List.length hpsns
  rw [List.length_map] at hlen
  rw [hpsns, hlen] at hnum
  exact absurd hnum (by decide)

/-- The same packets, with the write handled when the read is out. -/
def orderedRun : List OrderLabel :=
  [request RC_RDMA_READ_REQUEST 7 10000, request RC_RDMA_WRITE_ONLY 10 64] ++ handlePacket ++
    List.replicate 3 .handleReadRequests ++ handlePacket ++ List.replicate 3 .metaMerger ++
    [.streamMerger, .metaMerger]

theorem responses_in_order_read :
    ∃ t, runIf step (fun t l => t.inTurn l = true) (init fun _ => 7) orderedRun = some t ∧
      t.emitted.map (·.2.psn) = [7, 8, 9, 10] ∧ InOrder (fun _ => 7) t 5 := by
  have h : (runIf step (fun t l => t.inTurn l = true) (init fun _ => 7) orderedRun).map
      (fun t => t.emitted.map (·.2.psn)) = some [7, 8, 9, 10] := by
    decide +kernel
  obtain ⟨t, ht, hx⟩ := Option.map_eq_some_iff.mp h
  exact ⟨t, ht, hx, responses_in_order _ t (reach_of_runIf ht) 5⟩

end OrderNet

end FpgaNetworkStack.Roce
