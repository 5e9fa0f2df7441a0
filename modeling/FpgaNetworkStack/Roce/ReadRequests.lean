import FpgaNetworkStack.Roce.AckOrder
import FpgaNetworkStack.Roce.RxEngine

/-!
# Read requests of the responder (`ib_transport_protocol.cpp`)

`handle_read_requests` cuts a read request into packets: for each it writes a read command to the memory and
an event for the header.  How many packets there are is computed at two other places, by `rx_process_exh` here
and by `meta_merger` on the side of the requester.
-/

namespace FpgaNetworkStack.Roce

open IbOpCode

structure ReadRequest where
  qpn : BitVec 24
  vaddr : BitVec 64
  dmaLength : BitVec 32
  psn : BitVec 24
  host : BitVec 1 := 1
  deriving DecidableEq, Inhabited

inductive HrrFsmState where
  | META | GENERATE
  deriving DecidableEq, Repr

structure HandleReadRequests where
  hrrFsmState : HrrFsmState := .META
  request : ReadRequest := default

structure HandleReadOut where
  memoryReadCmd : List MemCmdInternal := []
  readEventFifo : List Event := []

namespace ReadRequest

/-- What is left of a request when one packet is taken off. -/
def advance (r : ReadRequest) : ReadRequest :=
  { r with vaddr := r.vaddr + BitVec.ofNat 64 PMTU, dmaLength := r.dmaLength - BitVec.ofNat 32 PMTU }

/-- The command and the event of one packet. -/
def emit (r : ReadRequest) (readOpcode : IbOpCode) (readLength : BitVec 32) : HandleReadOut where
  memoryReadCmd := [⟨readOpcode, r.qpn.setWidth 16, r.vaddr, readLength, r.host, 0, 0⟩]
  readEventFifo := [{ opCode := readOpcode, qpn := r.qpn, length := readLength, psn := r.psn, validPsn := true }]

/-- The request does not fit in one packet. -/
def long (r : ReadRequest) : Bool := decide (PMTU < r.dmaLength.toNat)

end ReadRequest

def handleReadRequests (s : HandleReadRequests) (requestIn : List ReadRequest) :
    HandleReadRequests × List ReadRequest × HandleReadOut :=
  match s.hrrFsmState, requestIn with
  | .META, [] => (s, [], {})
  | .META, request :: rest =>
    if request.long then
      (⟨.GENERATE, request.advance⟩, rest, request.emit RC_RDMA_READ_RESP_FIRST (BitVec.ofNat 32 PMTU))
    else (⟨.META, request⟩, rest, request.emit RC_RDMA_READ_RESP_ONLY request.dmaLength)
  | .GENERATE, _ =>
    let request := { s.request with psn := s.request.psn + 1 }
    if request.long then
      (⟨.GENERATE, request.advance⟩, requestIn, request.emit RC_RDMA_READ_RESP_MIDDLE (BitVec.ofNat 32 PMTU))
    else (⟨.META, request⟩, requestIn, request.emit RC_RDMA_READ_RESP_LAST request.dmaLength)

/-- A number of calls, with everything they write. -/
def readCalls : Nat → HandleReadRequests → List ReadRequest → HandleReadRequests × List ReadRequest × HandleReadOut
  | 0, s, i => (s, i, {})
  | n + 1, s, i =>
    let (s, i, out) := handleReadRequests s i
    let (s, i, more) := readCalls n s i
    (s, i, ⟨out.memoryReadCmd ++ more.memoryReadCmd, out.readEventFifo ++ more.readEventFifo⟩)

/-! ## The packets of a response -/

namespace ReadRequest

variable (r : ReadRequest)

def packets : Nat := (r.dmaLength.toNat + (PMTU - 1)) / PMTU

def bytes (i : Nat) : Nat := min PMTU (r.dmaLength.toNat - PMTU * i)

def opCode (i : Nat) : IbOpCode :=
  if r.packets = 1 then RC_RDMA_READ_RESP_ONLY
  else if i = 0 then RC_RDMA_READ_RESP_FIRST
  else if i + 1 = r.packets then RC_RDMA_READ_RESP_LAST
  else RC_RDMA_READ_RESP_MIDDLE

/-- The part of the request from the `i`-th packet on. -/
def part (i : Nat) : ReadRequest :=
  { r with
    vaddr := r.vaddr + BitVec.ofNat 64 (PMTU * i)
    dmaLength := BitVec.ofNat 32 (r.dmaLength.toNat - PMTU * i)
    psn := r.psn + BitVec.ofNat 24 i }

def readCmd (i : Nat) : MemCmdInternal :=
  ⟨r.opCode i, r.qpn.setWidth 16, r.vaddr + BitVec.ofNat 64 (PMTU * i), BitVec.ofNat 32 (r.bytes i), r.host, 0, 0⟩

def readEvent (i : Nat) : Event :=
  { opCode := r.opCode i, qpn := r.qpn, length := BitVec.ofNat 32 (r.bytes i), psn := r.psn + BitVec.ofNat 24 i
    validPsn := true }

variable {r} {i : Nat}

theorem lt_packets : i < r.packets ↔ PMTU * i < r.dmaLength.toNat := by
  unfold packets PMTU
  omega

theorem part_length : (r.part i).dmaLength.toNat = r.dmaLength.toNat - PMTU * i := by
  have := r.dmaLength.isLt
  show (BitVec.ofNat 32 _).toNat = _
  rw [BitVec.toNat_ofNat]
  omega

theorem part_long : (r.part i).long = decide (i + 1 < r.packets) := by
  rw [long, part_length, Bool.eq_iff_iff, decide_eq_true_eq, decide_eq_true_eq, lt_packets]
  unfold PMTU
  omega

theorem advance_part (h : i + 1 < r.packets) :
    { (r.part i).advance with psn := (r.part i).advance.psn + 1 } = r.part (i + 1) := by
  have hlen := lt_packets.mp h
  have hlt := r.dmaLength.isLt
  simp only [part, advance, mk.injEq, true_and, and_true]
  refine ⟨?_, ?_, ?_⟩
  · rw [BitVec.add_assoc, ← BitVec.ofNat_add, Nat.mul_succ]
  · apply BitVec.eq_of_toNat_eq
    rw [BitVec.toNat_sub, BitVec.toNat_ofNat, BitVec.toNat_ofNat, BitVec.toNat_ofNat]
    unfold PMTU at hlen ⊢
    omega
  · rw [BitVec.ofNat_add, BitVec.add_assoc]
    rfl

theorem part_zero : r.part 0 = r := by
  simp [part]

variable {s : HandleReadRequests}

theorem generate_step (rest : List ReadRequest) (hi : 0 < i) (hlt : i < r.packets)
    (hs : s.hrrFsmState = .GENERATE) (hreq : { s.request with psn := s.request.psn + 1 } = r.part i) :
    handleReadRequests s rest =
      (if i + 1 < r.packets then ⟨.GENERATE, (r.part i).advance⟩ else ⟨.META, r.part i⟩, rest,
        ⟨[r.readCmd i], [r.readEvent i]⟩) := by
  have hone : r.packets ≠ 1 := by omega
  have hne : i ≠ 0 := by omega
  by_cases hnext : i + 1 < r.packets
  · have hlong : (r.part i).long = true := by
      rw [part_long, decide_eq_true_eq]
      exact hnext
    have hmiddle : r.opCode i = RC_RDMA_READ_RESP_MIDDLE := by
      rw [opCode, if_neg hone, if_neg hne, if_neg (by omega)]
    have hbytes : r.bytes i = PMTU := by
      rw [bytes, Nat.min_eq_left]
      rw [long, part_length, decide_eq_true_eq] at hlong
      omega
    simp only [handleReadRequests, hs, hreq, hlong, if_true, if_pos hnext]
    simp only [emit, readCmd, readEvent, hmiddle, hbytes]
    rfl
  · -- the last packet
    have hlong : (r.part i).long = false := by
      rw [part_long, decide_eq_false_iff_not]
      exact hnext
    have hlast : r.opCode i = RC_RDMA_READ_RESP_LAST := by
      rw [opCode, if_neg hone, if_neg hne, if_pos (by omega)]
    have hbytes : BitVec.ofNat 32 (r.bytes i) = (r.part i).dmaLength := by
      rw [part, bytes, Nat.min_eq_right]
      rw [long, part_length, decide_eq_false_iff_not] at hlong
      omega
    have hreg : s.request.dmaLength = (r.part i).dmaLength := by rw [← hreq]
    simp only [handleReadRequests, hs, hreq, hlong, Bool.false_eq_true, if_false, if_neg hnext]
    simp only [hreg, emit, readCmd, readEvent, hlast, hbytes]
    rfl

/-- The packets from the `i`-th one on, as far as they are generated one by one. -/
theorem generate_rest (rest : List ReadRequest) (hi : 0 < i) :
    ∀ k, i + k = r.packets → 0 < k → ∀ s : HandleReadRequests, s.hrrFsmState = .GENERATE →
      { s.request with psn := s.request.psn + 1 } = r.part i →
      (readCalls k s rest).1.hrrFsmState = .META ∧ (readCalls k s rest).2.1 = rest ∧
        (readCalls k s rest).2.2 = ⟨(List.range' i k).map r.readCmd, (List.range' i k).map r.readEvent⟩ := by
  intro k
  induction k generalizing i with
  | zero => exact fun _ hk => absurd hk (Nat.lt_irrefl 0)
  | succ k ih =>
    intro hik _ s hst hreq
    have hstep := generate_step rest hi (by omega) hst hreq
    cases k with
    | zero =>
      rw [if_neg (by omega)] at hstep
      simp only [readCalls, hstep]
      exact ⟨trivial, trivial, rfl⟩
    | succ k =>
      rw [if_pos (by omega)] at hstep
      obtain ⟨hmeta, hrest, hout⟩ := ih (i := i + 1) (by omega) (by omega) (by omega)
        ⟨.GENERATE, (r.part i).advance⟩ rfl (advance_part (by omega))
      rw [readCalls]
      simp only [hstep]
      refine ⟨hmeta, hrest, ?_⟩
      rw [hout]
      simp only [List.range'_succ, List.map_cons]
      rfl

theorem generate_first (rest : List ReadRequest) (hs : s.hrrFsmState = .META)
    (hlen : 0 < r.dmaLength.toNat) :
    handleReadRequests s (r :: rest) =
      (if 1 < r.packets then ⟨.GENERATE, r.advance⟩ else ⟨.META, r⟩, rest, ⟨[r.readCmd 0], [r.readEvent 0]⟩) := by
  have hpos : 0 < r.packets := lt_packets.mpr (by rw [Nat.mul_zero]; exact hlen)
  have hpart := part_long (r := r) (i := 0)
  rw [part_zero, Nat.zero_add] at hpart
  by_cases hmore : 1 < r.packets
  · have hlong : r.long = true := by rw [hpart, decide_eq_true hmore]
    have hop : r.opCode 0 = RC_RDMA_READ_RESP_FIRST := by rw [opCode, if_neg (by omega), if_pos rfl]
    have hbytes : r.bytes 0 = PMTU := by
      rw [bytes, Nat.mul_zero, Nat.sub_zero, Nat.min_eq_left]
      rw [long, decide_eq_true_eq] at hlong
      omega
    simp only [handleReadRequests, hs, hlong, if_true, if_pos hmore]
    simp [emit, readCmd, readEvent, hop, hbytes]
  · -- the request fits in one packet
    have hlong : r.long = false := by rw [hpart, decide_eq_false hmore]
    have hop : r.opCode 0 = RC_RDMA_READ_RESP_ONLY := by rw [opCode, if_pos (by omega)]
    have hbytes : BitVec.ofNat 32 (r.bytes 0) = r.dmaLength := by
      rw [bytes, Nat.mul_zero, Nat.sub_zero, Nat.min_eq_right, BitVec.ofNat_toNat, BitVec.setWidth_eq]
      rw [long, decide_eq_false_iff_not] at hlong
      omega
    simp only [handleReadRequests, hs, hlong, Bool.false_eq_true, if_false, if_neg hmore]
    simp [emit, readCmd, readEvent, hop, hbytes]

/-- A request of any length but zero is cut into its packets, one with each call. -/
theorem generate_all (rest : List ReadRequest) (hs : s.hrrFsmState = .META)
    (hlen : 0 < r.dmaLength.toNat) :
    (readCalls r.packets s (r :: rest)).1.hrrFsmState = .META ∧
      (readCalls r.packets s (r :: rest)).2.1 = rest ∧
      (readCalls r.packets s (r :: rest)).2.2 =
        ⟨(List.range r.packets).map r.readCmd, (List.range r.packets).map r.readEvent⟩ := by
  have hpos : 0 < r.packets := lt_packets.mpr (by rw [Nat.mul_zero]; exact hlen)
  have hfirst := generate_first rest hs hlen
  obtain ⟨n, hn⟩ := Nat.exists_eq_add_of_lt hpos
  rw [Nat.zero_add] at hn
  by_cases hmore : 1 < r.packets
  · have hadv := advance_part (r := r) (i := 0) (by omega)
    rw [part_zero, Nat.zero_add] at hadv
    obtain ⟨hmeta, hrest, hout⟩ := generate_rest (r := r) rest Nat.one_pos n (by omega) (by omega)
      ⟨.GENERATE, r.advance⟩ rfl hadv
    rw [if_pos hmore] at hfirst
    rw [hn, readCalls]
    simp only [hfirst]
    refine ⟨hmeta, hrest, ?_⟩
    rw [hout, List.range_eq_range', List.range'_succ]
    simp only [List.map_cons]
    rfl
  · have hone : n = 0 := by omega
    rw [if_neg hmore] at hfirst
    rw [hn, hone]
    simp only [readCalls, hfirst]
    exact ⟨trivial, trivial, rfl⟩

end ReadRequest

/-- `handle_read_requests` answers a read request with as many packets as the responder and the requester count;
the commands follow each other from the requested address to its end. -/
theorem read_segmentation {s : HandleReadRequests} {r : ReadRequest}
    (rest : List ReadRequest) (hs : s.hrrFsmState = .META) (hlen : 0 < r.dmaLength.toNat) :
    let out := readCalls r.packets s (r :: rest)
    (out.1.hrrFsmState = .META ∧ out.2.1 = rest) ∧
    out.2.2.memoryReadCmd = (List.range r.packets).map r.readCmd ∧
    out.2.2.readEventFifo = (List.range r.packets).map r.readEvent ∧
    (rethMeta RC_RDMA_READ_REQUEST r.dmaLength).numPkg.toNat = r.packets ∧
    (∀ ev : Event, ev.opCode = RC_RDMA_READ_REQUEST → ev.length = r.dmaLength → ev.numPkg.toNat = r.packets) ∧
    (∀ i, i + 1 < r.packets → r.bytes i = PMTU) ∧
    (∀ i, i + 1 = r.packets → 1 ≤ r.bytes i ∧ r.bytes i ≤ PMTU ∧ PMTU * i + r.bytes i = r.dmaLength.toNat) := by
  obtain ⟨hmeta, hrest, hout⟩ := ReadRequest.generate_all rest hs hlen
  have hnum : (numPackets r.dmaLength).toNat = r.packets := numPackets_toNat r.dmaLength
  refine ⟨⟨hmeta, hrest⟩, by rw [hout], by rw [hout], hnum, ?_, ?_, ?_⟩
  · intro ev hop hl
    rw [Event.numPkg, if_pos hop, hl]
    exact hnum
  · intro i hi
    rw [ReadRequest.lt_packets] at hi
    unfold ReadRequest.bytes PMTU at *
    omega
  · intro i hi
    have hlt : i < r.packets := by omega
    have hge : ¬ i + 1 < r.packets := by omega
    rw [ReadRequest.lt_packets] at hlt hge
    unfold ReadRequest.bytes PMTU at *
    omega

-- Two full packets and a last one, across the end of the number space.
theorem read_segmentation_three :
    let r : ReadRequest := { qpn := 3, vaddr := 0x1000, dmaLength := 10000, psn := 0xFFFFFF }
    r.packets = 3 ∧ (readCalls 3 {} [r]).2.2.memoryReadCmd = (List.range 3).map r.readCmd ∧
      (readCalls 3 {} [r]).2.2.readEventFifo.map (fun ev => (ev.opCode, ev.length, ev.psn)) =
        [(RC_RDMA_READ_RESP_FIRST, 4096, 0xFFFFFF), (RC_RDMA_READ_RESP_MIDDLE, 4096, 0),
          (RC_RDMA_READ_RESP_LAST, 1808, 1)] := by
  refine ⟨by decide, ?_, by decide⟩
  exact (read_segmentation (r := { qpn := 3, vaddr := 0x1000, dmaLength := 10000, psn := 0xFFFFFF }) []
    rfl (by decide)).2.1

end FpgaNetworkStack.Roce
