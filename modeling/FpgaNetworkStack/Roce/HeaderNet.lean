import FpgaNetworkStack.Roce.PayloadVerdicts
import FpgaNetworkStack.Roce.RxExhFsm

/-!
# Headers of the RoCE receive path

The base header, the extended header, the UDP length and the table entry of a packet reach `rx_exh_fsm` on
four different ways.  The network below numbers the packets and keeps the number with everything that is
derived from them.
-/

namespace FpgaNetworkStack.Roce

open Lib IbOpCode
open Toe (NetAxis packet popped)

/-- Values with the numbers of their packets. -/
abbrev Tagged (α : Type) := List (Nat × α)

/-- The packet has all of the extended header its opcode announces. -/
def Arrival.complete {W : Nat} (a : Arrival W) : Bool :=
  !checkIfRethHeader a.ibh.opCode || decide (RETH_SIZE ≤ a.words.length * W)

/-- A packet `rx_ibh_fsm` has finished, and whether it wrote a base header to `metaOut`. -/
structure Judged where
  no : Nat
  wrote : Bool
  deriving DecidableEq

/-- A step of `ipUdpMetaHandler`: the packets of the header and of the length, and whether they were
forwarded. -/
structure Forwarded where
  header : Nat
  length : Nat
  forwarded : Bool
  deriving DecidableEq

/-- The packets that base header, extended header, UDP length and table entry belong to. -/
structure Combined where
  ibh : Nat
  header : Nat
  length : Nat
  msn : Nat
  deriving DecidableEq

structure HeaderNet (W : Nat) where
  exh : RxProcessExh W := {}
  /-- The packets whose opcodes are in `rx_ibh2exh_MetaFifo`. -/
  opCodes : List (Arrival W) := []
  /-- The words in `rx_shift2exhFifo`. -/
  input : List (NetAxis (Nat × BitVec W)) := []
  exhMeta : Tagged ExhMeta := []
  /-- `rx_exh2drop_MetaFifo` -/
  exHeaders : Tagged (BitVec RETH_SIZE) := []
  fsm : RxIbhFsm := {}
  /-- The packets whose base headers are in `rx_ibh2fsm_MetaFifo`. -/
  headers : List (Arrival W) := []
  /-- The packet `rx_ibh_fsm` works on. -/
  current : Option (Arrival W) := none
  stateRsps : List RxStateRsp := []
  /-- The lengths in `s_axis_rx_meta`. -/
  udp : Tagged (BitVec 16) := []
  policies : Tagged FwdPolicy := []
  /-- `rx_fsm2exh_MetaFifo` -/
  ibhs : Tagged IbhMeta := []
  lengths : Tagged (BitVec 16) := []
  /-- `rx_drop2exhFsm_MetaFifo` -/
  fwdHeaders : Tagged (BitVec RETH_SIZE) := []
  exhFsm : RxExhFsm := {}
  /-- What is in the registers of `rx_exh_fsm`. -/
  held : Combined := ⟨0, 0, 0, 0⟩
  inits : List RetransRdInit := []
  table : Qpn → DmaState
  msnReqs : Tagged RxMsnReq := []
  txMsnReqs : List Qpn := []
  ifMsnReqs : List IfMsnReq := []
  msnRsps : Tagged DmaState := []
  arrived : List (Arrival W) := []
  judged : List Judged := []
  handled : List Forwarded := []
  combined : List Combined := []

inductive HeaderLabel (W : Nat) where
  | arrive (ibh : IbhMeta) (words : List (BitVec W)) (length : BitVec 16)
  | stateRsp (r : RxStateRsp)
  | retransRdInit (r : RetransRdInit)
  | txMsnReq (qpn : Qpn)
  | ifMsnReq (r : IfMsnReq)
  | rxProcessExh
  | rxIbhFsm
  | ipUdpMetaHandler
  | rxExhFsm
  | msnTable

namespace HeaderNet

variable {W : Nat}

variable (W) in
def init (table : Qpn → DmaState) : HeaderNet W := { table }

/-- The values written while `a` is handled. -/
def tag {α : Type} (a : Option (Arrival W)) (l : List α) : Tagged α := a.toList.flatMap fun a => l.map (a.no, ·)

@[simp] theorem tag_nil {α : Type} (a : Option (Arrival W)) : tag a ([] : List α) = [] := by
  cases a <;> rfl

@[simp] theorem tag_some {α : Type} (a : Arrival W) (l : List α) : tag (some a) l = l.map (a.no, ·) := by
  simp [tag]

/-- The packet of the value read from `q`, or the old one. -/
def readTag {α : Type} (q : Tagged α) (rest : List α) (old : Nat) : Nat :=
  ((q.take (popped q rest)).head?.map Prod.fst).getD old

/-- What is written while a word is read belongs to the packet of the word. -/
def callExh (t : HeaderNet W) : HeaderNet W :=
  let (exh, i, out) := rxProcessExh t.exh ⟨t.input.map VerdictNet.untag, t.opCodes.map (·.ibh.opCode)⟩
  let n := popped t.input i.input
  { t with
    exh
    input := t.input.drop n
    opCodes := t.opCodes.drop (popped t.opCodes i.metaIn)
    exhMeta := t.exhMeta ++ (t.input.take n).flatMap fun w => out.exhMetaFifo.map (w.data.1, ·)
    exHeaders := t.exHeaders ++ (t.input.take n).flatMap fun w => out.metaOut.map (w.data.1, ·) }

def callFsm (t : HeaderNet W) : HeaderNet W :=
  let (fsm, i, out) := rxIbhFsm t.fsm ⟨t.headers.map (·.ibh), t.exhMeta.map (·.2), t.stateRsps⟩
  let n := popped t.headers i.metaIn
  let current := (t.headers.take n).head?.or t.current
  { t with
    fsm
    headers := t.headers.drop n
    exhMeta := t.exhMeta.drop (popped t.exhMeta i.exhMetaFifo)
    stateRsps := i.stateTableRsp
    current
    ibhs := t.ibhs ++ tag current out.metaOut
    policies := t.policies ++ tag current out.ibhDropMetaFifo
    judged := t.judged ++ (tag current out.ibhDropMetaFifo).map fun p => ⟨p.1, !out.metaOut.isEmpty⟩ }

def callUdp (t : HeaderNet W) : HeaderNet W :=
  let (i, out) := ipUdpMetaHandler ⟨t.udp.map (·.2), t.exHeaders.map (·.2), t.policies.map (·.2)⟩
  let lengths := t.udp.take (popped t.udp i.input)
  let headers := t.exHeaders.take (popped t.exHeaders i.exHeaderInput)
  { t with
    udp := t.udp.drop (popped t.udp i.input)
    exHeaders := t.exHeaders.drop (popped t.exHeaders i.exHeaderInput)
    policies := t.policies.drop (popped t.policies i.dropMetaIn)
    lengths := t.lengths ++ lengths.flatMap fun l => out.exhLengthFifo.map (l.1, ·)
    fwdHeaders := t.fwdHeaders ++ headers.flatMap fun h => out.exHeaderOutput.map (h.1, ·)
    handled := t.handled ++
      (headers.zip lengths).map fun p => ⟨p.1.1, p.2.1, !out.exHeaderOutput.isEmpty⟩ }

def callExhFsm (t : HeaderNet W) : HeaderNet W :=
  let (exhFsm, i, out) := rxExhFsm t.exhFsm
    ⟨t.ibhs.map (·.2), t.lengths.map (·.2), t.msnRsps.map (·.2), t.inits, t.fwdHeaders.map (·.2)⟩
  let held : Combined :=
    { ibh := readTag t.ibhs i.metaIn t.held.ibh
      header := readTag t.fwdHeaders i.headerInput t.held.header
      length := readTag t.lengths i.udpLengthFifo t.held.length
      msn := readTag t.msnRsps i.msnTable2rxExhRsp t.held.msn }
  { t with
    exhFsm, held
    ibhs := t.ibhs.drop (popped t.ibhs i.metaIn)
    lengths := t.lengths.drop (popped t.lengths i.udpLengthFifo)
    msnRsps := t.msnRsps.drop (popped t.msnRsps i.msnTable2rxExhRsp)
    inits := i.retrans2rxInit
    fwdHeaders := t.fwdHeaders.drop (popped t.fwdHeaders i.headerInput)
    msnReqs := t.msnReqs ++ out.rxExh2msnTableUpdReq.map (held.ibh, ·)
    combined := t.combined ++
      if t.exhFsm.peFsmState = .DMA_META ∧ exhFsm.peFsmState = .DATA then [held] else [] }

def callMsn (t : HeaderNet W) : HeaderNet W :=
  let (table, i, out) := Roce.msnTable t.table ⟨t.msnReqs.map (·.2), t.txMsnReqs, t.ifMsnReqs⟩
  let n := popped t.msnReqs i.rxExh2msnTableUpdReq
  { t with
    table
    msnReqs := t.msnReqs.drop n
    txMsnReqs := i.txExh2msnTableReq
    ifMsnReqs := i.if2msnTableInit
    msnRsps := t.msnRsps ++ (t.msnReqs.take n).flatMap fun q => out.msnTable2rxExhRsp.map (q.1, ·) }

/-- One call of a process, or one action of the environment: a packet with at least one word behind its
base header, or an input of the other clients, with any content. -/
def step (t : HeaderNet W) : HeaderLabel W → Option (HeaderNet W)
  | .arrive ibh words length =>
    if words.isEmpty then none
    else
      let a : Arrival W := ⟨t.arrived.length, ibh, words⟩
      some { t with
        opCodes := t.opCodes ++ [a], headers := t.headers ++ [a], input := t.input ++ a.rest 0
        udp := t.udp ++ [(a.no, length)], arrived := t.arrived ++ [a] }
  | .stateRsp r => some { t with stateRsps := t.stateRsps ++ [r] }
  | .retransRdInit r => some { t with inits := t.inits ++ [r] }
  | .txMsnReq qpn => some { t with txMsnReqs := t.txMsnReqs ++ [qpn] }
  | .ifMsnReq r => some { t with ifMsnReqs := t.ifMsnReqs ++ [r] }
  | .rxProcessExh => some t.callExh
  | .rxIbhFsm => some t.callFsm
  | .ipUdpMetaHandler => some t.callUdp
  | .rxExhFsm => some t.callExhFsm
  | .msnTable => some t.callMsn

def complete (t : HeaderNet W) : HeaderLabel W → Bool
  | .arrive ibh words _ => Arrival.complete ⟨t.arrived.length, ibh, words⟩
  | _ => true

/-- Packets are finished in the order of their arrival; the header and the length of a packet are forwarded
if and only if its base header is written; and what `rx_exh_fsm` combines belongs to one packet, for the
packets with a base header in order. -/
structure Aligned (t : HeaderNet W) : Prop where
  judged : t.judged.map (·.no) <+: List.range t.arrived.length
  handled : t.handled <+: t.judged.map fun j => ⟨j.no, j.no, j.wrote⟩
  combined : t.combined <+: (t.judged.filter (·.wrote)).map fun j => ⟨j.no, j.no, j.no, j.no⟩

end HeaderNet

/-! ## One packet in each process -/

variable {W : Nat}

/-- `rx_ibh_fsm` writes one policy for each packet, and the base header when the policy forwards it. -/
theorem process_policy (m : IbhMeta) (e : ExhMeta) (isResponse : Bool) (r : RxStateRsp) :
    ∃ p, (process m e isResponse r).ibhDropMetaFifo = [p] ∧
      (process m e isResponse r).metaOut = if p.isDrop || p.ackOnly then [] else [m.forward] := by
  unfold process
  cases inOrder m r with
  | true => exact ⟨_, rfl, rfl⟩
  | false =>
    cases duplicate m r with
    | true =>
      simp only [processDuplicate, Bool.false_eq_true, if_false, if_true]
      split_ifs <;> exact ⟨_, rfl, rfl⟩
    | false =>
      simp only [processInvalid, Bool.false_eq_true, if_false]
      split <;> exact ⟨_, rfl, rfl⟩

/-- `rx_process_exh` has written the header of the packet before its `k`-th word. -/
def Arrival.headerWritten (a : Arrival W) (k : Nat) : Bool :=
  match headerState a.ibh.opCode with
  | .RETH_HEADER => decide (RETH_SIZE ≤ k * W)
  | _ => decide (0 < k)

/-- One word of the packet `a`: header and meta data are written with the word that completes them. -/
theorem ExhBusy.wordMeta {s : RxProcessExh W} {a : Arrival W} {k : Nat} (h : ExhBusy s a k)
    (hW : AETH_SIZE ≤ W) (hwritten : s.metaWritten = a.headerWritten k) (x : NetAxis (BitVec W))
    (rest : List (NetAxis (BitVec W))) (metaIn : List IbOpCode) :
    (rxProcessExh s ⟨x :: rest, metaIn⟩).1.metaWritten = a.headerWritten (k + 1) ∧
      (rxProcessExh s ⟨x :: rest, metaIn⟩).2.2.exhMetaFifo.length =
        (if !a.headerWritten k && a.headerWritten (k + 1) then 1 else 0) ∧
      (rxProcessExh s ⟨x :: rest, metaIn⟩).2.2.metaOut.length =
        (if !a.headerWritten k && a.headerWritten (k + 1) then 1 else 0) := by
  obtain ⟨hst, hop, hack, hreth, hmeta, hmore⟩ := h
  cases hh : headerState a.ibh.opCode with
  | META => exact absurd hh (headerState_ne _)
  | ACK_HEADER =>
    rw [hh] at hst hack
    simp only [if_true] at hack
    have hready : (s.ackHeader.parseWord x.data).ready = true := by
      rw [(hack.parseWord x.data).ready, decide_eq_true_eq, Nat.add_mul]
      omega
    cases k with
    | zero | succ => simp [rxProcessExh, hst, hwritten, Arrival.headerWritten, hh, hready]
  | RETH_HEADER =>
    rw [hh] at hst hreth
    simp only [if_true] at hreth
    have hready := (hreth.parseWord x.data).ready
    by_cases hk : RETH_SIZE ≤ k * W
    · have hk' : RETH_SIZE ≤ (k + 1) * W := Nat.le_trans hk (Nat.mul_le_mul_right W (Nat.le_succ k))
      simp [rxProcessExh, hst, hwritten, Arrival.headerWritten, hh, hready, hk, hk']
    · by_cases hk' : RETH_SIZE ≤ (k + 1) * W <;>
        simp [rxProcessExh, hst, hwritten, Arrival.headerWritten, hh, hready, hk, hk']
  | NO_HEADER =>
    rw [hh] at hst
    cases k <;> simp [rxProcessExh, hst, hwritten, Arrival.headerWritten, hh]

theorem Arrival.headerWritten_mono {a : Arrival W} {k : Nat} (h : a.headerWritten k = true) :
    a.headerWritten (k + 1) = true := by
  have hle := Nat.mul_le_mul_right W (Nat.le_succ k)
  unfold headerWritten at h ⊢
  cases hh : headerState a.ibh.opCode with
  | RETH_HEADER =>
    rw [hh] at h
    exact decide_eq_true (Nat.le_trans (of_decide_eq_true h) hle)
  | META | ACK_HEADER | NO_HEADER => simp

theorem Arrival.headerWritten_length {a : Arrival W} (h : a.complete = true) (hne : a.words ≠ []) :
    a.headerWritten a.words.length = true := by
  have hpos : 0 < a.words.length := List.length_pos_iff.mpr hne
  unfold headerWritten
  unfold complete at h
  cases hh : headerState a.ibh.opCode with
  | RETH_HEADER =>
    have hreth : checkIfRethHeader a.ibh.opCode = true := by
      unfold headerState at hh
      split at hh
      · cases hh
      · split at hh
        · assumption
        · cases hh
    simpa [hreth] using h
  | META | ACK_HEADER | NO_HEADER => simpa using hpos

/-- The policy lets header and length pass. -/
def FwdPolicy.forwards (p : FwdPolicy) : Bool := !(p.isDrop || p.ackOnly)

namespace HeaderNet

/-! ## Invariant -/

/-- Packets `rx_ibh_fsm` has not finished, oldest first. -/
def pending (t : HeaderNet W) : List (Arrival W) :=
  match t.fsm.fsmState with
  | .LOAD => t.headers
  | .PROCESS => t.current.toList ++ t.headers

/-- The packet whose base header and extended header `rx_exh_fsm` has read, while it waits for the rest. -/
def waiting (t : HeaderNet W) : List Nat :=
  match t.exhFsm.peFsmState with
  | .DMA_META => [t.held.ibh]
  | _ => []

def written (l : List Judged) : List Nat := (l.filter (·.wrote)).map (·.no)

/-- Packets whose header and length were forwarded. -/
def passed (l : List Forwarded) : List Nat := (l.filter (·.forwarded)).map (·.header)

def reads (l : Tagged RxMsnReq) : List Nat := (l.filter (!·.2.write)).map (·.1)

/-- `unparsed` are the packets whose header `rx_process_exh` has not written. -/
def Parsing (t : HeaderNet W) (unparsed : List Nat) : Prop :=
  (ExhIdle t.exh ∧ t.input = t.opCodes.flatMap (·.rest 0) ∧ unparsed = t.opCodes.map (·.no)) ∨
  ∃ a k, ExhBusy t.exh a k ∧ a.complete = true ∧ t.exh.metaWritten = a.headerWritten k ∧
    t.input = a.rest k ++ t.opCodes.flatMap (·.rest 0) ∧
    unparsed = (if a.headerWritten k then [] else [a.no]) ++ t.opCodes.map (·.no)

structure Inv (t : HeaderNet W) (unparsed : List Nat) : Prop where
  numbered : t.arrived.map (·.no) = List.range t.arrived.length
  whole : ∀ a ∈ t.opCodes, a.words ≠ [] ∧ a.complete = true
  parsing : t.Parsing unparsed
  current : t.fsm.fsmState = .PROCESS → ∃ a, t.current = some a ∧ t.fsm.metaReg = a.ibh
  finished : t.arrived.map (·.no) = t.judged.map (·.no) ++ t.pending.map (·.no)
  exhMeta : t.headers.map (·.no) = t.exhMeta.map (·.1) ++ unparsed
  exHeaders : t.udp.map (·.1) = t.exHeaders.map (·.1) ++ unparsed
  udp : t.arrived.map (·.no) = t.handled.map (·.header) ++ t.udp.map (·.1)
  policies : t.judged = (t.handled.map fun f => ⟨f.header, f.forwarded⟩) ++
    t.policies.map fun p => ⟨p.1, p.2.forwards⟩
  handled : ∀ f ∈ t.handled, f.length = f.header
  ibhs : written t.judged = t.combined.map (·.ibh) ++ t.waiting ++ t.ibhs.map (·.1)
  fwdHeaders : passed t.handled = t.combined.map (·.ibh) ++ t.waiting ++ t.fwdHeaders.map (·.1)
  lengths : passed t.handled = t.combined.map (·.ibh) ++ t.lengths.map (·.1)
  header : t.exhFsm.peFsmState = .DMA_META → t.held.header = t.held.ibh
  msn : reads t.msnReqs ++ t.msnRsps.map (·.1) = t.waiting
  combined : ∀ c ∈ t.combined, c = ⟨c.ibh, c.ibh, c.ibh, c.ibh⟩

variable {t u : HeaderNet W} {unparsed : List Nat}

theorem written_append (l l' : List Judged) : written (l ++ l') = written l ++ written l' := by
  simp [written]

theorem passed_append (l l' : List Forwarded) : passed (l ++ l') = passed l ++ passed l' := by
  simp [passed]

theorem reads_append (l l' : Tagged RxMsnReq) : reads (l ++ l') = reads l ++ reads l' := by
  simp [reads]

theorem Inv.written_eq (h : Inv t unparsed) :
    written t.judged = passed t.handled ++ written (t.policies.map fun p => ⟨p.1, p.2.forwards⟩) := by
  rw [h.policies, written_append]
  congr 1
  simp [written, passed, List.filter_map, Function.comp_def]

theorem Inv.aligned (h : Inv t unparsed) : Aligned t where
  judged := ⟨_, (h.finished.symm.trans h.numbered)⟩
  handled := by
    have hsame : t.handled.map (fun f => (⟨f.header, f.header, f.forwarded⟩ : Forwarded)) = t.handled := by
      conv_rhs => rw [← List.map_id t.handled]
      refine List.map_congr_left fun f hf => ?_
      show (⟨f.header, f.header, f.forwarded⟩ : Forwarded) = ⟨f.header, f.length, f.forwarded⟩
      rw [h.handled f hf]
    refine ⟨t.policies.map fun p => ⟨p.1, p.1, p.2.forwards⟩, ?_⟩
    rw [h.policies, List.map_append, List.map_map, List.map_map]
    exact congrArg (· ++ _) hsame.symm
  combined := by
    have hsame : (t.combined.map (·.ibh)).map (fun n => (⟨n, n, n, n⟩ : Combined)) = t.combined := by
      conv_rhs => rw [← List.map_id t.combined]
      rw [List.map_map]
      exact List.map_congr_left fun c hc => (h.combined c hc).symm
    have hw := congrArg (List.map fun n => (⟨n, n, n, n⟩ : Combined)) h.ibhs
    rw [List.append_assoc, List.map_append, hsame] at hw
    refine ⟨_, hw.symm.trans ?_⟩
    rw [written, List.map_map]
    rfl

theorem inv_init (table : Qpn → DmaState) : Inv (init W table) [] where
  numbered := rfl
  whole := by simp [init]
  parsing := .inl ⟨⟨rfl, headerAt_clear (by decide) {}, headerAt_clear (by decide) {}⟩, rfl, rfl⟩
  current := by intro hc; cases hc
  finished := rfl
  exhMeta := rfl
  exHeaders := rfl
  udp := rfl
  policies := rfl
  handled := by simp [init]
  ibhs := rfl
  fwdHeaders := rfl
  lengths := rfl
  header := by intro hc; cases hc
  msn := rfl
  combined := by simp [init]

/-! ### The steps -/

theorem Inv.arrive {ibh : IbhMeta} {ws : List (BitVec W)} {length : BitVec 16} (h : Inv t unparsed)
    (hok : t.complete (.arrive ibh ws length) = true) (hs : t.step (.arrive ibh ws length) = some u) :
    Inv u (unparsed ++ [t.arrived.length]) := by
  simp only [step] at hs
  split at hs
  · cases hs
  · next hne =>
      simp only [complete] at hok
      generalize ha : (⟨t.arrived.length, ibh, ws⟩ : Arrival W) = a at hs hok
      have hno : t.arrived.length = a.no := by rw [← ha]
      have hws : a.words ≠ [] := by
        rw [← ha]
        simpa using hne
      cases hs
      rw [hno]
      refine { h with
        numbered := ?_, whole := ?_, parsing := ?_, finished := ?_, exhMeta := ?_, exHeaders := ?_, udp := ?_ }
      · simp [h.numbered, ← hno, List.range_succ]
      · intro x hx
        rcases List.mem_append.mp hx with hx | hx
        · exact h.whole x hx
        · rw [List.mem_singleton.mp hx]
          exact ⟨hws, hok⟩
      · rcases h.parsing with ⟨hidle, hin, hun⟩ | ⟨x, k, hbusy, hc, hm, hin, hun⟩
        · exact .inl ⟨hidle, by simp [hin], by simp [hun]⟩
        · exact .inr ⟨x, k, hbusy, hc, hm, by simp [hin], by simp [hun]⟩
      · have hpend : (pending { t with
            opCodes := t.opCodes ++ [a], headers := t.headers ++ [a], input := t.input ++ a.rest 0
            udp := t.udp ++ [(a.no, length)], arrived := t.arrived ++ [a] }) = t.pending ++ [a] := by
          unfold pending
          cases t.fsm.fsmState <;> simp
        rw [hpend, List.map_append, List.map_append, h.finished, List.append_assoc]
      · rw [List.map_append, h.exhMeta, List.append_assoc]
        rfl
      · rw [List.map_append, h.exHeaders, List.append_assoc]
        rfl
      · rw [List.map_append, List.map_append, h.udp, List.append_assoc]
        rfl

theorem Inv.parse {unparsed' : List Nat} (nos : List Nat) (h : Inv t unparsed)
    (hu : u = { t with
      exh := u.exh, input := u.input, opCodes := u.opCodes, exhMeta := u.exhMeta, exHeaders := u.exHeaders })
    (hcodes : ∀ a ∈ u.opCodes, a ∈ t.opCodes) (hmeta : u.exhMeta.map (·.1) = t.exhMeta.map (·.1) ++ nos)
    (hheaders : u.exHeaders.map (·.1) = t.exHeaders.map (·.1) ++ nos) (hun : unparsed = nos ++ unparsed')
    (hpar : u.Parsing unparsed') : Inv u unparsed' := by
  have hm := h.exhMeta
  have hx := h.exHeaders
  rw [hun, ← List.append_assoc, ← hmeta] at hm
  rw [hun, ← List.append_assoc, ← hheaders] at hx
  have hw : ∀ a ∈ u.opCodes, a.words ≠ [] ∧ a.complete = true := fun a ha => h.whole a (hcodes a ha)
  rw [hu] at hpar hm hx hw ⊢
  exact { h with whole := hw, parsing := hpar, exhMeta := hm, exHeaders := hx }

theorem Inv.exh (h : Inv t unparsed) (hW : AETH_SIZE ≤ W) : ∃ unparsed, Inv t.callExh unparsed := by
  rcases h.parsing with ⟨hidle, hin, hun⟩ | ⟨a, k, hbusy, hc, hm, hin, hun⟩
  · cases hop : t.opCodes with
    | nil =>
      have hcall : t.callExh = t := by
        simp [callExh, rxProcessExh, hidle.state, hop, popped]
        rw [← hop]
      rw [hcall]
      exact ⟨unparsed, h⟩
    | cons a as =>
      have hcall : t.callExh = { t with
          exh := { t.exh with
            opCode := a.ibh.opCode, metaWritten := false, state := headerState a.ibh.opCode }
          opCodes := as } := by
        simp [callExh, rxProcessExh, hidle.state, hop, popped]
      obtain ⟨hne, hc⟩ := h.whole a (by rw [hop]; exact List.mem_cons_self)
      have hzero : a.headerWritten 0 = false := by
        unfold Arrival.headerWritten
        cases headerState a.ibh.opCode <;> simp [RETH_SIZE]
      rw [hop] at hin hun
      refine ⟨unparsed, h.parse [] ?_ ?_ ?_ ?_ rfl ?_⟩
      · rw [hcall]
      · rw [hcall, hop]
        exact fun x hx => List.mem_cons_of_mem _ hx
      · rw [hcall, List.append_nil]
      · rw [hcall, List.append_nil]
      · rw [hcall]
        refine .inr ⟨a, 0, ⟨rfl, rfl, ?_, ?_, ?_, List.length_pos_iff.mpr hne⟩, hc, hzero.symm, hin, ?_⟩
        · simpa using hidle.ack
        · simpa using hidle.reth
        · intro _
          simp [RETH_SIZE]
        · rw [hzero]
          exact hun
  · obtain ⟨x, hrest⟩ := Arrival.rest_cons hbusy.more
    obtain ⟨s', out, hexh, -, hnext⟩ := hbusy.word hW x
      ((a.rest (k + 1) ++ t.opCodes.flatMap (·.rest 0)).map VerdictNet.untag) (t.opCodes.map (·.ibh.opCode))
    obtain ⟨hwritten, hmetas, hheads⟩ := hbusy.wordMeta hW hm ⟨x, decide (a.words.length = k + 1)⟩
      ((a.rest (k + 1) ++ t.opCodes.flatMap (·.rest 0)).map VerdictNet.untag) (t.opCodes.map (·.ibh.opCode))
    rw [hexh] at hwritten hmetas hheads
    rw [hrest, List.cons_append] at hin
    have hcall : t.callExh = { t with
        exh := s', input := a.rest (k + 1) ++ t.opCodes.flatMap (·.rest 0)
        exhMeta := t.exhMeta ++ out.exhMetaFifo.map (a.no, ·)
        exHeaders := t.exHeaders ++ out.metaOut.map (a.no, ·) } := by
      have hmap : t.input.map VerdictNet.untag = ⟨x, decide (a.words.length = k + 1)⟩ ::
          (a.rest (k + 1) ++ t.opCodes.flatMap (·.rest 0)).map VerdictNet.untag := by
        rw [hin]
        rfl
      unfold callExh
      rw [hmap, hexh]
      simp [hin, popped]
    have htags {α : Type} (l : List α)
        (hl : l.length = if !a.headerWritten k && a.headerWritten (k + 1) then 1 else 0) :
        (l.map (a.no, ·)).map (·.1) =
          if !a.headerWritten k && a.headerWritten (k + 1) then [a.no] else [] := by
      split at hl
      · next hc =>
          obtain ⟨y, rfl⟩ := List.length_eq_one_iff.mp hl
          rw [if_pos hc]
          rfl
      · next hc =>
          rw [if_neg hc, List.eq_nil_of_length_eq_zero hl]
          rfl
    refine ⟨(if a.headerWritten (k + 1) then [] else [a.no]) ++ t.opCodes.map (·.no),
      h.parse _ (by rw [hcall]) (by rw [hcall]; exact fun y hy => hy)
        (by rw [hcall, List.map_append, htags _ hmetas])
        (by rw [hcall, List.map_append, htags _ hheads]) ?_ ?_⟩
    · rw [hun]
      cases hk : a.headerWritten k with
      | true => simp [Arrival.headerWritten_mono hk]
      | false => cases a.headerWritten (k + 1) <;> simp
    · rw [hcall]
      by_cases hl : a.words.length = k + 1
      · rw [if_pos hl] at hnext
        have hend : a.rest (k + 1) = [] := Arrival.rest_eq_nil (by omega)
        have hlast := Arrival.headerWritten_length hc (List.ne_nil_of_length_pos (by omega))
        rw [hl] at hlast
        exact .inl ⟨hnext, by rw [hend]; rfl, by rw [hlast]; rfl⟩
      · rw [if_neg hl] at hnext
        exact .inr ⟨a, k + 1, hnext, hc, hwritten, rfl, rfl⟩

theorem Inv.judge (h : Inv t unparsed) : Inv t.callFsm unparsed := by
  rcases rxIbhFsm_cases t.fsm ⟨t.headers.map (·.ibh), t.exhMeta.map (·.2), t.stateRsps⟩ with
    ⟨_, _, _, _, hst, hhs, hes, hfsm⟩ | ⟨r, rs, hst, hr, hfsm⟩ | hfsm
  · obtain ⟨a, as, hh, rfl, rfl⟩ := List.map_eq_cons_iff.mp hhs
    obtain ⟨e, es, he, rfl, rfl⟩ := List.map_eq_cons_iff.mp hes
    have hcall : t.callFsm = { t with
        fsm := { t.fsm with
          fsmState := .PROCESS, metaReg := a.ibh, emeta := e.2
          isResponse := checkIfResponse a.ibh.opCode }
        headers := as, exhMeta := es, current := some a } := by
      simp only [callFsm, hfsm]
      simp [hh, he, popped]
    have hpend : t.callFsm.pending = t.pending := by
      rw [hcall, pending, pending, hst, hh]
      rfl
    have hfin := h.finished
    have hm := h.exhMeta
    rw [← hpend] at hfin
    rw [hh, he] at hm
    rw [hcall] at hfin ⊢
    exact { h with current := fun _ => ⟨a, rfl, rfl⟩, finished := hfin, exhMeta := (List.cons.inj hm).2 }
  · change t.stateRsps = r :: rs at hr
    obtain ⟨a, ha, hm⟩ := h.current hst
    obtain ⟨p, hp, hout⟩ := process_policy a.ibh t.fsm.emeta t.fsm.isResponse r
    have hwrote : (!(process a.ibh t.fsm.emeta t.fsm.isResponse r).metaOut.isEmpty) = p.forwards := by
      rw [hout, FwdPolicy.forwards]
      cases p.isDrop || p.ackOnly <;> rfl
    have hcall : t.callFsm = { t with
        fsm := t.callFsm.fsm, stateRsps := rs
        ibhs := t.ibhs ++ (process a.ibh t.fsm.emeta t.fsm.isResponse r).metaOut.map (a.no, ·)
        policies := t.policies ++ [(a.no, p)]
        judged := t.judged ++ [⟨a.no, p.forwards⟩] } := by
      simp [callFsm, rxIbhFsm, hst, hr, popped, ha, hm, hp, ← hwrote]
    have hload : t.callFsm.fsm.fsmState = .LOAD := by
      simp [callFsm, rxIbhFsm, hst, hr]
    have hpend : t.callFsm.pending = t.headers := by
      rw [pending, hload, hcall]
    have hfin := h.finished
    rw [pending, hst, ha] at hfin
    have hread : t.callFsm.fsm.fsmState = .PROCESS → False := by
      rw [hload]
      intro hc
      cases hc
    have hibhs : (t.ibhs ++ (process a.ibh t.fsm.emeta t.fsm.isResponse r).metaOut.map (a.no, ·)).map
        (·.1) = t.ibhs.map (·.1) ++ written [⟨a.no, p.forwards⟩] := by
      rw [hout, FwdPolicy.forwards, List.map_append]
      cases p.isDrop || p.ackOnly <;> rfl
    rw [hcall] at hpend hread ⊢
    refine { h with current := fun hc => (hread hc).elim, finished := ?_, policies := ?_, ibhs := ?_ }
    · rw [hpend, hfin]
      simp
    · rw [List.map_append, ← List.append_assoc, ← h.policies]
      rfl
    · rw [hibhs, written_append, h.ibhs]
      simp only [List.append_assoc]
      rfl
  · have hcall : t.callFsm = t := by simp [callFsm, hfsm, popped]
    rw [hcall]
    exact h

theorem head_eq {n m : Nat} {l k r x y : List Nat} (hx : x = l ++ n :: k) (hy : y = l ++ m :: r)
    (h : ∃ z, y = x ++ z) : n = m := by
  obtain ⟨z, hz⟩ := h
  rw [hx, hy, List.append_assoc, List.append_cancel_left_eq] at hz
  exact (List.cons.inj hz).1.symm

theorem Inv.forward (h : Inv t unparsed) : Inv t.callUdp unparsed := by
  rcases hl : t.udp with _ | ⟨⟨no, length⟩, udp⟩
  · have hcall : t.callUdp = t := by
      simp [callUdp, ipUdpMetaHandler, hl, popped]
      rw [← hl]
    rw [hcall]
    exact h
  rcases hx : t.exHeaders with _ | ⟨⟨no', header⟩, exHeaders⟩
  · have hcall : t.callUdp = t := by
      simp [callUdp, ipUdpMetaHandler, hl, hx, popped]
      rw [← hl, ← hx]
    rw [hcall]
    exact h
  rcases hp : t.policies with _ | ⟨⟨no'', p⟩, policies⟩
  · have hcall : t.callUdp = t := by
      simp [callUdp, ipUdpMetaHandler, hl, hx, hp, popped]
      rw [← hl, ← hx, ← hp]
    rw [hcall]
    exact h
  -- the three belong to the oldest packet that is not handled
  have hheads := h.exHeaders
  rw [hl, hx] at hheads
  obtain ⟨hno', hrest⟩ := List.cons.inj hheads
  have hudp := h.udp
  rw [hl] at hudp
  have hno'' : no = no'' := by
    have hj := congrArg (List.map Judged.no) h.policies
    rw [hp, List.map_append, List.map_map] at hj
    exact (head_eq hj hudp ⟨_, h.finished⟩).symm
  change no = no' at hno'
  subst hno' hno''
  have hcall : t.callUdp = { t with
      udp, exHeaders, policies
      lengths := t.lengths ++ if p.forwards then [(no, length)] else []
      fwdHeaders := t.fwdHeaders ++ if p.forwards then [(no, header)] else []
      handled := t.handled ++ [⟨no, no, p.forwards⟩] } := by
    cases hc : p.isDrop || p.ackOnly <;>
      simp [callUdp, ipUdpMetaHandler, hl, hx, hp, popped, FwdPolicy.forwards, hc]
  have htags {α : Type} (v : α) :
      ((if p.forwards then [(no, v)] else []) : Tagged α).map (·.1) = passed [⟨no, no, p.forwards⟩] := by
    cases hc : p.forwards <;> simp [passed]
  rw [hcall]
  refine { h with exHeaders := hrest, udp := ?_, policies := ?_, handled := ?_, fwdHeaders := ?_, lengths := ?_ }
  · rw [hudp, List.map_append, List.append_assoc]
    rfl
  · have hpol := h.policies
    rw [hp] at hpol
    rw [hpol, List.map_append, List.append_assoc]
    rfl
  · intro f hf
    rcases List.mem_append.mp hf with hf | hf
    · exact h.handled f hf
    · rw [List.mem_singleton.mp hf]
  · rw [passed_append, h.fwdHeaders, List.map_append, htags, List.append_assoc]
    rfl
  · rw [passed_append, h.lengths, List.map_append, htags, List.append_assoc]

theorem Inv.combine (h : Inv t unparsed) : Inv t.callExhFsm unparsed := by
  have hwait := h.msn
  cases hst : t.exhFsm.peFsmState with
  | META =>
    rcases hm : t.ibhs with _ | ⟨⟨no, m⟩, ibhs⟩
    · have hcall : t.callExhFsm = t := by
        simp [callExhFsm, rxExhFsm, hst, hm, popped, readTag]
        rw [← hm]
      rw [hcall]
      exact h
    rcases hx : t.fwdHeaders with _ | ⟨⟨no', header⟩, fwdHeaders⟩
    · have hcall : t.callExhFsm = t := by
        simp [callExhFsm, rxExhFsm, hst, hm, hx, popped, readTag]
        rw [← hm, ← hx]
      rw [hcall]
      exact h
    have hno : waiting t = [] := by rw [waiting, hst]
    have hw := h.ibhs
    have hf := h.fwdHeaders
    rw [hno, List.append_nil] at hw hf
    rw [hno] at hwait
    obtain ⟨hreads, hrsps⟩ := List.append_eq_nil_iff.mp hwait
    -- both are the oldest packet that is not combined
    have hsame : no' = no := by
      rw [hm] at hw
      rw [hx] at hf
      exact head_eq hf hw ⟨_, h.written_eq⟩
    have hcall : t.callExhFsm = { t with
        exhFsm := t.callExhFsm.exhFsm
        held := { t.held with ibh := no, header := no' }
        ibhs, fwdHeaders
        msnReqs := t.msnReqs ++ [(no, .read m.destQp)] } := by
      simp [callExhFsm, rxExhFsm, hst, hm, hx, popped, readTag]
    have hnext : t.callExhFsm.exhFsm.peFsmState = .DMA_META := by
      simp [callExhFsm, rxExhFsm, hst, hm, hx]
    have hno' : t.callExhFsm.waiting = [no] := by
      rw [waiting, hnext, hcall]
    have hdata : t.callExhFsm.exhFsm.peFsmState = .DMA_META → no' = no := fun _ => hsame
    rw [hcall] at hno' hdata ⊢
    refine { h with ibhs := ?_, fwdHeaders := ?_, header := hdata, msn := ?_ }
    · rw [hno', hw, hm]
      simp
    · rw [hno', hf, hx, ← hsame]
      simp
    · rw [hno', reads_append, hreads, hrsps]
      rfl
  | DMA_META =>
    have hno : waiting t = [t.held.ibh] := by rw [waiting, hst]
    rcases hr : t.msnRsps with _ | ⟨⟨no, dmaMeta⟩, msnRsps⟩
    · have hcall : t.callExhFsm = t := by
        simp [callExhFsm, rxExhFsm, hst, hr, popped, readTag]
        rw [← hr]
      rw [hcall]
      exact h
    rcases hl : t.lengths with _ | ⟨⟨no', udpLength⟩, lengths⟩
    · have hcall : t.callExhFsm = t := by
        simp [callExhFsm, rxExhFsm, hst, hr, hl, popped, readTag]
        rw [← hr, ← hl]
      rw [hcall]
      exact h
    have hw := h.ibhs
    have hf := h.fwdHeaders
    have hlen := h.lengths
    rw [hno] at hw hf hwait
    rw [hr] at hwait
    rw [hl] at hlen
    -- the table has answered the one packet that waits, and its length is the next one
    have hsame : no = t.held.ibh ∧ reads t.msnReqs = [] ∧ msnRsps.map (·.1) = [] := by
      rcases hreads : reads t.msnReqs with _ | ⟨x, xs⟩
      · rw [hreads] at hwait
        exact ⟨(List.cons.inj hwait).1, rfl, (List.cons.inj hwait).2⟩
      · rw [hreads] at hwait
        exact absurd (congrArg List.length hwait) (by simp)
    have hsame' : no' = t.held.ibh := by
      rw [List.append_assoc] at hf
      exact (head_eq hf hlen ⟨[], (List.append_nil _).symm⟩).symm
    have hnew : (⟨t.held.ibh, t.held.header, no', no⟩ : Combined) =
        ⟨t.held.ibh, t.held.ibh, t.held.ibh, t.held.ibh⟩ := by
      rw [h.header hst, hsame.1, hsame']
    have hfire (hstate : t.callExhFsm.exhFsm.peFsmState = .DATA)
        (hcall : t.callExhFsm = { t with
          exhFsm := t.callExhFsm.exhFsm
          held := ⟨t.held.ibh, t.held.header, no', no⟩
          lengths, msnRsps, inits := t.callExhFsm.inits
          combined := t.combined ++ [⟨t.held.ibh, t.held.header, no', no⟩] }) :
        Inv t.callExhFsm unparsed := by
      have hno' : t.callExhFsm.waiting = [] := by rw [waiting, hstate]
      have hend : t.callExhFsm.exhFsm.peFsmState = .DMA_META → False := by
        rw [hstate]
        intro hc
        cases hc
      rw [hcall] at hno' hend ⊢
      refine { h with
        ibhs := ?_, fwdHeaders := ?_, lengths := ?_, header := fun hc => (hend hc).elim, msn := ?_
        combined := ?_ }
      · rw [hno', hw, List.map_append, List.append_nil]
        rfl
      · rw [hno', hf, List.map_append, List.append_nil]
        rfl
      · rw [hlen, hsame', List.map_append, List.append_assoc]
        rfl
      · rw [hno', hsame.2.1, hsame.2.2]
        rfl
      · intro c hc
        rcases List.mem_append.mp hc with hc | hc
        · exact h.combined c hc
        · rw [List.mem_singleton.mp hc]
          exact hnew
    cases hcons : t.exhFsm.consumeReadInit with
    | false =>
      exact hfire (by simp [callExhFsm, rxExhFsm, hst, hr, hl, hcons])
        (by simp [callExhFsm, rxExhFsm, hst, hr, hl, hcons, popped, readTag])
    | true =>
      cases hi : t.inits with
      | nil =>
        have hcall : t.callExhFsm = t := by
          simp [callExhFsm, rxExhFsm, hst, hr, hl, hcons, hi, popped, readTag]
          rw [← hr, ← hl, ← hi]
        rw [hcall]
        exact h
      | cons i inits =>
        exact hfire (by simp [callExhFsm, rxExhFsm, hst, hr, hl, hcons, hi])
          (by simp [callExhFsm, rxExhFsm, hst, hr, hl, hcons, hi, popped, readTag])
  | DATA =>
    have hno : waiting t = [] := by rw [waiting, hst]
    cases hd : t.exhFsm.data with
    | none =>
      have hcall : t.callExhFsm = t := by
        simp [callExhFsm, rxExhFsm, hst, hd, popped, readTag]
      rw [hcall]
      exact h
    | some out =>
      have hcall : t.callExhFsm = { t with
          exhFsm := { t.exhFsm with peFsmState := .META }
          msnReqs := t.msnReqs ++ out.rxExh2msnTableUpdReq.map (t.held.ibh, ·) } := by
        simp [callExhFsm, rxExhFsm, hst, hd, popped, readTag]
      have hreads : reads (out.rxExh2msnTableUpdReq.map (t.held.ibh, ·)) = [] := by
        simp only [reads, List.map_eq_nil_iff, List.filter_eq_nil_iff, List.mem_map]
        rintro _ ⟨q, hq, rfl⟩
        simp [RxExhFsm.data_writes hd q hq]
      rw [hcall]
      have hw := h.ibhs
      have hf := h.fwdHeaders
      rw [hno] at hw hf hwait
      refine ⟨h.numbered, h.whole, h.parsing, h.current, h.finished, h.exhMeta, h.exHeaders, h.udp,
        h.policies, h.handled, hw, hf, h.lengths, fun hc => (by cases hc), ?_, h.combined⟩
      rw [reads_append, hreads, List.append_nil]
      exact hwait

theorem Inv.answer (h : Inv t unparsed) : Inv t.callMsn unparsed := by
  have hmsn := h.msn
  rcases hq : t.msnReqs with _ | ⟨⟨no, q⟩, msnReqs⟩
  · -- another client, or none
    have hcall : t.callMsn = { t with
        table := t.callMsn.table, txMsnReqs := t.callMsn.txMsnReqs, ifMsnReqs := t.callMsn.ifMsnReqs } := by
      unfold callMsn Roce.msnTable
      rw [hq]
      cases t.txMsnReqs <;> cases t.ifMsnReqs <;> simp [popped]
    rw [hcall]
    exact { h with }
  rw [hq, ← List.singleton_append, reads_append] at hmsn
  cases hw : q.write with
  | true =>
    have hcall : t.callMsn = { t with table := t.callMsn.table, msnReqs } := by
      simp [callMsn, Roce.msnTable, hq, hw, popped]
    have hnone : reads [(no, q)] = [] := by simp [reads, hw]
    rw [hcall]
    rw [hnone] at hmsn
    exact { h with msn := hmsn }
  | false =>
    have hcall : t.callMsn = { t with msnReqs, msnRsps := t.msnRsps ++ [(no, t.table q.qpn)] } := by
      simp [callMsn, Roce.msnTable, hq, hw, popped]
    have hone : reads [(no, q)] = [no] := by simp [reads, hw]
    -- one packet waits at most, so nothing is in front of the answer or behind the read
    have hnil : reads msnReqs = [] ∧ t.msnRsps.map (·.1) = [] := by
      have hle : (waiting t).length ≤ 1 := by
        unfold waiting
        cases t.exhFsm.peFsmState <;> simp
      have hlen := congrArg List.length hmsn
      rw [hone, List.length_append, List.length_append, List.length_singleton] at hlen
      exact ⟨List.eq_nil_of_length_eq_zero (by omega), List.eq_nil_of_length_eq_zero (by omega)⟩
    rw [hcall]
    refine { h with msn := ?_ }
    rw [hone, hnil.1, hnil.2] at hmsn
    rw [List.map_append, hnil.1, hnil.2]
    exact hmsn

theorem inv_step {l : HeaderLabel W} (h : Inv t unparsed) (hW : AETH_SIZE ≤ W) (hok : t.complete l = true)
    (hs : t.step l = some u) : ∃ unparsed, Inv u unparsed := by
  cases l with
  | arrive ibh words length => exact ⟨_, h.arrive hok hs⟩
  | rxProcessExh =>
    cases hs
    exact h.exh hW
  | rxIbhFsm =>
    cases hs
    exact ⟨_, h.judge⟩
  | ipUdpMetaHandler =>
    cases hs
    exact ⟨_, h.forward⟩
  | rxExhFsm =>
    cases hs
    exact ⟨_, h.combine⟩
  | msnTable =>
    cases hs
    exact ⟨_, h.answer⟩
  | stateRsp | retransRdInit | txMsnReq | ifMsnReq =>
    cases hs
    exact ⟨_, h.numbered, h.whole, h.parsing, h.current, h.finished, h.exhMeta, h.exHeaders, h.udp,
      h.policies, h.handled, h.ibhs, h.fwdHeaders, h.lengths, h.header, h.msn, h.combined⟩

/-- Headers and meta data stay in step, in every run in which no packet ends inside its extended header. -/
theorem headers_aligned (hW : AETH_SIZE ≤ W) (table : Qpn → DmaState) (t : HeaderNet W)
    (h : Reach step (fun t l => t.complete l = true) (init W table) t) : Aligned t := by
  obtain ⟨unparsed, hinv⟩ := h.invariant (P := fun t => ∃ unparsed, Inv t unparsed) ⟨_, inv_init table⟩
    fun _ _ _ ⟨_, hu⟩ hok hs => inv_step hu hW hok hs
  exact hinv.aligned

/-! ### Two runs -/

/-- One packet after the other, each with its own number as PSN. -/
def packets (l : List (IbOpCode × List (BitVec 64))) : List (HeaderLabel 64) :=
  (l.zipIdx.map fun p =>
    .arrive ⟨p.1.1, 0, 5, BitVec.ofNat 24 p.2, true, 1⟩ p.1.2 (BitVec.ofNat 16 (100 + p.2))) ++
  List.replicate 8 .rxProcessExh

/-- A packet is judged in order, forwarded and joined with the entry of the table. -/
def receive (psn : BitVec 24) : List (HeaderLabel 64) :=
  [.rxIbhFsm, .stateRsp ⟨psn, 0, psn, 7⟩, .rxIbhFsm, .ipUdpMetaHandler, .rxExhFsm, .msnTable, .rxExhFsm,
    .rxExhFsm, .msnTable]

/-- A write that ends in the middle of its RETH, and a whole one. -/
def shortRun : List (HeaderLabel 64) :=
  packets [(RC_RDMA_WRITE_ONLY, [1]), (RC_RDMA_WRITE_ONLY, [1, 0x0800000000000000, 3])] ++ receive 0

-- The base header of the first packet is joined with the extended header of the second one.
theorem short_packet_shifts :
    ∃ t, run step (init 64 fun _ => {}) shortRun = some t ∧
      t.combined = [⟨0, 1, 0, 0⟩] ∧ ¬ t.Aligned := by
  have h : (run step (init 64 fun _ => {}) shortRun).map (fun t => (t.combined, t.judged)) =
      some ([⟨0, 1, 0, 0⟩], [⟨0, true⟩]) := by
    decide +kernel
  obtain ⟨t, ht, hx⟩ := Option.map_eq_some_iff.mp h
  obtain ⟨hc, hj⟩ := Prod.mk.inj hx
  refine ⟨t, ht, hc, fun hal => ?_⟩
  have hpre := hal.combined
  rw [hc, hj] at hpre
  exact absurd hpre (by decide)

/-- A write, a send without an extended header and an acknowledgement. -/
def mixedRun : List (HeaderLabel 64) :=
  packets [(RC_RDMA_WRITE_ONLY, [1, 0x0800000000000000, 3]), (RC_SEND_ONLY, [7]), (RC_ACK, [0])] ++
    receive 0 ++ receive 1 ++ receive 2

theorem headers_aligned_mixed :
    ∃ t, runIf step (fun t l => t.complete l = true) (init 64 fun _ => {}) mixedRun = some t ∧
      t.combined = [⟨0, 0, 0, 0⟩, ⟨1, 1, 1, 1⟩, ⟨2, 2, 2, 2⟩] ∧ t.Aligned := by
  have h : (runIf step (fun t l => t.complete l = true) (init 64 fun _ => {}) mixedRun).map (·.combined) =
      some [⟨0, 0, 0, 0⟩, ⟨1, 1, 1, 1⟩, ⟨2, 2, 2, 2⟩] := by
    decide +kernel
  obtain ⟨t, ht, hx⟩ := Option.map_eq_some_iff.mp h
  exact ⟨t, ht, hx, headers_aligned (by decide) _ t (reach_of_runIf ht)⟩

end HeaderNet

end FpgaNetworkStack.Roce
