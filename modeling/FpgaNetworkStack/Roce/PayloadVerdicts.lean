import FpgaNetworkStack.Roce.PacketHeaders
import FpgaNetworkStack.Roce.RxEngine
import FpgaNetworkStack.Toe.DropVerdicts

/-!
# Payloads and verdicts of the RoCE receive path

`rx_process_exh` decides by opcode and data width which words of a packet are payload, `rx_ibh_fsm` decides
by opcode and packet sequence number whether there is a verdict, and `drop_ooo_ibh` joins the two by
position.  The network below numbers the packets and remembers the number with every word and verdict.
-/

namespace FpgaNetworkStack.Roce

open Lib IbOpCode
open Toe (NetAxis packet popped)

/-! ## The payload of one packet -/

/-- A packet as it arrives: the base header and the words behind it, at least one. -/
structure Arrival (W : Nat) where
  no : Nat
  ibh : IbhMeta
  words : List (BitVec W)

namespace Arrival

variable {W : Nat}

/-- Words in front of the payload; all words when the packet has none. -/
def skip (a : Arrival W) : Nat :=
  match headerState a.ibh.opCode with
  | .ACK_HEADER => if a.ibh.opCode = RC_ACK then a.words.length else 0
  | .RETH_HEADER =>
    if W ≤ RETH_SIZE then (RETH_SIZE + W - 1) / W
    else if checkIfWrite a.ibh.opCode then 0 else a.words.length
  | _ => 0

/-- The words of the packet from the `k`-th on. -/
def rest (a : Arrival W) (k : Nat) : List (NetAxis (Nat × BitVec W)) := packet a.no (a.words.drop k)

def payload (a : Arrival W) : List (NetAxis (Nat × BitVec W)) := a.rest a.skip

/-- `rx_process_exh` writes words of the packet. -/
def contributes (a : Arrival W) : Bool := decide (a.skip < a.words.length)

/-- `rx_ibh_fsm` writes a verdict on the packet. -/
def judged (a : Arrival W) (r : RxStateRsp) : Bool :=
  a.ibh.opCode ≠ RC_ACK && (a.ibh.opCode ≠ RC_RDMA_READ_REQUEST || !inOrder a.ibh r && !duplicate a.ibh r)

/-- The two processes agree on the packet: a read request is not outside the window, and with words no wider
than a RETH it has nothing behind its header, while a write that starts with a RETH has a payload. -/
def agreed (a : Arrival W) (r : RxStateRsp) : Bool :=
  match a.ibh.opCode with
  | RC_RDMA_READ_REQUEST =>
    (inOrder a.ibh r || duplicate a.ibh r) == !(decide (W ≤ RETH_SIZE) &&
      decide ((RETH_SIZE + W - 1) / W < a.words.length))
  | RC_RDMA_WRITE_FIRST | RC_RDMA_WRITE_ONLY =>
    decide (RETH_SIZE < W) || decide ((RETH_SIZE + W - 1) / W < a.words.length)
  | _ => true

end Arrival

/-! ## The network -/

structure Verdict where
  no : Nat
  drop : Bool
  deriving DecidableEq

/-- A payload word that `drop_ooo_ibh` has read: the verdict it was handled under, its packet, and whether
it was forwarded. -/
structure Applied where
  verdict : Verdict
  no : Nat
  forwarded : Bool
  deriving DecidableEq

structure VerdictNet (W : Nat) where
  exh : RxProcessExh W
  /-- The packets whose opcodes are in `rx_ibh2exh_MetaFifo`. -/
  opCodes : List (Arrival W)
  /-- The words in `rx_shift2exhFifo`. -/
  input : List (NetAxis (Nat × BitVec W))
  exhMeta : List ExhMeta
  fsm : RxIbhFsm
  /-- The packets whose base headers are in `rx_ibh2fsm_MetaFifo`. -/
  headers : List (Arrival W)
  /-- The packet `rx_ibh_fsm` works on. -/
  current : Option (Arrival W)
  rsp : List RxStateRsp
  /-- `rx_exh2dropFifo` -/
  data : List (NetAxis (Nat × BitVec W))
  /-- `rx_ibhDropFifo` -/
  verdicts : List Verdict
  dropper : DropState
  /-- The verdict `drop_ooo_ibh` works under. -/
  held : Option Verdict
  arrived : List (Arrival W)
  /-- Every word ever written to `rx_exh2dropFifo`. -/
  written : List (NetAxis (Nat × BitVec W))
  /-- Every verdict ever written to `rx_ibhDropFifo`. -/
  given : List Verdict
  applied : List Applied

inductive VerdictLabel (W : Nat) where
  | arrive (ibh : IbhMeta) (words : List (BitVec W))
  | stateRsp (r : RxStateRsp)
  | rxProcessExh
  | rxIbhFsm
  | dropOooIbh

namespace VerdictNet

variable {W : Nat}

variable (W) in
def init : VerdictNet W :=
  { exh := {}, opCodes := [], input := [], exhMeta := [], fsm := {}, headers := [], current := none, rsp := []
    data := [], verdicts := [], dropper := .META, held := none, arrived := [], written := [], given := []
    applied := [] }

def untag (w : NetAxis (Nat × BitVec W)) : NetAxis (BitVec W) := ⟨w.data.2, w.last⟩

/-- A word passed on keeps the number of its packet. -/
def callExh (t : VerdictNet W) : VerdictNet W :=
  let (exh, i, out) := rxProcessExh t.exh ⟨t.input.map untag, t.opCodes.map (·.ibh.opCode)⟩
  let n := popped t.input i.input
  let words := (t.input.take n).flatMap fun w => out.output.map fun v => ⟨(w.data.1, v.data), v.last⟩
  { t with
    exh
    input := t.input.drop n
    opCodes := t.opCodes.drop (popped t.opCodes i.metaIn)
    exhMeta := t.exhMeta ++ out.exhMetaFifo
    data := t.data ++ words
    written := t.written ++ words }

def verdictsFor : Option (Arrival W) → List Bool → List Verdict
  | none, _ => []
  | some a, drops => drops.map (⟨a.no, ·⟩)

@[simp] theorem verdictsFor_nil (a : Option (Arrival W)) : verdictsFor a [] = [] := by
  cases a <;> rfl

def callFsm (t : VerdictNet W) : VerdictNet W :=
  let (fsm, i, out) := rxIbhFsm t.fsm ⟨t.headers.map (·.ibh), t.exhMeta, t.rsp⟩
  let n := popped t.headers i.metaIn
  let current := (t.headers.take n).head?.or t.current
  let verdicts := verdictsFor current out.ibhDropFifo
  { t with
    fsm
    headers := t.headers.drop n
    exhMeta := i.exhMetaFifo
    rsp := i.stateTableRsp
    current
    verdicts := t.verdicts ++ verdicts
    given := t.given ++ verdicts }

def callDropper (t : VerdictNet W) : VerdictNet W :=
  let (dropper, i, out) := dropOooIbh t.dropper ⟨t.data, t.verdicts.map (·.drop)⟩
  let n := popped t.data i.input
  let m := popped t.verdicts i.metaIn
  let held := (t.verdicts.take m).head?.or t.held
  { t with
    dropper
    data := t.data.drop n
    verdicts := t.verdicts.drop m
    held := if dropper = .META then none else held
    applied := t.applied ++
      (t.data.take n).flatMap fun w => held.toList.map fun v => ⟨v, w.data.1, !out.isEmpty⟩ }

/-- One call of a process, or one action of the environment: a packet with at least one word behind its
base header, or an answer of the state table with any content. -/
def step (t : VerdictNet W) : VerdictLabel W → Option (VerdictNet W)
  | .arrive ibh words =>
    if words.isEmpty then none
    else
      let a : Arrival W := ⟨t.arrived.length, ibh, words⟩
      some { t with
        opCodes := t.opCodes ++ [a], headers := t.headers ++ [a], input := t.input ++ a.rest 0
        arrived := t.arrived ++ [a] }
  | .stateRsp r => some { t with rsp := t.rsp ++ [r] }
  | .rxProcessExh => some t.callExh
  | .rxIbhFsm => some t.callFsm
  | .dropOooIbh => some t.callDropper

/-- A decision of `rx_ibh_fsm` is on a packet the two processes agree on. -/
def agrees (t : VerdictNet W) (l : VerdictLabel W) : Bool :=
  match l, t.fsm.fsmState, t.rsp with
  | .rxIbhFsm, .PROCESS, r :: _ => t.current.all (·.agreed r)
  | _, _, _ => true

/-- Packets `rx_ibh_fsm` has not finished, oldest first. -/
def pending (t : VerdictNet W) : List (Arrival W) :=
  match t.fsm.fsmState with
  | .LOAD => t.headers
  | .PROCESS => t.current.toList ++ t.headers

def payloads (l : List (Arrival W)) : List Nat := (l.filter (·.contributes)).map (·.no)

/-- One verdict for each finished packet with a payload, in order, and none for the others; words are
written in the order of the packets, and only payloads; a word is handled under the verdict of its own
packet, and as that verdict says. -/
structure Aligned (t : VerdictNet W) : Prop where
  numbered : t.arrived.map (·.no) = List.range t.arrived.length
  verdicts : ∃ done, t.arrived = done ++ t.pending ∧ t.given.map (·.no) = payloads done
  written : t.written <+: t.arrived.flatMap (·.payload)
  applied : ∀ w ∈ t.applied, w.verdict = ⟨w.no, !w.forwarded⟩

end VerdictNet

/-! ## Verdicts -/

variable {W : Nat}

theorem process_verdicts (a : Arrival W) (e : ExhMeta) (isResponse : Bool) (r : RxStateRsp) :
    (process a.ibh e isResponse r).ibhDropFifo.length = if a.judged r then 1 else 0 := by
  unfold process Arrival.judged
  cases hin : inOrder a.ibh r with
  | true =>
    simp only [if_true, processInOrder, Bool.not_true, Bool.false_and, Bool.or_false]
    cases ha : a.ibh.opCode <;> simp
  | false =>
    have hack : a.ibh.opCode ≠ RC_ACK := by
      intro hc
      simp [inOrder, hc] at hin
    cases hdup : duplicate a.ibh r with
    | true =>
      simp only [if_true, Bool.false_eq_true, if_false, processDuplicate, Bool.not_true, Bool.and_false,
        Bool.or_false]
      by_cases hread : a.ibh.opCode = RC_RDMA_READ_REQUEST
      · simp [hread]
      · rw [if_neg hread]
        cases checkIfWrite a.ibh.opCode <;> simp [hack, hread]
    | false => simp [processInvalid, hack]

theorem reth_le (hW : 0 < W) (k : Nat) : (RETH_SIZE + W - 1) / W ≤ k ↔ RETH_SIZE ≤ k * W := by
  rw [Nat.div_le_iff_le_mul_add_pred hW]
  rw [Nat.mul_comm]
  omega

/-- Where the two processes agree, and only there, exactly the packets with a payload are judged. -/
theorem Arrival.agreed_iff (a : Arrival W) (hne : a.words ≠ []) (r : RxStateRsp) :
    a.agreed r = true ↔ a.judged r = a.contributes := by
  have hpos : 0 < a.words.length := List.length_pos_iff.mpr hne
  unfold agreed judged contributes skip
  rcases Nat.lt_or_ge RETH_SIZE W with hW | hW
  · have hW' := Nat.not_le.mpr hW
    cases hop : a.ibh.opCode <;>
      simp [headerState, checkIfAethHeader, checkIfRethHeader, checkIfWrite, hpos, hW, hW']
    cases inOrder a.ibh r <;> simp
  · have hW' := Nat.not_lt.mpr hW
    cases hop : a.ibh.opCode <;>
      simp [headerState, checkIfAethHeader, checkIfRethHeader, hpos, hW, hW']
    cases inOrder a.ibh r <;> cases duplicate a.ibh r <;> simp

/-! ## Words -/

theorem packet_eq (no : Nat) (w : BitVec W) (ws : List (BitVec W)) :
    packet no (w :: ws) = ⟨(no, w), ws.isEmpty⟩ :: packet no ws := by
  cases ws <;> rfl

namespace Arrival

variable {a : Arrival W} {k : Nat}

theorem rest_eq_nil (h : a.words.length ≤ k) : a.rest k = [] := by
  rw [rest, List.drop_eq_nil_of_le h]
  rfl

theorem rest_cons (h : k < a.words.length) :
    ∃ x, a.rest k = ⟨(a.no, x), decide (a.words.length = k + 1)⟩ :: a.rest (k + 1) := by
  have hlast : (a.words.drop (k + 1)).isEmpty = decide (a.words.length = k + 1) := by
    rw [Bool.eq_iff_iff, List.isEmpty_iff, List.drop_eq_nil_iff, decide_eq_true_eq]
    omega
  refine ⟨a.words[k], ?_⟩
  rw [rest, rest, List.drop_eq_getElem_cons h, packet_eq, hlast]

theorem payload_eq_nil (h : a.contributes = false) : a.payload = [] := by
  simp only [contributes, decide_eq_false_iff_not, Nat.not_lt] at h
  exact rest_eq_nil h

end Arrival

/-- `rx_process_exh` waits for a packet. -/
structure ExhIdle (s : RxProcessExh W) : Prop where
  state : s.state = .META
  ack : HeaderAt s.ackHeader 0
  reth : HeaderAt s.rdmaHeader 0

/-- `rx_process_exh` has read `k` words of the packet `a`. -/
structure ExhBusy (s : RxProcessExh W) (a : Arrival W) (k : Nat) : Prop where
  state : s.state = headerState a.ibh.opCode
  opCode : s.opCode = a.ibh.opCode
  ack : HeaderAt s.ackHeader (if headerState a.ibh.opCode = .ACK_HEADER then k else 0)
  reth : HeaderAt s.rdmaHeader (if headerState a.ibh.opCode = .RETH_HEADER then k else 0)
  metaWritten : headerState a.ibh.opCode = .RETH_HEADER → s.metaWritten = decide (RETH_SIZE ≤ k * W)
  more : k < a.words.length

theorem headerState_ne (op : IbOpCode) : headerState op ≠ .META := by
  unfold headerState
  split
  · simp
  · split <;> simp

/-- One word of the packet `a`: it is written if it lies behind the header. -/
theorem ExhBusy.word {s : RxProcessExh W} {a : Arrival W} {k : Nat} (h : ExhBusy s a k) (hW : AETH_SIZE ≤ W)
    (x : BitVec W) (rest : List (NetAxis (BitVec W))) (metaIn : List IbOpCode) :
    ∃ s' out, rxProcessExh s ⟨⟨x, decide (a.words.length = k + 1)⟩ :: rest, metaIn⟩ = (s', ⟨rest, metaIn⟩, out) ∧
      out.output = (if a.skip ≤ k then [⟨x, decide (a.words.length = k + 1)⟩] else []) ∧
      if a.words.length = k + 1 then ExhIdle s' else ExhBusy s' a (k + 1) := by
  obtain ⟨hst, hop, hack, hreth, hmeta, hmore⟩ := h
  have hpos : 0 < W := Nat.lt_of_lt_of_le (by decide) hW
  cases hh : headerState a.ibh.opCode with
  | META => exact absurd hh (headerState_ne _)
  | ACK_HEADER =>
    rw [hh] at hst hack hreth
    simp only [if_true] at hack
    have hack' := hack.parseWord x
    have hready : (s.ackHeader.parseWord x).ready = true := by
      rw [hack'.ready, decide_eq_true_eq, Nat.add_mul]
      omega
    simp only [rxProcessExh, hst]
    refine ⟨_, _, rfl, ?_, ?_⟩
    · simp only [hready, hop, Arrival.skip, hh, Bool.true_and]
      by_cases hc : a.ibh.opCode = RC_ACK
      · simp [hc, hmore]
      · simp [hc]
    · by_cases hl : a.words.length = k + 1
      · rw [if_pos hl]
        simp only [hl, decide_true, if_true]
        exact ⟨rfl, headerAt_clear (by decide) _, hreth⟩
      · rw [if_neg hl]
        simp only [hl, decide_false, Bool.false_eq_true, if_false]
        refine ⟨hh.symm, hop, ?_, ?_, ?_, by omega⟩
        · rw [if_pos hh]
          exact hack'
        · rw [hh]
          exact hreth
        · intro hc
          rw [hh] at hc
          cases hc
  | RETH_HEADER =>
    rw [hh] at hst hack hreth
    simp only [if_true] at hreth
    have hreth' := hreth.parseWord x
    have hwritten := hmeta hh
    simp only [rxProcessExh, hst]
    refine ⟨_, _, rfl, ?_, ?_⟩
    · simp only [hwritten, hreth'.ready, hop, Arrival.skip, hh]
      rcases Nat.lt_or_ge RETH_SIZE W with hlt | hge
      · have hge' := Nat.not_le.mpr hlt
        have hfirst : RETH_SIZE ≤ (k + 1) * W := by
          rw [Nat.add_mul]
          omega
        cases hwr : checkIfWrite a.ibh.opCode <;> simp [hlt, hge', hfirst, hmore]
      · have hlt' := Nat.not_lt.mpr hge
        simp [hge, hlt', reth_le hpos]
    · by_cases hl : a.words.length = k + 1
      · rw [if_pos hl]
        simp only [hl, decide_true, if_true]
        exact ⟨rfl, hack, headerAt_clear (by decide) _⟩
      · rw [if_neg hl]
        simp only [hl, decide_false, Bool.false_eq_true, if_false]
        refine ⟨hh.symm, hop, ?_, ?_, ?_, by omega⟩
        · rw [hh]
          exact hack
        · rw [if_pos hh]
          exact hreth'
        · intro _
          rw [hreth'.ready, hwritten]
          by_cases hk : RETH_SIZE ≤ k * W
          · have hk' : RETH_SIZE ≤ (k + 1) * W :=
              Nat.le_trans hk (Nat.mul_le_mul_right W (Nat.le_succ k))
            simp [hk, hk']
          · simp [hk]
  | NO_HEADER =>
    rw [hh] at hst hack hreth
    simp only [rxProcessExh, hst]
    refine ⟨_, _, rfl, ?_, ?_⟩
    · simp [Arrival.skip, hh]
    · by_cases hl : a.words.length = k + 1
      · rw [if_pos hl]
        simp only [hl, decide_true, if_true]
        exact ⟨rfl, hack, hreth⟩
      · rw [if_neg hl]
        simp only [hl, decide_false, Bool.false_eq_true, if_false]
        refine ⟨hh.symm, hop, ?_, ?_, ?_, by omega⟩
        · rw [hh]
          exact hack
        · rw [hh]
          exact hreth
        · intro hc
          rw [hh] at hc
          cases hc

namespace VerdictNet

/-! ## Invariant -/

/-- The words `rx_process_exh` has to read and those it will write, packet by packet. -/
def Parsing (t : VerdictNet W) (unwritten : List (NetAxis (Nat × BitVec W))) : Prop :=
  (ExhIdle t.exh ∧ t.input = t.opCodes.flatMap (·.rest 0) ∧ unwritten = t.opCodes.flatMap (·.payload)) ∨
  ∃ a k, ExhBusy t.exh a k ∧ t.input = a.rest k ++ t.opCodes.flatMap (·.rest 0) ∧
    unwritten = a.rest (max k a.skip) ++ t.opCodes.flatMap (·.payload)

/-- State of the dropper: `words` are the words left of the packet it works on. -/
def Dropping (dropper : DropState) (held : Option Verdict) (words : List (NetAxis (Nat × BitVec W))) : Prop :=
  match dropper with
  | .META => held = none ∧ words = []
  | .FWD => ∃ n ws, held = some ⟨n, false⟩ ∧ ws ≠ [] ∧ words = packet n ws
  | .DROP => ∃ n ws, held = some ⟨n, true⟩ ∧ ws ≠ [] ∧ words = packet n ws

/-- `packets` are the packets with a payload that the dropper has not begun, and `unwritten` the words
`rx_process_exh` has not written. -/
structure Inv (t : VerdictNet W) (words unwritten : List (NetAxis (Nat × BitVec W)))
    (packets : List (Arrival W)) : Prop where
  nonempty : ∀ a ∈ t.arrived, a.words ≠ []
  opCodes : ∀ a ∈ t.opCodes, a ∈ t.arrived
  current : t.fsm.fsmState = .PROCESS → ∃ a, t.current = some a ∧ t.fsm.metaReg = a.ibh
  parsing : Parsing t unwritten
  stream : t.arrived.flatMap (·.payload) = t.written ++ unwritten
  numbered : t.arrived.map (·.no) = List.range t.arrived.length
  verdicts : ∃ done, t.arrived = done ++ t.pending ∧ t.given.map (·.no) = payloads done
  dropping : Dropping t.dropper t.held words
  data : t.data ++ unwritten = words ++ packets.flatMap (·.payload)
  contribute : ∀ a ∈ packets, a.contributes = true
  order : packets.map (·.no) = t.verdicts.map (·.no) ++ payloads t.pending
  applied : ∀ w ∈ t.applied, w.verdict = ⟨w.no, !w.forwarded⟩

variable {t u : VerdictNet W} {words unwritten : List (NetAxis (Nat × BitVec W))} {packets : List (Arrival W)}

theorem Inv.aligned (h : Inv t words unwritten packets) : Aligned t :=
  { h with written := ⟨unwritten, h.stream.symm⟩ }

theorem payloads_append (l l' : List (Arrival W)) : payloads (l ++ l') = payloads l ++ payloads l' := by
  simp [payloads]

theorem payloads_singleton (a : Arrival W) : payloads [a] = if a.contributes then [a.no] else [] := by
  cases h : a.contributes <;> simp [payloads, h]

theorem inv_init : Inv (init W) [] [] [] := by
  refine ⟨by simp [init], by simp [init], ?_, .inl ⟨⟨rfl, ?_, ?_⟩, rfl, rfl⟩, rfl, rfl, ⟨[], rfl, rfl⟩, ⟨rfl, rfl⟩, rfl, by simp,
    rfl, by simp [init]⟩
  · intro hc
    cases hc
  · exact headerAt_clear (by decide) {}
  · exact headerAt_clear (by decide) {}

theorem Inv.arrive {ibh : IbhMeta} {ws : List (BitVec W)} (h : Inv t words unwritten packets)
    (hs : t.step (.arrive ibh ws) = some u) : ∃ unwritten packets, Inv u words unwritten packets := by
  simp only [step] at hs
  split at hs
  · cases hs
  · next hne =>
      generalize ha : (⟨t.arrived.length, ibh, ws⟩ : Arrival W) = a at hs
      cases hs
      have hno : a.no = t.arrived.length := by rw [← ha]
      have hws : a.words ≠ [] := by
        rw [← ha]
        simpa using hne
      have hpend : pending { t with
          opCodes := t.opCodes ++ [a], headers := t.headers ++ [a], input := t.input ++ a.rest 0
          arrived := t.arrived ++ [a] } = t.pending ++ [a] := by
        unfold pending
        cases t.fsm.fsmState <;> simp
      refine ⟨unwritten ++ a.payload, packets ++ [a].filter (·.contributes), ?_, ?_, h.current, ?_, ?_, ?_, ?_,
        h.dropping, ?_, ?_, ?_, h.applied⟩
      · intro x hx
        rcases List.mem_append.mp hx with hx | hx
        · exact h.nonempty x hx
        · rw [List.mem_singleton.mp hx]
          exact hws
      · intro x hx
        rcases List.mem_append.mp hx with hx | hx
        · exact List.mem_append_left _ (h.opCodes x hx)
        · exact List.mem_append_right _ hx
      · rcases h.parsing with ⟨hidle, hin, hun⟩ | ⟨x, k, hbusy, hin, hun⟩
        · exact .inl ⟨hidle, by simp [hin], by simp [hun]⟩
        · exact .inr ⟨x, k, hbusy, by simp [hin], by simp [hun]⟩
      · simp [h.stream]
      · simp [h.numbered, hno, List.range_succ]
      · obtain ⟨done, hdone, hgiven⟩ := h.verdicts
        exact ⟨done, by rw [hpend, ← List.append_assoc, ← hdone], hgiven⟩
      · rw [← List.append_assoc, h.data]
        cases hc : a.contributes with
        | true => simp [hc]
        | false => simp [hc, Arrival.payload_eq_nil hc]
      · intro x hx
        rcases List.mem_append.mp hx with hx | hx
        · exact h.contribute x hx
        · exact (List.mem_filter.mp hx).2
      · rw [hpend, payloads_append, ← List.append_assoc, ← h.order, List.map_append]
        rfl

theorem Inv.write {unwritten' : List (NetAxis (Nat × BitVec W))} (new : List (NetAxis (Nat × BitVec W)))
    (h : Inv t words unwritten packets)
    (hu : u = { t with
      exh := u.exh, input := u.input, opCodes := u.opCodes, exhMeta := u.exhMeta, data := t.data ++ new
      written := t.written ++ new })
    (hcodes : ∀ a ∈ u.opCodes, a ∈ t.opCodes) (hun : unwritten = new ++ unwritten')
    (hpar : Parsing u unwritten') : Inv u words unwritten' packets := by
  rw [hu]
  rw [hu] at hpar
  refine { h with opCodes := fun a ha => h.opCodes a (hcodes a ha), parsing := hpar, stream := ?_, data := ?_ }
  · rw [h.stream, hun, List.append_assoc]
  · rw [List.append_assoc, ← hun]
    exact h.data

theorem Inv.exh (h : Inv t words unwritten packets) (hW : AETH_SIZE ≤ W) :
    ∃ unwritten, Inv t.callExh words unwritten packets := by
  rcases h.parsing with ⟨hidle, hin, hun⟩ | ⟨a, k, hbusy, hin, hun⟩
  · cases hop : t.opCodes with
    | nil =>
      have hcall : t.callExh = t := by
        simp [callExh, rxProcessExh, hidle.state, hop, popped]
        rw [← hop]
      rw [hcall]
      exact ⟨unwritten, h⟩
    | cons a as =>
      have hcall : t.callExh = { t with
          exh := { t.exh with
            opCode := a.ibh.opCode, metaWritten := false, state := headerState a.ibh.opCode }
          opCodes := as } := by
        simp [callExh, rxProcessExh, hidle.state, hop, popped]
      have hne := h.nonempty a (h.opCodes a (by rw [hop]; exact List.mem_cons_self))
      rw [hop] at hin hun
      refine ⟨unwritten, h.write [] ?_ ?_ rfl ?_⟩
      · rw [hcall]
        simp
      · rw [hcall, hop]
        exact fun x hx => List.mem_cons_of_mem _ hx
      · rw [hcall]
        refine .inr ⟨a, 0, ⟨rfl, rfl, ?_, ?_, ?_, List.length_pos_iff.mpr hne⟩, hin, ?_⟩
        · simpa using hidle.ack
        · simpa using hidle.reth
        · intro _
          simp [RETH_SIZE]
        · rw [Nat.zero_max]
          exact hun
  · obtain ⟨x, hrest⟩ := Arrival.rest_cons hbusy.more
    obtain ⟨s', out, hexh, hout, hnext⟩ := hbusy.word hW x
      ((a.rest (k + 1) ++ t.opCodes.flatMap (·.rest 0)).map untag) (t.opCodes.map (·.ibh.opCode))
    rw [hrest, List.cons_append] at hin
    have hcall : t.callExh = { t with
        exh := s', input := a.rest (k + 1) ++ t.opCodes.flatMap (·.rest 0)
        exhMeta := t.exhMeta ++ out.exhMetaFifo
        data := t.data ++ if a.skip ≤ k then [⟨(a.no, x), decide (a.words.length = k + 1)⟩] else []
        written := t.written ++
          if a.skip ≤ k then [⟨(a.no, x), decide (a.words.length = k + 1)⟩] else [] } := by
      have hmap : t.input.map untag = ⟨x, decide (a.words.length = k + 1)⟩ ::
          (a.rest (k + 1) ++ t.opCodes.flatMap (·.rest 0)).map untag := by
        rw [hin]
        rfl
      unfold callExh
      rw [hmap, hexh]
      simp only [hout, hin, popped, List.length_map, List.length_cons, Nat.sub_self, List.drop_zero,
        Nat.add_sub_cancel_left]
      by_cases hk : a.skip ≤ k <;> simp [hk]
    -- the payload that is left shrinks by the word if it is part of it
    have hpay : a.rest (max k a.skip) =
        (if a.skip ≤ k then [⟨(a.no, x), decide (a.words.length = k + 1)⟩] else []) ++
          a.rest (max (k + 1) a.skip) := by
      by_cases hk : a.skip ≤ k
      · rw [if_pos hk, Nat.max_eq_left hk, Nat.max_eq_left (by omega), hrest]
        rfl
      · rw [if_neg hk, Nat.max_eq_right (by omega), Nat.max_eq_right (by omega)]
        rfl
    refine ⟨a.rest (max (k + 1) a.skip) ++ t.opCodes.flatMap (·.payload), ?_⟩
    rw [hpay, List.append_assoc] at hun
    refine h.write _ (by rw [hcall]) (by rw [hcall]; exact fun x hx => hx) hun ?_
    rw [hcall]
    by_cases hl : a.words.length = k + 1
    · rw [if_pos hl] at hnext
      have hend : a.rest (k + 1) = [] := Arrival.rest_eq_nil (by omega)
      have hend' : a.rest (max (k + 1) a.skip) = [] := Arrival.rest_eq_nil (by omega)
      exact .inl ⟨hnext, by rw [hend]; rfl, by rw [hend']; rfl⟩
    · rw [if_neg hl] at hnext
      exact .inr ⟨a, k + 1, hnext, rfl, rfl⟩

theorem Inv.fsm (h : Inv t words unwritten packets) (hok : t.agrees .rxIbhFsm = true) :
    Inv t.callFsm words unwritten packets := by
  rcases rxIbhFsm_cases t.fsm ⟨t.headers.map (·.ibh), t.exhMeta, t.rsp⟩ with
    ⟨_, _, e, es, hst, hhs, he, hfsm⟩ | ⟨r, rs, hst, hr, hfsm⟩ | hfsm
  · obtain ⟨a, as, hh, rfl, rfl⟩ := List.map_eq_cons_iff.mp hhs
    have hcall : t.callFsm = { t with
        fsm := { t.fsm with
          fsmState := .PROCESS, metaReg := a.ibh, emeta := e
          isResponse := checkIfResponse a.ibh.opCode }
        headers := as, exhMeta := es, current := some a } := by
      simp only [callFsm, hfsm]
      simp [hh, popped, verdictsFor]
    have hpend : t.callFsm.pending = t.pending := by
      rw [hcall, pending, pending, hst, hh]
      rfl
    obtain ⟨done, hdone, hgiven⟩ := h.verdicts
    rw [hcall] at hpend ⊢
    refine { h with current := fun _ => ⟨a, rfl, rfl⟩, verdicts := ⟨done, ?_, hgiven⟩, order := ?_ }
    · rw [hpend]
      exact hdone
    · rw [hpend]
      exact h.order
  · change t.rsp = r :: rs at hr
    obtain ⟨a, ha, hm⟩ := h.current hst
    generalize hvs : verdictsFor (some a) (process a.ibh t.fsm.emeta t.fsm.isResponse r).ibhDropFifo = vs
    have hcall : t.callFsm = { t with
        fsm := { t.fsm with
          fsmState := .LOAD
          droppedPackets :=
            if countsDrop a.ibh r then t.fsm.droppedPackets + 1 else t.fsm.droppedPackets }
        rsp := rs, verdicts := t.verdicts ++ vs, given := t.given ++ vs } := by
      simp [callFsm, rxIbhFsm, hst, hr, popped, ha, hm, hvs]
    have hpend : t.pending = a :: t.headers := by
      rw [pending, hst, ha]
      rfl
    obtain ⟨done, hdone, hgiven⟩ := h.verdicts
    rw [hpend] at hdone
    -- one verdict exactly when the packet has a payload
    have hno : vs.map (·.no) = payloads [a] := by
      have hne := h.nonempty a (by rw [hdone]; simp)
      have hagree : a.agreed r = true := by simpa [agrees, hst, hr, ha] using hok
      have hlen := process_verdicts a t.fsm.emeta t.fsm.isResponse r
      rw [(a.agreed_iff hne r).mp hagree] at hlen
      rw [← hvs, payloads_singleton, verdictsFor, List.map_map,
        List.eq_replicate_of_mem (l := List.map _ _) (a := a.no) (by simp)]
      rw [List.length_map, hlen]
      split <;> rfl
    have horder := h.order
    rw [hpend, ← List.singleton_append, payloads_append, ← hno, ← List.append_assoc, ← List.map_append]
      at horder
    rw [hcall]
    refine { h with current := ?_, verdicts := ⟨done ++ [a], ?_, ?_⟩, order := horder }
    · intro hc
      cases hc
    · rw [hdone, List.append_assoc]
      rfl
    · rw [List.map_append, hgiven, hno, payloads_append]
  · have hnone : verdictsFor t.current [] = [] := by cases t.current <;> rfl
    have hcall : t.callFsm = t := by simp [callFsm, hfsm, popped, hnone]
    rw [hcall]
    exact h

/-- The state of the dropper under a verdict. -/
def dropState (drop : Bool) : DropState := if drop then .DROP else .FWD

theorem dropping_iff {d : Bool} {held : Option Verdict} :
    Dropping (dropState d) held words ↔ ∃ n ws, held = some ⟨n, d⟩ ∧ ws ≠ [] ∧ words = packet n ws := by
  cases d <;> rfl

theorem Inv.dropWord {d : Bool} (h : Inv t words unwritten packets) (hst : t.dropper = dropState d) :
    ∃ words, Inv t.callDropper words unwritten packets := by
  have hdrop := h.dropping
  have hdata := h.data
  rw [hst, dropping_iff] at hdrop
  obtain ⟨n, ws, hheld, hne, hwords⟩ := hdrop
  cases hd : t.data with
  | nil =>
    have hcall : t.callDropper = t := by
      cases d <;> simp [callDropper, dropOooIbh, hst, dropState, hd, popped] <;> rw [← hd]
      · rw [show DropState.FWD = t.dropper from hst.symm]
      · rw [show DropState.DROP = t.dropper from hst.symm]
    rw [hcall]
    exact ⟨words, h⟩
  | cons w ds =>
    cases ws with
    | nil => exact absurd rfl hne
    | cons x ws =>
      rw [hd, hwords, packet_eq, List.cons_append, List.cons_append, List.cons.injEq] at hdata
      obtain ⟨hw, hdata⟩ := hdata
      have hcall : t.callDropper = { t with
          dropper := if ws.isEmpty then .META else dropState d
          data := ds
          held := if ws.isEmpty then none else some ⟨n, d⟩
          applied := t.applied ++ [⟨⟨n, d⟩, n, !d⟩] } := by
        cases d <;> cases hws : ws.isEmpty <;>
          simp [callDropper, dropOooIbh, hst, dropState, hd, popped, hheld, hw, hws]
      rw [hcall]
      refine ⟨packet n ws, h.nonempty, h.opCodes, h.current, h.parsing, h.stream, h.numbered, h.verdicts, ?_,
        hdata, h.contribute, h.order, ?_⟩
      · cases hws : ws.isEmpty with
        | true =>
          rw [List.isEmpty_iff] at hws
          subst hws
          exact ⟨rfl, rfl⟩
        | false =>
          simp only [Bool.false_eq_true, if_false]
          refine dropping_iff.mpr ⟨n, ws, rfl, ?_, rfl⟩
          intro hc
          rw [hc] at hws
          cases hws
      · intro y hy
        rcases List.mem_append.mp hy with hy | hy
        · exact h.applied y hy
        · rw [List.mem_singleton.mp hy, Bool.not_not]

theorem Inv.drop (h : Inv t words unwritten packets) :
    ∃ words packets, Inv t.callDropper words unwritten packets := by
  cases hst : t.dropper with
  | META =>
    have hdrop := h.dropping
    rw [hst] at hdrop
    obtain ⟨hheld, hwords⟩ := hdrop
    cases hv : t.verdicts with
    | nil =>
      have hcall : t.callDropper = t := by
        simp [callDropper, dropOooIbh, hst, hv, popped]
        rw [← hst, ← hv, ← hheld]
      rw [hcall]
      exact ⟨words, packets, h⟩
    | cons v vs =>
      -- the verdict is that of the next packet with a payload
      have horder := h.order
      rw [hv, List.map_cons, List.cons_append] at horder
      obtain ⟨a, as, hp, hno, hrest⟩ := List.map_eq_cons_iff.mp horder
      have hcon := h.contribute a (by rw [hp]; exact List.mem_cons_self)
      have hcall : t.callDropper = { t with
          dropper := dropState v.drop, verdicts := vs, held := some v } := by
        cases hd : v.drop <;> simp [callDropper, dropOooIbh, hst, hv, popped, hd, dropState]
      rw [hcall]
      refine ⟨a.payload, as, h.nonempty, h.opCodes, h.current, h.parsing, h.stream, h.numbered, h.verdicts,
        ?_, ?_, ?_, hrest, h.applied⟩
      · refine dropping_iff.mpr ⟨a.no, a.words.drop a.skip, ?_, ?_, rfl⟩
        · rw [hno]
        · intro hc
          rw [List.drop_eq_nil_iff] at hc
          simp only [Arrival.contributes, decide_eq_true_eq] at hcon
          omega
      · rw [← List.flatMap_cons, ← hp]
        rw [hwords] at h
        exact h.data
      · exact fun b hb => h.contribute b (by rw [hp]; exact List.mem_cons_of_mem _ hb)
  | FWD =>
    obtain ⟨words, h⟩ := h.dropWord (d := false) hst
    exact ⟨words, packets, h⟩
  | DROP =>
    obtain ⟨words, h⟩ := h.dropWord (d := true) hst
    exact ⟨words, packets, h⟩

theorem inv_step {l : VerdictLabel W} (hW : AETH_SIZE ≤ W) (h : ∃ words unwritten packets, Inv t words unwritten packets)
    (hok : t.agrees l = true) (hs : t.step l = some u) :
    ∃ words unwritten packets, Inv u words unwritten packets := by
  obtain ⟨words, unwritten, packets, h⟩ := h
  cases l with
  | arrive ibh ws =>
    obtain ⟨unwritten, packets, h⟩ := h.arrive hs
    exact ⟨words, unwritten, packets, h⟩
  | stateRsp r =>
    cases hs
    exact ⟨words, unwritten, packets, h.nonempty, h.opCodes, h.current, h.parsing, h.stream, h.numbered,
      h.verdicts, h.dropping, h.data, h.contribute, h.order, h.applied⟩
  | rxProcessExh =>
    cases hs
    obtain ⟨unwritten, h⟩ := h.exh hW
    exact ⟨words, unwritten, packets, h⟩
  | rxIbhFsm =>
    cases hs
    exact ⟨words, unwritten, packets, h.fsm hok⟩
  | dropOooIbh =>
    cases hs
    obtain ⟨words, packets, h⟩ := h.drop
    exact ⟨words, unwritten, packets, h⟩

/-! ## Main result -/

/-- In every run in which the processes agree on every packet that is judged, payloads and verdicts are
aligned. -/
theorem payload_verdicts_aligned {t : VerdictNet W} (hW : AETH_SIZE ≤ W)
    (h : Reach step (fun t l => agrees t l = true) (init W) t) : Aligned t := by
  have hinv : ∃ words unwritten packets, Inv t words unwritten packets :=
    h.invariant ⟨[], [], [], inv_init⟩ fun u l v hu hok hs => inv_step hW hu hok hs
  obtain ⟨words, unwritten, packets, hinv⟩ := hinv
  exact hinv.aligned

/-- A packet with one word arrives, is judged by a table that expects `epsn`, and its payload, if there is
one, is handled. -/
def receive (opCode : IbOpCode) (psn epsn : BitVec 24) : List (VerdictLabel 512) :=
  [.arrive ⟨opCode, 0, 3, psn, true, 1⟩ [0], .rxProcessExh, .rxProcessExh, .rxIbhFsm,
    .stateRsp ⟨epsn, 10, epsn, 7⟩, .rxIbhFsm, .dropOooIbh, .dropOooIbh]

-- A write, its duplicate, a read request and an acknowledgement: two verdicts.
theorem payload_verdicts_aligned_duplicate :
    ∃ t : VerdictNet 512, Reach step (fun t l => agrees t l = true) (init 512) t ∧ Aligned t ∧
      t.applied = [⟨⟨0, false⟩, 0, true⟩, ⟨⟨1, true⟩, 1, false⟩] ∧ t.arrived.length = 4 := by
  have h : (runIf step (fun t l => agrees t l = true) (init 512)
      (receive RC_RDMA_WRITE_ONLY 10 10 ++ receive RC_RDMA_WRITE_ONLY 10 11 ++
        receive RC_RDMA_READ_REQUEST 11 11 ++ receive RC_ACK 5 12)).map
      (fun t => (t.applied, t.arrived.length)) =
        some ([⟨⟨0, false⟩, 0, true⟩, ⟨⟨1, true⟩, 1, false⟩], 4) := by
    decide +kernel
  obtain ⟨t, ht, hp⟩ := Option.map_eq_some_iff.mp h
  have hr := reach_of_runIf ht
  exact ⟨t, hr, payload_verdicts_aligned (by decide) hr, congrArg Prod.fst hp, congrArg Prod.snd hp⟩

-- The read request with number 20 is outside the window: it is dropped with a verdict but has no payload, and
-- the expected write behind it is dropped under that verdict.
theorem verdict_of_read_request :
    ∃ t : VerdictNet 512, Reach step anyStep (init 512) t ∧ t.given = [⟨0, true⟩, ⟨1, false⟩] ∧
      t.arrived.map (fun a => (a.ibh.opCode, a.contributes)) =
        [(RC_RDMA_READ_REQUEST, false), (RC_RDMA_WRITE_ONLY, true)] ∧
      t.applied = [⟨⟨0, true⟩, 1, false⟩] ∧ ¬Aligned t := by
  have h : (run step (init 512) (receive RC_RDMA_READ_REQUEST 20 10 ++ receive RC_RDMA_WRITE_ONLY 10 10)).map
      (fun t => (t.given, t.arrived.map (fun a => (a.ibh.opCode, a.contributes)), t.applied)) =
        some ([⟨0, true⟩, ⟨1, false⟩], [(RC_RDMA_READ_REQUEST, false), (RC_RDMA_WRITE_ONLY, true)],
          [⟨⟨0, true⟩, 1, false⟩]) := by
    decide +kernel
  obtain ⟨t, ht, hp⟩ := Option.map_eq_some_iff.mp h
  simp only [Prod.mk.injEq] at hp
  obtain ⟨hgiven, harr, happ⟩ := hp
  refine ⟨t, reach_of_run ht, hgiven, harr, happ, fun hal => ?_⟩
  have := hal.applied ⟨⟨0, true⟩, 1, false⟩ (by rw [happ]; exact List.mem_singleton.mpr rfl)
  cases this

end VerdictNet

end FpgaNetworkStack.Roce
