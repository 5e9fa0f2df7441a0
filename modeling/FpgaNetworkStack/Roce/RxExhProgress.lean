import FpgaNetworkStack.Lib.Calls
import FpgaNetworkStack.Roce.PayloadVerdicts
import FpgaNetworkStack.Roce.RxExhFsm

/-!
# Progress of the receive path

`rx_exh_fsm` handles a packet in three calls, and the last one, in state `DATA`, is to go back to `META` and
to announce the payload of the packet, if `drop_ooo_ibh` lets one through, to the processes that take it.
A write without a length and an opcode without a case keep the state, so that no later packet is served.
-/

namespace FpgaNetworkStack.Roce

open Lib IbOpCode
open Toe (NetAxis)

variable {W : Nat}

/-! ## One packet on its way to `rx_exh_fsm` -/

namespace Arrival

/-- The words behind the base header, as they are streamed. -/
def stream (a : Arrival W) (k : Nat) : List (NetAxis (BitVec W)) := (a.rest k).map VerdictNet.untag

/-- What `rx_process_exh` writes while it reads the packet: one call for the opcode, one for each word. -/
def parsed (a : Arrival W) (s : RxProcessExh W) : List (RxProcessExhOut W) :=
  written rxProcessExh (1 + a.words.length) s ⟨a.stream 0, [a.ibh.opCode]⟩

/-- The words that reach `drop_ooo_ibh`. -/
def offered (a : Arrival W) (s : RxProcessExh W) : List (NetAxis (BitVec W)) :=
  (a.parsed s).flatMap (·.output)

/-- The extended headers that are passed on. -/
def exHeaders (a : Arrival W) (s : RxProcessExh W) : List (BitVec RETH_SIZE) :=
  (a.parsed s).flatMap (·.metaOut)

/-- The words `drop_ooo_ibh` lets through, called for the verdict and for every word. -/
def letThrough (a : Arrival W) (s : RxProcessExh W) (verdicts : List Bool) : List (NetAxis (BitVec W)) :=
  (written dropOooIbh (1 + a.words.length) .META ⟨a.offered s, verdicts⟩).flatten

end Arrival

/-- What `rx_exh_fsm` owes a packet in state `DATA`: the next call returns to `META`, and it writes one
shift type and one split type if payload is let through, and none of either otherwise. -/
structure Served (s : RxExhFsm) (i : RxExhFsmIn) (payload : List (NetAxis (BitVec W))) : Prop where
  returns : (rxExhFsm s i).1.peFsmState = .META
  shifts : (rxExhFsm s i).2.2.rxPkgShiftTypeFifo.length = if payload = [] then 0 else 1
  splits : (rxExhFsm s i).2.2.rxPkgSplitTypeFifo.length = if payload = [] then 0 else 1

/-- `rx_exh_fsm` has a case for the opcode that it also leaves, and a write that brings a RETH brings payload
with it: with words no wider than the RETH, words behind it. -/
def completes (a : Arrival W) (p : RxProcessExh W) : Bool :=
  match a.ibh.opCode with
  | RC_RDMA_WRITE_FIRST | RC_RDMA_WRITE_ONLY =>
    (a.exHeaders p).all (fun header => getLength header ≠ 0) && a.contributes
  | RC_SEND_LAST_WITH_IMD | RC_SEND_ONLY_WITH_IMD | RC_RDMA_WRITE_LAST_WITH_IMD
  | RC_RDMA_WRITE_ONLY_WIT_IMD | UNKNOWN _ => false
  | _ => true

/-! ## The payload -/

-- Induction on the number of words left: `ExhBusy.word` says what one call does.
theorem ExhBusy.written {a : Arrival W} (hW : AETH_SIZE ≤ W) (n : Nat) :
    ∀ {s : RxProcessExh W} {k : Nat}, ExhBusy s a k → k + n = a.words.length →
      (Lib.written rxProcessExh n s ⟨a.stream k, []⟩).flatMap (·.output) = a.stream (max a.skip k) := by
  induction n with
  | zero =>
    intro s k h hk
    exact absurd h.more (by omega)
  | succ n ih =>
    intro s k h hk
    obtain ⟨x, hx⟩ := Arrival.rest_cons h.more
    obtain ⟨s', out, hcall, hout, hnext⟩ := h.word hW x (a.stream (k + 1)) []
    have hstream : a.stream k = ⟨x, decide (a.words.length = k + 1)⟩ :: a.stream (k + 1) := by
      rw [Arrival.stream, hx, List.map_cons]
      rfl
    rw [hstream, written_succ hcall, List.flatMap_cons, hout]
    by_cases hlast : a.words.length = k + 1
    · -- the last word
      have hn : n = 0 := by omega
      have hnil : a.stream (k + 1) = [] := by rw [Arrival.stream, Arrival.rest_eq_nil (by omega), List.map_nil]
      rw [hn, written_zero, List.flatMap_nil, List.append_nil]
      by_cases hskip : a.skip ≤ k
      · rw [if_pos hskip, Nat.max_eq_right hskip, hstream, hnil]
      · have hmax : a.words.length ≤ max a.skip k := by omega
        rw [if_neg hskip, Arrival.stream, Arrival.rest_eq_nil hmax, List.map_nil]
    · rw [if_neg hlast] at hnext
      rw [ih hnext (by omega)]
      by_cases hskip : a.skip ≤ k
      · rw [if_pos hskip, Nat.max_eq_right hskip, Nat.max_eq_right (Nat.le_succ_of_le hskip), hstream]
        rfl
      · rw [if_neg hskip, show max a.skip (k + 1) = max a.skip k by omega]
        rfl

theorem offered_eq (a : Arrival W) (hW : AETH_SIZE ≤ W) (hne : a.words ≠ []) {s : RxProcessExh W}
    (hs : ExhIdle s) : a.offered s = a.payload.map VerdictNet.untag := by
  have hpos : 0 < a.words.length := List.length_pos_iff.mpr hne
  have hcall : rxProcessExh s ⟨a.stream 0, [a.ibh.opCode]⟩ =
      ({ s with opCode := a.ibh.opCode, metaWritten := false, state := headerState a.ibh.opCode },
        ⟨a.stream 0, []⟩, {}) := by
    simp only [rxProcessExh, hs.state]
  have hbusy : ExhBusy { s with
      opCode := a.ibh.opCode, metaWritten := false, state := headerState a.ibh.opCode } a 0 := by
    refine ⟨rfl, rfl, ?_, ?_, ?_, hpos⟩
    · rw [ite_self]
      exact hs.ack
    · rw [ite_self]
      exact hs.reth
    · intro _
      simp [RETH_SIZE]
  rw [Arrival.offered, Arrival.parsed, Nat.add_comm, written_succ hcall, List.flatMap_cons,
    hbusy.written hW _ (by omega), Nat.max_eq_left (Nat.zero_le _)]
  rfl

/-! ## The words that are let through -/

-- Induction on the calls: each forwards a word, and after the last word the dropper waits.
theorem written_forward {a : Arrival W} (n : Nat) :
    ∀ {k : Nat}, k < a.words.length → a.words.length ≤ k + n →
      (Lib.written dropOooIbh n .FWD ⟨a.stream k, []⟩).flatten = a.stream k := by
  induction n with
  | zero =>
    intro k hk hn
    omega
  | succ n ih =>
    intro k hk hn
    obtain ⟨x, hx⟩ := Arrival.rest_cons hk
    have hstream : a.stream k = ⟨x, decide (a.words.length = k + 1)⟩ :: a.stream (k + 1) := by
      rw [Arrival.stream, hx, List.map_cons]
      rfl
    rw [hstream]
    by_cases hlast : a.words.length = k + 1
    · have hnil : a.stream (k + 1) = [] := by rw [Arrival.stream, Arrival.rest_eq_nil (by omega), List.map_nil]
      have hcall : dropOooIbh .FWD ⟨[⟨x, decide (a.words.length = k + 1)⟩], []⟩ =
          (.META, ⟨[], []⟩, [⟨x, decide (a.words.length = k + 1)⟩]) := by
        simp [dropOooIbh, hlast]
      have hidle : dropOooIbh (α := BitVec W) .META ⟨[], []⟩ = (.META, ⟨[], []⟩, []) := rfl
      rw [hnil, written_succ hcall, written_idle hidle, List.flatten_cons, List.flatten_replicate_nil]
      rfl
    · have hcall : dropOooIbh .FWD ⟨⟨x, decide (a.words.length = k + 1)⟩ :: a.stream (k + 1), []⟩ =
          (.FWD, ⟨a.stream (k + 1), []⟩, [⟨x, decide (a.words.length = k + 1)⟩]) := by
        simp [dropOooIbh, hlast]
      rw [written_succ hcall, List.flatten_cons, ih (by omega) (by omega)]
      rfl

theorem letThrough_keep (a : Arrival W) (hW : AETH_SIZE ≤ W) (hne : a.words ≠ []) {p : RxProcessExh W}
    (hp : ExhIdle p) : a.letThrough p [false] = a.payload.map VerdictNet.untag := by
  have hcall (input : List (NetAxis (BitVec W))) : dropOooIbh .META ⟨input, [false]⟩ = (.FWD, ⟨input, []⟩, []) := by
    simp [dropOooIbh]
  rw [Arrival.letThrough, offered_eq a hW hne hp, Nat.add_comm, written_succ (hcall _), List.flatten_cons,
    List.nil_append]
  cases hc : a.contributes with
  | true => exact written_forward _ (decide_eq_true_eq.mp hc) (by omega)
  | false =>
    have hidle : dropOooIbh (α := BitVec W) .FWD ⟨[], []⟩ = (.FWD, ⟨[], []⟩, []) := rfl
    rw [Arrival.payload_eq_nil hc, List.map_nil, written_idle hidle, List.flatten_replicate_nil]

theorem letThrough_unjudged (a : Arrival W) (p : RxProcessExh W) : a.letThrough p [] = [] := by
  have hidle : dropOooIbh .META ⟨a.offered p, []⟩ = (.META, ⟨a.offered p, []⟩, []) := rfl
  rw [Arrival.letThrough, written_idle hidle, List.flatten_replicate_nil]

theorem payload_eq_nil_iff (a : Arrival W) : a.payload.map VerdictNet.untag = [] ↔ a.contributes = false := by
  constructor
  · intro h
    by_contra hc
    have hlt : a.skip < a.words.length := by simpa [Arrival.contributes] using hc
    obtain ⟨x, hx⟩ := Arrival.rest_cons hlt
    rw [Arrival.payload, hx] at h
    cases h
  · intro h
    rw [Arrival.payload_eq_nil h, List.map_nil]

-- What `rx_ibh_fsm` passes on, and the verdict that goes with it.
theorem forwarded_verdicts {ibh m : IbhMeta} {e : ExhMeta} {isResponse : Bool} {r : RxStateRsp}
    (h : (process ibh e isResponse r).metaOut = [m]) :
    m.opCode = ibh.opCode ∧ (process ibh e isResponse r).ibhDropFifo =
      if ibh.opCode ≠ RC_ACK ∧ ibh.opCode ≠ RC_RDMA_READ_REQUEST then [false] else [] := by
  unfold process at h ⊢
  by_cases hin : inOrder ibh r = true
  · rw [if_pos hin] at h ⊢
    cases h
    exact ⟨rfl, rfl⟩
  · rw [if_neg hin] at h ⊢
    by_cases hdup : duplicate ibh r = true
    · rw [if_pos hdup] at h ⊢
      unfold processDuplicate at h ⊢
      by_cases hread : ibh.opCode = RC_RDMA_READ_REQUEST
      · -- a duplicate that is read again
        rw [if_pos hread] at h ⊢
        cases h
        exact ⟨rfl, by simp [hread]⟩
      · rw [if_neg hread] at h
        cases hw : checkIfWrite ibh.opCode <;> simp [hw] at h
    · rw [if_neg hdup] at h
      unfold processInvalid at h
      cases hack : decide (ibh.opCode ≠ RC_ACK) <;> simp_all

/-! ## State `DATA` -/

/-- The opcodes whose packets are announced to the processes behind `drop_ooo_ibh`. -/
def announces (opCode : IbOpCode) : Bool := opCode ≠ RC_ACK && opCode ≠ RC_RDMA_READ_REQUEST

/-- A call that leaves `DATA` announces the packet once, or not at all. -/
theorem data_announces {s : RxExhFsm} {out : RxExhFsmOut} (h : s.data = some out) :
    out.rxPkgShiftTypeFifo.length = (if announces s.metaReg.opCode then 1 else 0) ∧
      out.rxPkgSplitTypeFifo.length = if announces s.metaReg.opCode then 1 else 0 := by
  have hread : s.readRequest.rxPkgShiftTypeFifo = [] ∧ s.readRequest.rxPkgSplitTypeFifo = [] := by
    unfold RxExhFsm.readRequest
    split <;> exact ⟨rfl, rfl⟩
  unfold RxExhFsm.data RxExhFsm.rdmaWriteFirst at h
  split at h <;> (try split at h) <;> cases h <;>
    simp_all [announces, RxExhFsm.send, RxExhFsm.rdmaWrite, RxExhFsm.rdmaWriteNext, RxExhFsm.readResp]

theorem data_isSome (s : RxExhFsm) :
    s.data.isSome = match s.metaReg.opCode with
      | RC_RDMA_WRITE_FIRST | RC_RDMA_WRITE_ONLY => decide (getLength s.exHeader ≠ 0)
      | RC_SEND_LAST_WITH_IMD | RC_SEND_ONLY_WITH_IMD | RC_RDMA_WRITE_LAST_WITH_IMD
      | RC_RDMA_WRITE_ONLY_WIT_IMD | UNKNOWN _ => false
      | _ => true := by
  unfold RxExhFsm.data RxExhFsm.rdmaWriteFirst
  cases s.metaReg.opCode <;> simp <;> split <;> simp_all

-- A call in state `DATA`.
theorem rxExhFsm_data {s : RxExhFsm} (h : s.peFsmState = .DATA) (i : RxExhFsmIn) :
    rxExhFsm s i = match s.data with
      | some out => ({ s with peFsmState := .META }, i, out)
      | none => (s, i, {}) := by
  cases hd : s.data <;> simp only [rxExhFsm, h, hd]

/-- A packet is served exactly when it leaves `DATA` and is announced just if payload of it follows. -/
theorem served_iff {s : RxExhFsm} (h : s.peFsmState = .DATA) (i : RxExhFsmIn)
    (payload : List (NetAxis (BitVec W))) :
    Served s i payload ↔ s.data.isSome = true ∧ (announces s.metaReg.opCode = true ↔ payload ≠ []) := by
  have hcall := rxExhFsm_data h i
  cases hd : s.data with
  | none =>
    rw [hd] at hcall
    constructor
    · intro hs
      have hreturns := hs.returns
      rw [hcall, h] at hreturns
      cases hreturns
    · rintro ⟨hc, -⟩
      cases hc
  | some out =>
    rw [hd] at hcall
    have hlen := data_announces hd
    constructor
    · intro hs
      have hshifts := hs.shifts
      rw [hcall, hlen.1] at hshifts
      refine ⟨rfl, ?_⟩
      by_cases ha : announces s.metaReg.opCode = true <;> by_cases hp : payload = [] <;> simp_all
    · rintro ⟨-, hiff⟩
      have hcount : (if announces s.metaReg.opCode then 1 else 0) = if payload = [] then 0 else 1 := by
        by_cases hp : payload = []
        · rw [if_pos hp, if_neg (fun ha => hiff.mp ha hp)]
        · rw [if_neg hp, if_pos (hiff.mpr hp)]
      constructor
      · rw [hcall]
      · rw [hcall, hlen.1, hcount]
      · rw [hcall, hlen.2, hcount]

-- Only a RETH, or an acknowledgement, can leave a packet without payload.
theorem contributes_of (a : Arrival W) (hne : a.words ≠ []) (ha : announces a.ibh.opCode = true)
    (hfirst : a.ibh.opCode ≠ RC_RDMA_WRITE_FIRST) (honly : a.ibh.opCode ≠ RC_RDMA_WRITE_ONLY) :
    a.contributes = true := by
  have hpos : 0 < a.words.length := List.length_pos_iff.mpr hne
  have hskip : a.skip = 0 := by
    unfold Arrival.skip
    revert ha hfirst honly
    cases a.ibh.opCode <;> simp [announces, headerState, checkIfAethHeader, checkIfRethHeader]
  simp [Arrival.contributes, hskip, hpos]

/-- A packet that `rx_ibh_fsm` forwards is served exactly when `rx_exh_fsm` has a case for its opcode, and a
write with a RETH has a length other than zero and payload behind the RETH. -/
theorem rx_exh_progress (a : Arrival W) (hW : AETH_SIZE ≤ W) (hne : a.words ≠ []) (p : RxProcessExh W)
    (hp : ExhIdle p) (e : ExhMeta) (r : RxStateRsp) (s : RxExhFsm) (i : RxExhFsmIn)
    (hforward : (process a.ibh e (checkIfResponse a.ibh.opCode) r).metaOut = [s.metaReg])
    (hheader : a.exHeaders p = [s.exHeader]) (hdata : s.peFsmState = .DATA) :
    Served s i (a.letThrough p (process a.ibh e (checkIfResponse a.ibh.opCode) r).ibhDropFifo) ↔
      completes a p = true := by
  obtain ⟨hop, hverdicts⟩ := forwarded_verdicts hforward
  rw [served_iff hdata, hverdicts, data_isSome, hop]
  have hlet : (a.letThrough p (if a.ibh.opCode ≠ RC_ACK ∧ a.ibh.opCode ≠ RC_RDMA_READ_REQUEST
      then [false] else [])) ≠ [] ↔ announces a.ibh.opCode = true ∧ a.contributes = true := by
    by_cases ha : a.ibh.opCode ≠ RC_ACK ∧ a.ibh.opCode ≠ RC_RDMA_READ_REQUEST
    · rw [if_pos ha, letThrough_keep a hW hne hp, Ne, payload_eq_nil_iff]
      simp [announces, ha]
    · have hann : announces a.ibh.opCode = false := by
        simp only [announces, Bool.and_eq_false_iff]
        by_cases hack : a.ibh.opCode = RC_ACK <;> simp_all
      rw [if_neg ha, letThrough_unjudged, hann]
      simp
  rw [hlet]
  have hcontributes := contributes_of a hne
  unfold completes
  rw [hheader]
  cases hcode : a.ibh.opCode <;> rw [hcode] at hcontributes <;> simp_all [announces]

/-! ## Two packets -/

/-- A write of one packet; the words behind the base header are one RETH with the given length field. -/
def oneWrite (length : BitVec 32) : Arrival 512 :=
  { no := 0, ibh := ⟨RC_RDMA_WRITE_ONLY, 0, 3, 10, true, 1⟩
    words := [(reverse32 length).setWidth 512 <<< 96] }

/-- `rx_exh_fsm` has read both headers of the packet. -/
def atData (a : Arrival 512) (length : BitVec 32) : RxExhFsm :=
  { peFsmState := .DATA, metaReg := a.ibh.forward, exHeader := (reverse32 length).setWidth 128 <<< 96
    udpLength := 104 }

/-- The queue pair expects the packet. -/
def expecting : RxStateRsp := { epsn := 10, oldestOutstandingPsn := 0, maxForward := 0, retryCounter := 7 }

theorem exhIdle_init : ExhIdle (W := 512) {} :=
  ⟨rfl, headerAt_clear (by decide) {}, headerAt_clear (by decide) {}⟩

theorem rx_exh_progress_write : Served (atData (oneWrite 64) 64) {}
    ((oneWrite 64).letThrough {} (process (oneWrite 64).ibh ⟨false, 1⟩ false expecting).ibhDropFifo) :=
  (rx_exh_progress (oneWrite 64) (by decide) (by decide) {} exhIdle_init ⟨false, 1⟩ expecting
    (atData (oneWrite 64) 64) {} (by decide) (by decide +kernel) rfl).mpr (by decide +kernel)

/-- A write of zero bytes is accepted and forwarded, and `rx_exh_fsm` never leaves `DATA`. -/
theorem rx_exh_stuck :
    (process (oneWrite 0).ibh ⟨false, 1⟩ false expecting).metaOut = [(atData (oneWrite 0) 0).metaReg] ∧
      (oneWrite 0).exHeaders {} = [(atData (oneWrite 0) 0).exHeader] ∧
      ¬ Served (atData (oneWrite 0) 0) {}
        ((oneWrite 0).letThrough {} (process (oneWrite 0).ibh ⟨false, 1⟩ false expecting).ibhDropFifo) := by
  refine ⟨by decide, by decide +kernel, ?_⟩
  intro h
  have hreturns := h.returns
  revert hreturns
  decide +kernel

end FpgaNetworkStack.Roce
