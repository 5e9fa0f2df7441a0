import FpgaNetworkStack.Lib.Reach
import FpgaNetworkStack.Toe.RxEngine

/-!
# Alignment of drop verdicts and payloads

`rxMetadataHandler` and `rxTcpFSM` put one drop bit for a segment with payload into `dropFifo1` and
`dropFifo2`, and `rxPackageDropper` matches them with the payload words by position only.  Here the
three processes run as a network in which every FIFO element remembers the segment it stems from.
-/

namespace FpgaNetworkStack.Toe

open Lib

/-! ## Verdicts of one transition -/

section Transition

variable (b : Build)

/-- The cases of `rxTcpFSM` that leave a payload without a verdict: every flag combination without a
payload branch, and the segment that starts at the gap and reaches past its end. -/
def missingVerdict (m : RxFsmMetaData) (tcpState : SessionState) (rxSar : RxSarEntry b) : Bool :=
  match controlBits m.metaData with
  | .ack => ackState tcpState && !b.rxDdrBypass && !afterHead b m rxSar && afterRecvd b m rxSar &&
      decide (rxSar.offset.toNat < segmentEndWide m)
  | .fin => false
  | .syn | .synAck | .other => true

variable {b}

theorem ackPayloadDdr_verdicts (m : RxFsmMetaData) (rxSar : RxSarEntry b) :
    (ackPayloadDdr b m rxSar).dropDataFifoOut.length =
      if !afterHead b m rxSar && afterRecvd b m rxSar &&
        decide (rxSar.offset.toNat < segmentEndWide m) then 0 else 1 := by
  have hgap : afterRecvd b m rxSar = true →
      inOrder b m rxSar = false ∧ outOfOrder b m rxSar = false := by
    intro h
    simp only [afterRecvd, Bool.and_eq_true] at h
    simp [inOrder, outOfOrder, h.1]
  unfold ackPayloadDdr
  cases ha : afterRecvd b m rxSar with
  | false => split_ifs <;> simp_all [keepPayload]
  | true =>
    obtain ⟨hin, hout⟩ := hgap ha
    simp only [hin, hout, Bool.false_eq_true, if_false, if_true, Bool.and_true]
    cases hh : afterHead b m rxSar with
    | true => simp [keepPayload]
    | false =>
      rcases Nat.lt_trichotomy (segmentEndWide m) rxSar.offset.toNat with h | h | h
      · rw [if_neg (by simp), if_neg (by omega), if_pos h]
        simp [keepPayload, Nat.le_of_lt h]
      · rw [if_neg (by simp), if_pos h]
        simp [keepPayload, h]
      · rw [if_neg (by simp), if_neg (by omega), if_neg (by omega)]
        simp [h]

/-- A transition gives a payload one verdict, except in the cases of `missingVerdict`, and a segment
without payload none. -/
theorem transition_verdicts (e : RxTcpFsmEnv b) (m : RxFsmMetaData) (tcpState : SessionState)
    (rxSar : RxSarEntry b) (txSar : RxTxSarReply b) :
    (transition b e m tcpState rxSar txSar).dropDataFifoOut.length =
      if m.metaData.length = 0 ∨ missingVerdict b m tcpState rxSar = true then 0 else 1 := by
  unfold transition missingVerdict
  cases hc : controlBits m.metaData with
  | ack =>
    simp only [transitionAck]
    cases hs : ackState tcpState with
    | false =>
      simp only [Bool.false_eq_true, if_false, Bool.false_and, or_false]
      split <;> rfl
    | true =>
      simp only [if_true, ackPayload]
      by_cases hl : m.metaData.length = 0
      · simp [hl]
      · cases hb : b.rxDdrBypass with
        | true =>
          simp only [hl, if_true, if_false, ackPayloadBypass]
          split <;> simp [keepPayload]
        | false =>
          simp only [hl, if_false, Bool.false_eq_true, ackPayloadDdr_verdicts]
          simp
  | syn =>
    simp only [transitionSyn]
    split_ifs <;> simp_all [synInit]
  | synAck =>
    simp only [transitionSynAck]
    split_ifs <;> simp_all [synInit]
  | fin =>
    simp only [transitionFin, finPayload]
    by_cases hl : m.metaData.length = 0
    · split_ifs <;> simp_all
    · split_ifs <;> simp_all
  | other =>
    simp only [transitionOther]
    split_ifs <;> simp_all

end Transition

/-! ## The network -/

variable {W : Type}

/-- A received segment as it reaches the two processes: header fields, the answer of the port table,
its tuple and its payload words.  `no` is the number of segments received before it. -/
structure Arrival (W : Type) where
  no : Nat
  metaData : RxEngineMetaData
  portIsOpen : Bool
  tuple : FourTuple
  payload : List W

def Arrival.hasPayload (a : Arrival W) : Bool := decide (a.metaData.length ≠ 0)

/-- The payload as stream words, each with the number of its segment. -/
def packet (no : Nat) : List W → List (NetAxis (Nat × W))
  | [] => []
  | [w] => [⟨(no, w), true⟩]
  | w :: ws => ⟨(no, w), false⟩ :: packet no ws

def Arrival.packet (a : Arrival W) : List (NetAxis (Nat × W)) := Toe.packet a.no a.payload

/-- A verdict with the segment it was written for. -/
structure Verdict where
  no : Nat
  drop : Bool
  deriving DecidableEq

/-- A payload word leaving the dropper: the verdicts it was handled under, the segment it belongs to
and whether it was forwarded. -/
structure Applied where
  verdicts : List Verdict
  no : Nat
  forwarded : Bool
  deriving DecidableEq

/-- The three processes and their FIFOs.  An element of a FIFO carries the segment it stems from; a
process sees the elements without it. -/
structure DropNet (b : Build) (W : Type) where
  mh : RxMetadataHandler
  /-- The segments whose entries are in `metaDataFifo`, `portTable2rxEngRsp` and `tupleBuffer`. -/
  metaFifo : List (Arrival W)
  mhSegment : Option (Arrival W)
  lookups : List SessionLookupReply
  fsm : RxTcpFsm
  fsmFifo : List (Arrival W × RxFsmMetaData)
  fsmSegment : Option (Arrival W)
  states : List SessionState
  rxSars : List (RxSarEntry b)
  txSars : List (RxTxSarReply b)
  tpf : TpfStateType
  dataFifo : List (NetAxis (Nat × W))
  drop1 : List Verdict
  drop2 : List Verdict
  /-- The verdicts read since the dropper was last in `READ_DROP1`. -/
  held : List Verdict
  arrived : List (Arrival W)
  verdicts1 : List Verdict
  verdicts2 : List Verdict
  applied : List Applied

def DropNet.init (b : Build) (W : Type) : DropNet b W :=
  ⟨.init, [], none, [], .init, [], none, [], [], [], .READ_DROP1, [], [], [], [], [], [], [], []⟩

/-- The environment delivers segments and replies of the tables, in any order and with any values;
`mh`, `fsm` and `dropper` are calls of the processes. -/
inductive DropLabel (b : Build) (W : Type) where
  | arrive (metaData : RxEngineMetaData) (portIsOpen : Bool) (tuple : FourTuple) (payload : List W)
  | lookup (r : SessionLookupReply)
  | stateRsp (v : SessionState)
  | rxSarRsp (r : RxSarEntry b)
  | txSarRsp (r : RxTxSarReply b)
  | mh
  | fsm (e : RxTcpFsmEnv b)
  | dropper

/-- How many elements a call took from the front of a FIFO. -/
def popped {α β : Type} (before : List α) (after : List β) : Nat := before.length - after.length

variable {b : Build}

def DropNet.mhIn (t : DropNet b W) : RxMetadataHandlerIn :=
  ⟨t.metaFifo.map (·.metaData), t.lookups, t.metaFifo.map (·.portIsOpen), t.metaFifo.map (·.tuple)⟩

def DropNet.fsmIn (t : DropNet b W) : RxTcpFsmIn b :=
  ⟨t.fsmFifo.map (·.2), t.states, t.rxSars, t.txSars⟩

def DropNet.tpfIn (t : DropNet b W) : RxPackageDropperIn (Nat × W) :=
  ⟨t.dataFifo, t.drop1.map (·.drop), t.drop2.map (·.drop)⟩

def verdictsFor (segment : Option (Arrival W)) (drops : List Bool) : List Verdict :=
  match segment with
  | none => []
  | some a => drops.map (⟨a.no, ·⟩)

def DropNet.callMh (t : DropNet b W) : DropNet b W :=
  let (mh, i, out) := rxMetadataHandler b t.mh t.mhIn
  let n := popped t.metaFifo i.metaDataFifoIn
  let segment := (t.metaFifo.take n).getLast?.or t.mhSegment
  let verdicts := verdictsFor segment out.dropDataFifoOut
  { t with
    mh, metaFifo := t.metaFifo.drop n, mhSegment := segment, lookups := i.sLookup2rxEngRsp
    fsmFifo := t.fsmFifo ++
      out.fsmMetaDataFifo.flatMap (fun m => segment.toList.map fun a => (a, m))
    drop1 := t.drop1 ++ verdicts, verdicts1 := t.verdicts1 ++ verdicts }

def DropNet.callFsm (t : DropNet b W) (e : RxTcpFsmEnv b) : DropNet b W :=
  let (fsm, i, out) := rxTcpFSM b e t.fsm t.fsmIn
  let n := popped t.fsmFifo i.fsmMetaDataFifo
  let segment := ((t.fsmFifo.take n).getLast?.map (·.1)).or t.fsmSegment
  let verdicts := verdictsFor segment out.dropDataFifoOut
  { t with
    fsm, fsmFifo := t.fsmFifo.drop n, fsmSegment := segment
    states := i.stateTable2rxEngUpdRsp, rxSars := i.rxSar2rxEngUpdRsp, txSars := i.txSar2rxEngUpdRsp
    drop2 := t.drop2 ++ verdicts, verdicts2 := t.verdicts2 ++ verdicts }

def DropNet.callDropper (t : DropNet b W) : DropNet b W :=
  let (tpf, i, out) := rxPackageDropper t.tpf t.tpfIn
  let n := popped t.dataFifo i.dataIn
  let n1 := popped t.drop1 i.dropFifoIn1
  let n2 := popped t.drop2 i.dropFifoIn2
  let held := t.held ++ t.drop1.take n1 ++ t.drop2.take n2
  { t with
    tpf, dataFifo := t.dataFifo.drop n, drop1 := t.drop1.drop n1, drop2 := t.drop2.drop n2
    held := if tpf = .READ_DROP1 then [] else held
    applied := t.applied ++ (t.dataFifo.take n).map fun w => ⟨held, w.data.1, !out.isEmpty⟩ }

def DropNet.step (t : DropNet b W) : DropLabel b W → Option (DropNet b W)
  | .arrive metaData portIsOpen tuple payload =>
    let a : Arrival W := ⟨t.arrived.length, metaData, portIsOpen, tuple, payload⟩
    if payload.isEmpty = decide (metaData.length = 0) then
      some { t with
        metaFifo := t.metaFifo ++ [a], dataFifo := t.dataFifo ++ a.packet
        arrived := t.arrived ++ [a] }
    else none
  | .lookup r => some { t with lookups := t.lookups ++ [r] }
  | .stateRsp v => some { t with states := t.states ++ [v] }
  | .rxSarRsp r => some { t with rxSars := t.rxSars ++ [r] }
  | .txSarRsp r => some { t with txSars := t.txSars ++ [r] }
  | .mh => some t.callMh
  | .fsm e => some (t.callFsm e)
  | .dropper => some t.callDropper

def payloads (l : List (Arrival W)) : List Nat := (l.filter (·.hasPayload)).map (·.no)

/-- Numbers of the segments whose verdict is "keep". -/
def kept (l : List Verdict) : List Nat := (l.filter (!·.drop)).map (·.no)

/-- Segments the handler has not finished, oldest first. -/
def DropNet.mhPending (t : DropNet b W) : List (Arrival W) :=
  match t.mh.mhState with
  | .META => t.metaFifo
  | .LOOKUP => t.mhSegment.toList ++ t.metaFifo

/-- Segments the state machine has not finished, oldest first. -/
def DropNet.fsmPending (t : DropNet b W) : List (Arrival W) :=
  match t.fsm.fsmState with
  | .LOAD => t.fsmFifo.map (·.1)
  | .TRANSITION => t.fsmSegment.toList ++ t.fsmFifo.map (·.1)

/-- The call of the state machine, if `a` is one, does not finish a payload without a verdict. -/
def DropNet.givesVerdict (t : DropNet b W) (a : DropLabel b W) : Bool :=
  match a, t.fsm.fsmState, t.states, t.rxSars with
  | .fsm _, .TRANSITION, v :: _, r :: _ =>
    decide (t.fsm.fsmMeta.metaData.length = 0) || !missingVerdict b t.fsm.fsmMeta v r
  | _, _, _, _ => true

/-! ## Alignment -/

/-- All verdicts a word was handled under are those of its own segment, and it was handled as they
say. -/
def Applied.Own (w : Applied) : Prop :=
  if w.forwarded then w.verdicts = [⟨w.no, false⟩, ⟨w.no, false⟩]
  else w.verdicts = [⟨w.no, true⟩] ∨ w.verdicts = [⟨w.no, false⟩, ⟨w.no, true⟩]

structure Aligned (t : DropNet b W) : Prop where
  numbered : t.arrived.map (·.no) = List.range t.arrived.length
  /-- One verdict of the handler for each finished segment with payload, in order, none for the
  others. -/
  first : ∃ done, t.arrived = done ++ t.mhPending ∧ t.verdicts1.map (·.no) = payloads done
  /-- One verdict of the state machine for each of them that was kept, in order. -/
  second : kept t.verdicts1 = t.verdicts2.map (·.no) ++ payloads t.fsmPending
  applied : ∀ w ∈ t.applied, w.Own

/-- The segment whose first verdict the dropper has read while it waits for the second. -/
def waiting (tpf : TpfStateType) (held : List Verdict) : List Nat :=
  match tpf with
  | .READ_DROP2 => held.map (·.no)
  | _ => []

/-- State of the dropper: `words` are the words left of the packet it works on. -/
def Phase (tpf : TpfStateType) (held : List Verdict) (words : List (NetAxis (Nat × W))) : Prop :=
  match tpf with
  | .READ_DROP1 => held = [] ∧ words = []
  | .READ_DROP2 => (∃ n, held = [⟨n, false⟩]) ∧ words = []
  | .FWD => ∃ n ws, held = [⟨n, false⟩, ⟨n, false⟩] ∧ ws ≠ [] ∧ words = packet n ws
  | .DROP => ∃ n ws, (held = [⟨n, true⟩] ∨ held = [⟨n, false⟩, ⟨n, true⟩]) ∧ ws ≠ [] ∧
      words = packet n ws

/-- The dropper and its FIFOs, where `handler` and `fsm` are the payloads the other two processes have
not finished and `packets` those it has not begun. -/
structure DropperInv (tpf : TpfStateType) (held drop1 drop2 : List Verdict)
    (dataFifo words : List (NetAxis (Nat × W))) (handler fsm : List Nat)
    (packets : List (Arrival W)) : Prop where
  phase : Phase tpf held words
  data : dataFifo = words ++ packets.flatMap (·.packet)
  nonempty : ∀ a ∈ packets, a.payload ≠ []
  order1 : packets.map (·.no) = waiting tpf held ++ drop1.map (·.no) ++ handler
  order2 : waiting tpf held ++ kept drop1 = drop2.map (·.no) ++ fsm

structure DropInv (t : DropNet b W) : Prop where
  mhMeta : t.mh.mhState = .LOOKUP → ∃ a, t.mhSegment = some a ∧ t.mh.mhMeta = a.metaData
  fsmMeta : t.fsm.fsmState = .TRANSITION →
    ∃ a, t.fsmSegment = some a ∧ t.fsm.fsmMeta.metaData = a.metaData
  fsmFifo : ∀ p ∈ t.fsmFifo, p.2.metaData = p.1.metaData
  aligned : Aligned t
  dropper : ∃ words packets, DropperInv t.tpf t.held t.drop1 t.drop2 t.dataFifo words
    (payloads t.mhPending) (payloads t.fsmPending) packets

@[simp] theorem payloads_append (l l' : List (Arrival W)) :
    payloads (l ++ l') = payloads l ++ payloads l' := by
  simp [payloads]

@[simp] theorem payloads_nil : payloads ([] : List (Arrival W)) = [] := rfl

theorem payloads_cons (a : Arrival W) (l : List (Arrival W)) :
    payloads (a :: l) = (if a.hasPayload then [a.no] else []) ++ payloads l := by
  cases h : a.hasPayload <;> simp [payloads, h]

@[simp] theorem kept_append (l l' : List Verdict) : kept (l ++ l') = kept l ++ kept l' := by
  simp [kept]

@[simp] theorem kept_nil : kept [] = [] := rfl

theorem kept_cons (v : Verdict) (l : List Verdict) :
    kept (v :: l) = (if v.drop then [] else [v.no]) ++ kept l := by
  cases h : v.drop <;> simp [kept, h]

/-! ## One call -/

@[simp] theorem verdictsFor_some (a : Arrival W) (drops : List Bool) :
    verdictsFor (some a) drops = drops.map (⟨a.no, ·⟩) := rfl

@[simp] theorem verdictsFor_nil (s : Option (Arrival W)) : verdictsFor s [] = [] := by
  cases s <;> rfl

/-- What the handler does with the segment it finishes. -/
def DropNet.finish (t : DropNet b W) (mh : RxMetadataHandler) (lookups : List SessionLookupReply)
    (rest : List (Arrival W)) (a : Arrival W) (drop : Bool) (m : RxFsmMetaData) : DropNet b W :=
  let verdicts : List Verdict := if a.hasPayload then [⟨a.no, drop⟩] else []
  { t with
    mh, lookups, metaFifo := rest, mhSegment := some a
    fsmFifo := t.fsmFifo ++ (if drop then [] else [(a, m)])
    drop1 := t.drop1 ++ verdicts, verdicts1 := t.verdicts1 ++ verdicts }

@[simp] theorem map_hasPayload (a : Arrival W) (drop : Bool) :
    (if a.metaData.length = 0#16 then [] else [drop]).map (fun d => Verdict.mk a.no d) =
      if a.hasPayload then [⟨a.no, drop⟩] else [] := by
  unfold Arrival.hasPayload
  split
  · next h => simp [h]
  · next h => simp [h]

variable {t u : DropNet b W} {a : Arrival W}

theorem callMh_closed {rest : List (Arrival W)}
    (hs : t.mh.mhState = .META) (hf : t.metaFifo = a :: rest) (hp : a.portIsOpen = false)
    (m : RxFsmMetaData) :
    ∃ mh, mh.mhState = .META ∧ t.callMh = t.finish mh t.lookups rest a true m := by
  refine ⟨⟨a.metaData, .META, reverse32 a.tuple.srcIp, reverse16 a.tuple.dstPort,
    reverse16 a.tuple.srcPort⟩, rfl, ?_⟩
  simp only [DropNet.callMh, rxMetadataHandler, hs, DropNet.mhIn, hf, List.map_cons, hp, popped,
    DropNet.finish, List.length_cons]
  simp

theorem callMh_lookup {r : SessionLookupReply}
    {rs : List SessionLookupReply} (hs : t.mh.mhState = .LOOKUP) (hl : t.lookups = r :: rs)
    (ha : t.mhSegment = some a) (hm : t.mh.mhMeta = a.metaData) :
    ∃ m, m.metaData = a.metaData ∧
      t.callMh = t.finish { t.mh with mhState := .META } rs t.metaFifo a (!r.hit) m := by
  refine ⟨⟨r.sessionID, t.mh.mhSrcIpAddress, t.mh.mhDstIpPort, a.metaData, t.mh.mhSrcIpPort⟩, rfl, ?_⟩
  simp only [DropNet.callMh, rxMetadataHandler, hs, DropNet.mhIn, hl, popped, DropNet.finish,
    List.length_map, ha, hm]
  cases r.hit <;> simp

theorem inv_finish (h : DropInv t) {mh : RxMetadataHandler}
    {lookups : List SessionLookupReply} {rest : List (Arrival W)} {drop : Bool}
    {m : RxFsmMetaData} (hp : t.mhPending = a :: rest) (hmh : mh.mhState = .META)
    (hm : m.metaData = a.metaData) : DropInv (t.finish mh lookups rest a drop m) := by
  obtain ⟨-, hfsm, hfifo, ⟨hnum, ⟨done, harr, hv1⟩, hsecond, happ⟩, words, packets, hdrop⟩ := h
  have hmhP : (t.finish mh lookups rest a drop m).mhPending = rest := by
    simp [DropNet.mhPending, DropNet.finish, hmh]
  have hfsmP : (t.finish mh lookups rest a drop m).fsmPending =
      t.fsmPending ++ if drop then [] else [a] := by
    cases drop <;> cases hst : t.fsm.fsmState <;> simp [DropNet.fsmPending, DropNet.finish, hst]
  -- the verdict keeps the segment exactly when it enters the FIFO of the state machine
  have hkept : kept (if a.hasPayload then [⟨a.no, drop⟩] else []) =
      payloads (if drop then [] else [a]) := by
    cases drop <;> cases hpay : a.hasPayload <;> simp [kept, payloads, hpay]
  have hnos : (if a.hasPayload then [(⟨a.no, drop⟩ : Verdict)] else []).map (·.no) = payloads [a] := by
    cases hpay : a.hasPayload <;> simp [payloads, hpay]
  refine ⟨?_, hfsm, ?_, ⟨hnum, ⟨done ++ [a], ?_, ?_⟩, ?_, happ⟩, words, packets, ?_⟩
  · simp [DropNet.finish, hmh]
  · intro p hp'
    rcases List.mem_append.mp hp' with hp' | hp'
    · exact hfifo p hp'
    · cases drop <;> simp_all
  · rw [hmhP]
    simp [DropNet.finish, harr, hp]
  · simp only [DropNet.finish, List.map_append, hnos, hv1, payloads_append]
  · rw [hfsmP]
    simp only [DropNet.finish, kept_append, payloads_append, hkept, hsecond, List.append_assoc]
  · obtain ⟨hphase, hdata, hne, ho1, ho2⟩ := hdrop
    refine ⟨hphase, hdata, hne, ?_, ?_⟩
    · rw [hmhP]
      rw [hp, show a :: rest = [a] ++ rest from rfl, payloads_append, ← hnos] at ho1
      simpa [DropNet.finish] using ho1
    · rw [hfsmP]
      simp only [DropNet.finish, kept_append, payloads_append, hkept]
      rw [← List.append_assoc, ← List.append_assoc, ← ho2]

theorem inv_mh (h : DropInv t) : DropInv t.callMh := by
  cases hs : t.mh.mhState with
  | META =>
    cases hf : t.metaFifo with
    | nil =>
      have hidle : t.callMh = t := by
        simp [DropNet.callMh, rxMetadataHandler, hs, DropNet.mhIn, hf, popped]
        simp [← hf]
      rwa [hidle]
    | cons a rest =>
      have hp : t.mhPending = a :: rest := by simp [DropNet.mhPending, hs, hf]
      cases hopen : a.portIsOpen with
      | false =>
        obtain ⟨mh, hmh, hcall⟩ :=
          callMh_closed hs hf hopen ⟨0, 0, 0, a.metaData, 0⟩
        rw [hcall]
        exact inv_finish h hp hmh rfl
      | true =>
        -- the segment moves from the FIFO into the handler
        have hcall : t.callMh = { t with
            mh := ⟨a.metaData, .LOOKUP, reverse32 a.tuple.srcIp, reverse16 a.tuple.dstPort,
              reverse16 a.tuple.srcPort⟩
            metaFifo := rest, mhSegment := some a } := by
          simp [DropNet.callMh, rxMetadataHandler, hs, DropNet.mhIn, hf, popped, hopen]
        have hpend : t.callMh.mhPending = t.mhPending := by
          rw [hcall, hp]
          simp [DropNet.mhPending]
        obtain ⟨-, hfsm, hfifo, ⟨hnum, hfirst, hsecond, happ⟩, words, packets, hd⟩ := h
        obtain ⟨hphase, hdata, hne, ho1, ho2⟩ := hd
        rw [← hpend] at hfirst ho1
        rw [hcall] at hfirst ho1 ⊢
        exact ⟨fun _ => ⟨a, rfl, rfl⟩, hfsm, hfifo, ⟨hnum, hfirst, hsecond, happ⟩, words, packets,
          ⟨hphase, hdata, hne, ho1, ho2⟩⟩
  | LOOKUP =>
    obtain ⟨a, ha, hm⟩ := h.mhMeta hs
    cases hl : t.lookups with
    | nil =>
      have hidle : t.callMh = t := by
        simp [DropNet.callMh, rxMetadataHandler, hs, DropNet.mhIn, hl, popped]
        simp [← hl]
      rwa [hidle]
    | cons r rs =>
      obtain ⟨m, hmd, hcall⟩ := callMh_lookup hs hl ha hm
      rw [hcall]
      exact inv_finish h (by simp [DropNet.mhPending, hs, ha]) rfl hmd

theorem inv_fsm_load (h : DropInv t) (e : RxTcpFsmEnv b)
    (hs : t.fsm.fsmState = .LOAD) : DropInv (t.callFsm e) := by
  cases hf : t.fsmFifo with
  | nil =>
    have hidle : t.callFsm e = t := by
      simp [DropNet.callFsm, rxTcpFSM, hs, DropNet.fsmIn, hf, popped]
      simp [← hf]
    rwa [hidle]
  | cons p rest =>
    have hcall : t.callFsm e = { t with
        fsm := ⟨.TRANSITION, p.2, t.fsm.fsmTxSarRequest || p.2.metaData.ack⟩
        fsmFifo := rest, fsmSegment := some p.1 } := by
      simp [DropNet.callFsm, rxTcpFSM, hs, DropNet.fsmIn, hf, popped, loadRequests]
    have hpend : (t.callFsm e).fsmPending = t.fsmPending := by
      rw [hcall]
      simp [DropNet.fsmPending, hs, hf]
    obtain ⟨hmh, -, hfifo, ⟨hnum, hfirst, hsecond, happ⟩, words, packets, hd⟩ := h
    obtain ⟨hphase, hdata, hne, ho1, ho2⟩ := hd
    rw [← hpend] at hsecond ho2
    rw [hcall] at hsecond ho2 ⊢
    rw [hf] at hfifo
    refine ⟨hmh, fun _ => ⟨p.1, rfl, ?_⟩, ?_, ⟨hnum, hfirst, hsecond, happ⟩, words, packets,
      ⟨hphase, hdata, hne, ho1, ho2⟩⟩
    · exact hfifo p (List.mem_cons_self ..)
    · intro q hq
      exact hfifo q (List.mem_cons_of_mem _ hq)

/-- The state machine finishes its segment with `drops.length` verdicts. -/
theorem inv_fsm_finish (h : DropInv t) {drops : List Bool}
    {fsm : RxTcpFsm} {states : List SessionState} {rxSars : List (RxSarEntry b)}
    {txSars : List (RxTxSarReply b)} (hs : t.fsm.fsmState = .TRANSITION)
    (ha : t.fsmSegment = some a) (hfsm : fsm.fsmState = .LOAD)
    (hdrops : drops.length = if a.hasPayload then 1 else 0)
    (hu : u = { t with
      fsm, states, rxSars, txSars
      drop2 := t.drop2 ++ drops.map (⟨a.no, ·⟩), verdicts2 := t.verdicts2 ++ drops.map (⟨a.no, ·⟩) }) :
    DropInv u := by
  have hpend : payloads t.fsmPending = drops.map (fun _ => a.no) ++ payloads u.fsmPending := by
    have hone : payloads [a] = drops.map (fun _ => a.no) := by
      cases hp : a.hasPayload with
      | true =>
        rw [hp, if_pos rfl] at hdrops
        obtain ⟨d, rfl⟩ := List.length_eq_one_iff.mp hdrops
        simp [payloads, hp]
      | false =>
        rw [hp, if_neg (by simp)] at hdrops
        rw [List.eq_nil_of_length_eq_zero hdrops]
        simp [payloads, hp]
    rw [← hone, hu]
    simp only [DropNet.fsmPending, hs, ha, hfsm, payloads_append, Option.toList_some]
  obtain ⟨hmh, -, hfifo, ⟨hnum, hfirst, hsecond, happ⟩, words, packets, hd⟩ := h
  obtain ⟨hphase, hdata, hne, ho1, ho2⟩ := hd
  rw [hpend] at hsecond ho2
  subst hu
  refine ⟨hmh, fun hT => ?_, hfifo, ⟨hnum, hfirst, ?_, happ⟩, words, packets,
    ⟨hphase, hdata, hne, ho1, ?_⟩⟩
  · rw [hfsm] at hT
    cases hT
  · simpa [Function.comp_def] using hsecond
  · simpa [Function.comp_def] using ho2

theorem inv_fsm (h : DropInv t) (e : RxTcpFsmEnv b)
    (hok : t.givesVerdict (.fsm e) = true) : DropInv (t.callFsm e) := by
  cases hs : t.fsm.fsmState with
  | LOAD => exact inv_fsm_load h e hs
  | TRANSITION =>
    obtain ⟨a, ha, hm⟩ := h.fsmMeta hs
    have idle (hc : rxTcpFSM b e t.fsm t.fsmIn = (t.fsm, t.fsmIn, {})) : DropInv (t.callFsm e) := by
      have : t.callFsm e = t := by
        simp only [DropNet.callFsm, hc]
        simp [popped, DropNet.fsmIn]
      rwa [this]
    cases hst : t.states with
    | nil => exact idle (by simp [rxTcpFSM, hs, DropNet.fsmIn, hst])
    | cons v states =>
      cases hrx : t.rxSars with
      | nil => exact idle (by simp [rxTcpFSM, hs, DropNet.fsmIn, hst, hrx])
      | cons r rxSars =>
        cases hr : t.fsm.fsmTxSarRequest && t.txSars.isEmpty with
        | true => exact idle (by simp [rxTcpFSM, hs, DropNet.fsmIn, hst, hrx, hr])
        | false =>
          simp only [DropNet.givesVerdict, hs, hst, hrx, Bool.or_eq_true, decide_eq_true_eq,
            Bool.not_eq_true'] at hok
          generalize htx : takeTxSar b e t.fsm.fsmMeta.metaData t.txSars = tx
          have hcall : t.callFsm e = { t with
              fsm := ⟨.LOAD, t.fsm.fsmMeta, false⟩, states, rxSars, txSars := tx.2
              drop2 := t.drop2 ++
                (transition b e t.fsm.fsmMeta v r tx.1).dropDataFifoOut.map (⟨a.no, ·⟩)
              verdicts2 := t.verdicts2 ++
                (transition b e t.fsm.fsmMeta v r tx.1).dropDataFifoOut.map (⟨a.no, ·⟩) } := by
            simp [DropNet.callFsm, rxTcpFSM, hs, DropNet.fsmIn, hst, hrx, hr, htx, popped, ha]
          refine inv_fsm_finish h hs ha rfl ?_ hcall
          rw [transition_verdicts, hm]
          rw [hm] at hok
          rcases hok with hl | hmiss
          · simp [Arrival.hasPayload, hl]
          · by_cases hl : a.metaData.length = 0 <;> simp [Arrival.hasPayload, hl, hmiss]

theorem packet_cons (no : Nat) (ws : List W) (h : ws ≠ []) :
    ∃ w ws', packet no ws = ⟨(no, w), ws'.isEmpty⟩ :: packet no ws' := by
  cases ws with
  | nil => exact absurd rfl h
  | cons w ws =>
    refine ⟨w, ws, ?_⟩
    cases ws <;> rfl

/-- The dropper touches neither the segments in the other two processes nor the histories of their
verdicts. -/
theorem inv_dropper_frame (h : DropInv t) {tpf : TpfStateType}
    {dataFifo : List (NetAxis (Nat × W))} {drop1 drop2 held : List Verdict} {applied : List Applied}
    (happ : ∀ w ∈ applied, w.Own) (words : List (NetAxis (Nat × W))) (packets : List (Arrival W))
    (hd : DropperInv tpf held drop1 drop2 dataFifo words (payloads t.mhPending)
      (payloads t.fsmPending) packets) :
    DropInv { t with tpf, dataFifo, drop1, drop2, held, applied } :=
  ⟨h.mhMeta, h.fsmMeta, h.fsmFifo,
    ⟨h.aligned.numbered, h.aligned.first, h.aligned.second, happ⟩, words, packets, hd⟩

theorem inv_drop1 (h : DropInv t) (hs : t.tpf = .READ_DROP1) : DropInv t.callDropper := by
  obtain ⟨words, packets, hphase, hdata, hne, ho1, ho2⟩ := h.dropper
  simp only [hs, Phase] at hphase
  obtain ⟨hheld, rfl⟩ := hphase
  simp only [waiting, hs, List.nil_append] at ho1 ho2 hdata
  cases hv : t.drop1 with
  | nil =>
    have hidle : t.callDropper = t := by
      simp only [DropNet.callDropper, rxPackageDropper, hs, DropNet.tpfIn, hv, List.map_nil]
      cases t
      simp_all [popped]
    rwa [hidle]
  | cons v rest =>
    obtain ⟨n, drop⟩ := v
    have hcall : t.callDropper = { t with
        tpf := if drop then .DROP else .READ_DROP2, dataFifo := t.dataFifo, drop1 := rest
        drop2 := t.drop2, held := [⟨n, drop⟩], applied := t.applied } := by
      cases drop <;>
        simp [DropNet.callDropper, rxPackageDropper, hs, DropNet.tpfIn, hv, popped, hheld]
    rw [hv] at ho1 ho2
    rw [kept_cons] at ho2
    cases packets with
    | nil => simp at ho1
    | cons p ps =>
      obtain ⟨hp, hps⟩ : p.no = n ∧ ps.map (·.no) = rest.map (·.no) ++ payloads t.mhPending := by
        simpa using ho1
      rw [hcall]
      cases drop with
      | true =>
        refine inv_dropper_frame h h.aligned.applied p.packet ps ?_
        exact ⟨⟨n, p.payload, .inl rfl, hne p (List.mem_cons_self ..),
          congrArg (packet · p.payload) hp⟩, by simpa using hdata,
          fun a ha => hne a (List.mem_cons_of_mem _ ha), hps, ho2⟩
      | false =>
        refine inv_dropper_frame h h.aligned.applied [] (p :: ps) ?_
        exact ⟨⟨⟨n, rfl⟩, rfl⟩, hdata, hne, by simpa [waiting] using ho1, ho2⟩

theorem inv_drop2 (h : DropInv t) (hs : t.tpf = .READ_DROP2) : DropInv t.callDropper := by
  obtain ⟨words, packets, hphase, hdata, hne, ho1, ho2⟩ := h.dropper
  simp only [hs, Phase] at hphase
  obtain ⟨⟨n, hheld⟩, rfl⟩ := hphase
  simp only [waiting, hs, hheld, List.nil_append] at ho1 ho2 hdata
  cases hv : t.drop2 with
  | nil =>
    have hidle : t.callDropper = t := by
      simp only [DropNet.callDropper, rxPackageDropper, hs, DropNet.tpfIn, hv, List.map_nil]
      cases t
      simp_all [popped]
    rwa [hidle]
  | cons v rest =>
    obtain ⟨m, drop⟩ := v
    have hcall : t.callDropper = { t with
        tpf := if drop then .DROP else .FWD, dataFifo := t.dataFifo, drop1 := t.drop1
        drop2 := rest, held := [⟨n, false⟩, ⟨m, drop⟩], applied := t.applied } := by
      cases drop <;>
        simp [DropNet.callDropper, rxPackageDropper, hs, DropNet.tpfIn, hv, popped, hheld]
    rw [hv] at ho2
    -- the second verdict is the one the dropper waits for
    obtain ⟨rfl, hrest⟩ : n = m ∧ kept t.drop1 = rest.map (·.no) ++ payloads t.fsmPending := by
      simpa using ho2
    cases packets with
    | nil => simp at ho1
    | cons p ps =>
      obtain ⟨hp, hps⟩ : p.no = n ∧
          ps.map (·.no) = t.drop1.map (·.no) ++ payloads t.mhPending := by
        simpa using ho1
      rw [hcall]
      refine inv_dropper_frame h h.aligned.applied p.packet ps ?_
      have hne' : ∀ a ∈ ps, a.payload ≠ [] := fun a ha => hne a (List.mem_cons_of_mem _ ha)
      have hpacket : p.packet = packet n p.payload := congrArg (packet · p.payload) hp
      cases drop with
      | true =>
        exact ⟨⟨n, p.payload, .inr rfl, hne p (List.mem_cons_self ..), hpacket⟩,
          by simpa using hdata, hne', hps, hrest⟩
      | false =>
        exact ⟨⟨n, p.payload, rfl, hne p (List.mem_cons_self ..), hpacket⟩,
          by simpa using hdata, hne', hps, hrest⟩

theorem inv_word (h : DropInv t) (forwarded : Bool) {n : Nat} {ws : List W} {packets : List (Arrival W)}
    (hd : DropperInv t.tpf t.held t.drop1 t.drop2 t.dataFifo (packet n ws) (payloads t.mhPending)
      (payloads t.fsmPending) packets)
    (hw : ws ≠ []) (hs : t.tpf = if forwarded then .FWD else .DROP)
    (hown : Applied.Own ⟨t.held, n, forwarded⟩) : DropInv t.callDropper := by
  obtain ⟨hphase, hdata, hne, ho1, ho2⟩ := hd
  obtain ⟨w, ws', hpacket⟩ := packet_cons n ws hw
  rw [hpacket, List.cons_append] at hdata
  have hwait : waiting t.tpf t.held = [] := by cases forwarded <;> simp [waiting, hs]
  have hcall : t.callDropper = { t with
      tpf := if ws' = [] then .READ_DROP1 else t.tpf
      dataFifo := packet n ws' ++ packets.flatMap (·.packet)
      drop1 := t.drop1, drop2 := t.drop2
      held := if ws' = [] then [] else t.held
      applied := t.applied ++ [⟨t.held, n, forwarded⟩] } := by
    cases forwarded <;> cases ws' <;>
      simp [DropNet.callDropper, rxPackageDropper, hs, DropNet.tpfIn, hdata, popped]
  have happ : ∀ w ∈ t.applied ++ [⟨t.held, n, forwarded⟩], w.Own := by
    intro w hw
    rcases List.mem_append.mp hw with hw | hw
    · exact h.aligned.applied w hw
    · rw [List.mem_singleton.mp hw]
      exact hown
  rw [hcall]
  refine inv_dropper_frame h happ (packet n ws') packets ?_
  cases ws' with
  | nil =>
    rw [hwait] at ho1 ho2
    exact ⟨⟨rfl, rfl⟩, rfl, hne, ho1, ho2⟩
  | cons w' ws' =>
    simp only [List.cons_ne_nil, if_false]
    refine ⟨?_, rfl, hne, ho1, ho2⟩
    cases forwarded with
    | true =>
      simp only [Applied.Own, if_true] at hown
      simp only [hs, Phase, if_true]
      exact ⟨n, w' :: ws', hown, by simp, rfl⟩
    | false =>
      simp only [Applied.Own, Bool.false_eq_true, if_false] at hown
      simp only [hs, Phase, Bool.false_eq_true, if_false]
      exact ⟨n, w' :: ws', hown, by simp, rfl⟩

theorem inv_dropper (h : DropInv t) : DropInv t.callDropper := by
  cases hs : t.tpf with
  | READ_DROP1 => exact inv_drop1 h hs
  | READ_DROP2 => exact inv_drop2 h hs
  | FWD =>
    obtain ⟨words, packets, hd⟩ := h.dropper
    have hphase := hd.phase
    simp only [hs, Phase] at hphase
    obtain ⟨n, ws, hheld, hw, rfl⟩ := hphase
    exact inv_word h true hd hw hs (by simp [Applied.Own, hheld])
  | DROP =>
    obtain ⟨words, packets, hd⟩ := h.dropper
    have hphase := hd.phase
    simp only [hs, Phase] at hphase
    obtain ⟨n, ws, hheld, hw, rfl⟩ := hphase
    exact inv_word h false hd hw hs (by simp [Applied.Own, hheld])

/-! ## Runs -/

theorem inv_arrive (h : DropInv t) (hno : a.no = t.arrived.length)
    (hwf : a.payload.isEmpty = decide (a.metaData.length = 0)) :
    DropInv { t with
      metaFifo := t.metaFifo ++ [a], dataFifo := t.dataFifo ++ a.packet
      arrived := t.arrived ++ [a] } := by
  obtain ⟨hmh, hfsm, hfifo, ⟨hnum, ⟨done, harr, hv1⟩, hsecond, happ⟩, words, packets, hd⟩ := h
  obtain ⟨hphase, hdata, hne, ho1, ho2⟩ := hd
  have hpend : DropNet.mhPending { t with
      metaFifo := t.metaFifo ++ [a], dataFifo := t.dataFifo ++ a.packet
      arrived := t.arrived ++ [a] } = t.mhPending ++ [a] := by
    unfold DropNet.mhPending
    cases t.mh.mhState <;> simp
  refine ⟨hmh, hfsm, hfifo, ⟨?_, ⟨done, ?_, hv1⟩, hsecond, happ⟩, words,
    if a.hasPayload then packets ++ [a] else packets, ?_⟩
  · simp [hnum, hno, List.range_succ]
  · rw [hpend, ← List.append_assoc, ← harr]
  · rw [hpend, payloads_append, payloads_cons, payloads_nil, List.append_nil]
    cases hp : a.hasPayload with
    | true =>
      have hnonempty : a.payload ≠ [] := by
        simp only [Arrival.hasPayload, decide_eq_true_eq] at hp
        rw [decide_eq_false hp] at hwf
        intro hnil
        rw [hnil] at hwf
        cases hwf
      refine ⟨hphase, by simp [hdata], ?_, by simp [ho1], ho2⟩
      intro c hc
      rcases List.mem_append.mp hc with hc | hc
      · exact hne c hc
      · rwa [List.mem_singleton.mp hc]
    | false =>
      have hempty : a.packet = [] := by
        simp only [Arrival.hasPayload, decide_eq_false_iff_not, not_not] at hp
        rw [decide_eq_true hp, List.isEmpty_iff] at hwf
        simp [Arrival.packet, hwf, packet]
      exact ⟨hphase, by simp [hdata, hempty], hne, by simp [ho1], ho2⟩

theorem dropNet_inv_step {l : DropLabel b W} (h : DropInv t)
    (hok : t.givesVerdict l = true) (hs : t.step l = some u) : DropInv u := by
  cases l with
  | arrive metaData portIsOpen tuple payload =>
    simp only [DropNet.step] at hs
    split at hs
    · rename_i hwf
      cases hs
      exact inv_arrive (a := ⟨t.arrived.length, metaData, portIsOpen, tuple, payload⟩) h rfl hwf
    · cases hs
  | lookup r | stateRsp v | rxSarRsp r | txSarRsp r =>
    cases hs
    exact { h with aligned := ⟨h.aligned.numbered, h.aligned.first, h.aligned.second, h.aligned.applied⟩ }
  | mh =>
    cases hs
    exact inv_mh h
  | fsm e =>
    cases hs
    exact inv_fsm h e hok
  | dropper =>
    cases hs
    exact inv_dropper h

/-- As long as the state machine never finishes a payload in a case of `missingVerdict`, every
payload meets its own verdicts. -/
theorem verdicts_aligned (t : DropNet b W)
    (h : Reach DropNet.step (fun t l => t.givesVerdict l = true) (DropNet.init b W) t) : Aligned t := by
  have hinv : DropInv t := by
    refine h.invariant ?_ fun u l v hu hok hs => dropNet_inv_step hu hok hs
    refine ⟨by simp [DropNet.init, RxMetadataHandler.init], by simp [DropNet.init, RxTcpFsm.init],
      by simp [DropNet.init], ⟨rfl, ⟨[], rfl, rfl⟩, rfl, by simp [DropNet.init]⟩, [], [], ?_⟩
    exact ⟨⟨rfl, rfl⟩, rfl, by simp, rfl, rfl⟩
  exact hinv.aligned

section Runs

/-- An ACK segment with one payload word. -/
def gapSegment (seqNumb : BitVec 32) (length : BitVec 16) : DropLabel .sample Unit :=
  .arrive { (default : RxEngineMetaData) with ack := true, seqNumb, length } true default [()]

/-- The rx_sar entry of a session that misses bytes 100 to 109 and has bytes 110 to 119. -/
def gapEntry : RxSarEntry .sample :=
  { (default : RxSarEntry .sample) with recvd := 100, appd := 100, head := 120, offset := 110, gap := true }

/-- Lookup, both calls of the state machine and the replies of the tables for one segment. -/
def gapRound : List (DropLabel .sample Unit) :=
  [.mh, .lookup ⟨0, true⟩, .mh, .fsm ⟨default, 0, 0⟩, .stateRsp .ESTABLISHED, .rxSarRsp gapEntry,
    .txSarRsp default, .fsm ⟨default, 0, 0⟩]

/-- A segment that reaches past the gap, then one that fills it exactly. -/
def overlapRun : List (DropLabel .sample Unit) :=
  gapSegment 100 15 :: gapRound ++ gapSegment 100 10 :: gapRound ++ [.dropper, .dropper, .dropper]

-- The payload past the gap is forwarded under the verdict of the segment behind it.
theorem overlap_takes_foreign_verdict :
    ∃ t, run DropNet.step (DropNet.init .sample Unit) overlapRun = some t ∧
      t.applied = [⟨[⟨0, false⟩, ⟨1, false⟩], 0, true⟩] ∧ ¬ Aligned t := by
  have h : (run DropNet.step (DropNet.init .sample Unit) overlapRun).map (·.applied) =
      some [⟨[⟨0, false⟩, ⟨1, false⟩], 0, true⟩] := by
    decide +kernel
  obtain ⟨t, ht, happ⟩ := Option.map_eq_some_iff.mp h
  refine ⟨t, ht, happ, fun hal => ?_⟩
  have hown := hal.applied _ (happ ▸ List.mem_singleton.mpr rfl)
  simp [Applied.Own] at hown

def fillRun : List (DropLabel .sample Unit) :=
  gapSegment 100 10 :: gapRound ++ [.dropper, .dropper, .dropper]

theorem verdicts_aligned_fill :
    ∃ t, runIf DropNet.step (fun t l => t.givesVerdict l = true) (DropNet.init .sample Unit) fillRun =
      some t ∧ t.applied = [⟨[⟨0, false⟩, ⟨0, false⟩], 0, true⟩] ∧ Aligned t := by
  have h : (runIf DropNet.step (fun t l => t.givesVerdict l = true) (DropNet.init .sample Unit)
      fillRun).map (·.applied) = some [⟨[⟨0, false⟩, ⟨0, false⟩], 0, true⟩] := by
    decide +kernel
  obtain ⟨t, ht, happ⟩ := Option.map_eq_some_iff.mp h
  exact ⟨t, ht, happ, verdicts_aligned t (reach_of_runIf ht)⟩

end Runs

end FpgaNetworkStack.Toe
