import FpgaNetworkStack.Lib.Reach
import FpgaNetworkStack.Roce.RxExhFsm

/-!
# Where the payload of a message is written

The packets of a write, and those of a read response, go to consecutive addresses.  `rx_exh_fsm` keeps the next
address of both directions in the one entry that `msn_table` has for a queue pair, and other packets rewrite
it.  The network below follows the messages beside the table.
-/

namespace FpgaNetworkStack.Roce

open Lib IbOpCode

/-! ## Messages -/

/-- Incoming writes, and responses to own reads. -/
inductive Dir where
  | write | read
  deriving DecidableEq, Repr

/-- A message under way: its address, and the bytes its packets have had so far. -/
structure Message where
  start : BitVec 64
  bytes : Nat
  deriving DecidableEq

def Message.next (m : Message) : BitVec 64 := m.start + BitVec.ofNat 64 m.bytes

def Message.add (m : Message) (n : Nat) : Message := { m with bytes := m.bytes + n }

inductive Place where
  | only | first | middle | last
  deriving DecidableEq, Repr

/-- Direction of a packet that is written to its message's address, and its place in the message. -/
def IbOpCode.place : IbOpCode → Option (Dir × Place)
  | RC_RDMA_WRITE_ONLY => some (.write, .only)
  | RC_RDMA_WRITE_FIRST => some (.write, .first)
  | RC_RDMA_WRITE_MIDDLE => some (.write, .middle)
  | RC_RDMA_WRITE_LAST => some (.write, .last)
  | RC_RDMA_READ_RESP_ONLY => some (.read, .only)
  | RC_RDMA_READ_RESP_FIRST => some (.read, .first)
  | RC_RDMA_READ_RESP_MIDDLE => some (.read, .middle)
  | RC_RDMA_READ_RESP_LAST => some (.read, .last)
  | _ => none

namespace RxExhFsm

variable (s : RxExhFsm)

def qpn : Qpn := s.metaReg.destQp.setWidth 16

/-- Bytes of the packet in front of and behind its payload. -/
def headers : Nat :=
  if checkIfRethHeader s.metaReg.opCode then rethHeader
  else if checkIfAethHeader s.metaReg.opCode then aethHeader
  else noHeader

def payload : Nat := s.udpLength.toNat - s.headers

/-- The address a message starts at: the RETH's, or the one the read was posted with. -/
def firstAddress : Dir → BitVec 64
  | .write => getVirtualAddress s.exHeader
  | .read => s.readReqInit.laddr

/-- The message before the packet, when `m` is what is under way. -/
def before (d : Dir) (m : Option Message) : Place → Option Message
  | .only | .first => some ⟨s.firstAddress d, 0⟩
  | .middle | .last => m

def after (d : Dir) (m : Option Message) (p : Place) : Option Message :=
  match p with
  | .only | .last => none
  | .first | .middle => (s.before d m p).map (·.add s.payload)

end RxExhFsm

/-- The memory commands of a packet, and where its message says it belongs. -/
structure Chunk where
  qpn : BitVec 24
  message : Message
  payload : Nat
  commands : List MemCmd
  deriving DecidableEq

/-- One command, for the payload of the packet, at the next address of its message. -/
def Chunk.Contiguous (c : Chunk) : Prop :=
  ∃ ctl, c.commands = [.new c.message.next (BitVec.ofNat 32 c.payload) ctl PKG_HOST c.qpn]

/-! ## The network -/

structure DmaNet where
  exhFsm : RxExhFsm := {}
  fifo : RxExhFsmIn := {}
  table : Qpn → DmaState
  msnIn : MsnTableIn := {}
  /-- The messages under way. -/
  messages : Dir → Qpn → Option Message := fun _ _ => none
  /-- The direction of the packet that was the last to rewrite the entry. -/
  owner : Qpn → Option Dir := fun _ => none
  chunks : List Chunk := []

/-- The FIFOs of `rx_exh_fsm` and the other clients of the table are filled with anything at any time. -/
inductive DmaLabel where
  | ibh (m : IbhMeta)
  | header (h : BitVec RETH_SIZE)
  | udpLength (n : BitVec 16)
  | retransRdInit (r : RetransRdInit)
  | txMsnReq (qpn : Qpn)
  | ifMsnReq (r : IfMsnReq)
  | rxExhFsm
  | msnTable

namespace DmaNet

def init (table : Qpn → DmaState) : DmaNet := { table }

def record (t : DmaNet) (s : RxExhFsm) (out : RxExhFsmOut) : DmaNet :=
  let place := s.metaReg.opCode.place
  { t with
    owner :=
      if out.rxExh2msnTableUpdReq.isEmpty then t.owner
      else Function.update t.owner s.qpn (place.map (·.1))
    messages :=
      match place with
      | some (d, p) =>
        Function.update t.messages d
          (Function.update (t.messages d) s.qpn (s.after d (t.messages d s.qpn) p))
      | none => t.messages
    chunks := t.chunks ++
      (place.bind fun (d, p) => s.before d (t.messages d s.qpn) p).toList.map
        fun m => ⟨s.metaReg.destQp, m, s.payload, out.memoryWriteCmd⟩ }

def callExhFsm (t : DmaNet) : DmaNet :=
  let (exhFsm, fifo, out) := rxExhFsm t.exhFsm t.fifo
  let t' := match t.exhFsm.peFsmState, t.exhFsm.data with
    | .DATA, some out => t.record t.exhFsm out
    | _, _ => t
  { t' with
    exhFsm, fifo
    msnIn := { t.msnIn with
      rxExh2msnTableUpdReq := t.msnIn.rxExh2msnTableUpdReq ++ out.rxExh2msnTableUpdReq } }

/-- A connection that is set up again ends the messages of its queue pair. -/
def reset (t : DmaNet) : List IfMsnReq → DmaNet
  | [] => t
  | r :: _ =>
    { t with
      messages := fun d => Function.update (t.messages d) r.qpn none
      owner := Function.update t.owner r.qpn none }

def callMsn (t : DmaNet) : DmaNet :=
  let (table, msnIn, out) := Roce.msnTable t.table t.msnIn
  let t' := t.reset (t.msnIn.if2msnTableInit.take
    (t.msnIn.if2msnTableInit.length - msnIn.if2msnTableInit.length))
  { t' with
    table, msnIn
    fifo := { t.fifo with
      msnTable2rxExhRsp := t.fifo.msnTable2rxExhRsp ++ out.msnTable2rxExhRsp } }

def step (t : DmaNet) : DmaLabel → Option DmaNet
  | .ibh m => some { t with fifo := { t.fifo with metaIn := t.fifo.metaIn ++ [m] } }
  | .header h => some { t with fifo := { t.fifo with headerInput := t.fifo.headerInput ++ [h] } }
  | .udpLength n => some { t with fifo := { t.fifo with udpLengthFifo := t.fifo.udpLengthFifo ++ [n] } }
  | .retransRdInit r => some { t with fifo := { t.fifo with retrans2rxInit := t.fifo.retrans2rxInit ++ [r] } }
  | .txMsnReq qpn =>
    some { t with msnIn := { t.msnIn with txExh2msnTableReq := t.msnIn.txExh2msnTableReq ++ [qpn] } }
  | .ifMsnReq r =>
    some { t with msnIn := { t.msnIn with if2msnTableInit := t.msnIn.if2msnTableInit ++ [r] } }
  | .rxExhFsm => some t.callExhFsm
  | .msnTable => some t.callMsn

/-- A packet that is about to be written has room for its headers, and when it continues a message, the last
packet that rewrote the entry is of the same direction. -/
def undisturbed (t : DmaNet) : DmaLabel → Bool
  | .rxExhFsm =>
    match t.exhFsm.peFsmState, t.exhFsm.metaReg.opCode.place with
    | .DATA, some (d, p) =>
      decide (t.exhFsm.headers ≤ t.exhFsm.udpLength.toNat) &&
        (p == .only || p == .first || (t.messages d t.exhFsm.qpn).isNone ||
          t.owner t.exhFsm.qpn == some d)
    | _, _ => true
  | _ => true

end DmaNet

/-! ## One packet -/

namespace RxExhFsm

variable {s : RxExhFsm} {out : RxExhFsmOut} {d : Dir} {p : Place}

def address (s : RxExhFsm) (d : Dir) : Place → BitVec 64
  | .only | .first => s.firstAddress d
  | .middle | .last => s.dmaMeta.vaddr

theorem payLoadLength_eq {n : Nat} (h : n ≤ s.udpLength.toNat) :
    s.payLoadLength n = BitVec.ofNat 32 (s.udpLength.toNat - n) := by
  have hlt := s.udpLength.isLt
  apply BitVec.eq_of_toNat_eq
  rw [payLoadLength, BitVec.toNat_sub_of_le, BitVec.toNat_setWidth, BitVec.toNat_ofNat, BitVec.toNat_ofNat,
    Nat.mod_eq_of_lt (by omega), Nat.mod_eq_of_lt (by omega), Nat.mod_eq_of_lt (by omega)]
  rw [BitVec.le_def, BitVec.toNat_setWidth, BitVec.toNat_ofNat, Nat.mod_eq_of_lt (by omega),
    Nat.mod_eq_of_lt (by omega)]
  exact h

theorem payload_setWidth : (BitVec.ofNat 32 s.payload).setWidth 64 = BitVec.ofNat 64 s.payload := by
  have hlt := s.udpLength.isLt
  have hle : s.payload ≤ s.udpLength.toNat := Nat.sub_le ..
  apply BitVec.eq_of_toNat_eq
  rw [BitVec.toNat_setWidth, BitVec.toNat_ofNat, BitVec.toNat_ofNat, Nat.mod_eq_of_lt (by omega : _ < 2 ^ 32)]

theorem rdmaWriteFirst_eq {ctl : BitVec 1} (h : s.rdmaWriteFirst ctl = some out) :
    out = s.rdmaWrite (getVirtualAddress s.exHeader) (getLength s.exHeader) rethHeader ctl .SHIFT_RETH := by
  unfold rdmaWriteFirst at h
  split at h
  · exact (Option.some.inj h).symm
  · cases h

theorem data_commands (h : s.data = some out) (hp : s.metaReg.opCode.place = some (d, p))
    (hcover : s.headers ≤ s.udpLength.toNat) :
    ∃ ctl, out.memoryWriteCmd =
      [.new (s.address d p) (BitVec.ofNat 32 s.payload) ctl PKG_HOST s.metaReg.destQp] := by
  rw [payload, ← payLoadLength_eq hcover]
  unfold data at h
  unfold headers
  cases hop : s.metaReg.opCode <;> rw [hop] at hp h <;> cases hp
  case RC_RDMA_WRITE_FIRST | RC_RDMA_WRITE_ONLY =>
    rw [rdmaWriteFirst_eq h]
    exact ⟨_, rfl⟩
  all_goals
    cases h
    exact ⟨_, rfl⟩

/-- A packet rewrites the entry not at all, which of its message only the last one may do, or once, and then
with the address behind its payload. -/
theorem data_store (h : s.data = some out) :
    out.rxExh2msnTableUpdReq = [] ∧ (∀ d p, s.metaReg.opCode.place = some (d, p) → p = .last) ∨ ∃ r, out.rxExh2msnTableUpdReq = [r] ∧ r.write = true ∧ r.qpn = s.qpn ∧
      ∀ d p, s.metaReg.opCode.place = some (d, p) → s.headers ≤ s.udpLength.toNat →
        r.vaddr = s.address d p + BitVec.ofNat 64 s.payload := by
  have hnext {b : BitVec 64} {n : Nat} (hn : s.headers = n) (hcover : s.headers ≤ s.udpLength.toNat) :
      b + (s.payLoadLength n).setWidth 64 = b + BitVec.ofNat 64 s.payload := by
    rw [← hn, payLoadLength_eq hcover]
    exact congrArg (b + ·) payload_setWidth
  have hheads : s.headers = if checkIfRethHeader s.metaReg.opCode then rethHeader
    else if checkIfAethHeader s.metaReg.opCode then aethHeader else noHeader := rfl
  unfold data at h
  cases hop : s.metaReg.opCode <;> rw [hop] at hheads h
  case RC_RDMA_WRITE_FIRST | RC_RDMA_WRITE_ONLY =>
    rw [rdmaWriteFirst_eq h]
    refine .inr ⟨_, rfl, rfl, rfl, fun d p hp hcover => ?_⟩
    cases hp
    exact hnext hheads hcover
  case RC_RDMA_READ_REQUEST =>
    cases h
    unfold readRequest
    split
    · refine .inr ⟨_, rfl, rfl, rfl, fun d p hp => ?_⟩
      cases hp
    · refine .inl ⟨rfl, fun d p hp => ?_⟩
      cases hp
  case RC_ACK | RC_RDMA_READ_RESP_LAST =>
    cases h
    refine .inl ⟨rfl, fun d p hp => ?_⟩
    cases hp <;> rfl
  all_goals
    cases h
  all_goals
    refine .inr ⟨_, rfl, rfl, rfl, fun d p hp hcover => ?_⟩
    cases hp
  all_goals exact hnext hheads hcover

end RxExhFsm

theorem Message.next_add (m : Message) (n : Nat) : (m.add n).next = m.next + BitVec.ofNat 64 n := by
  rw [next, next, add, BitVec.add_assoc, ← BitVec.ofNat_add]

theorem Message.next_zero (a : BitVec 64) : (⟨a, 0⟩ : Message).next = a := BitVec.add_zero a

namespace DmaNet

/-! ## Invariant -/

/-- `a` is the next address of the message that owns the entry of `q`. -/
def Next (t : DmaNet) (q : Qpn) (a : BitVec 64) : Prop :=
  ∀ d m, t.owner q = some d → t.messages d q = some m → a = m.next

/-- The address in the entry once the queued update is there. -/
def entry (t : DmaNet) (q : Qpn) : BitVec 64 :=
  match t.msnIn.rxExh2msnTableUpdReq with
  | [] => (t.table q).vaddr
  | r :: _ => if r.write ∧ r.qpn = q then r.vaddr else (t.table q).vaddr

def Updates (l : List RxMsnReq) : Prop := l = [] ∨ ∃ r : RxMsnReq, l = [r] ∧ r.write = true

/-- Requests and answers between the two processes. -/
def Exchange (t : DmaNet) : Prop :=
  match t.exhFsm.peFsmState with
  | .META => t.fifo.msnTable2rxExhRsp = [] ∧ Updates t.msnIn.rxExh2msnTableUpdReq
  | .DMA_META =>
    (t.fifo.msnTable2rxExhRsp = [] ∧ ∃ us, Updates us ∧
      t.msnIn.rxExh2msnTableUpdReq = us ++ [.read t.exhFsm.metaReg.destQp]) ∨
    (t.msnIn.rxExh2msnTableUpdReq = [] ∧ ∃ e, t.fifo.msnTable2rxExhRsp = [e] ∧
      t.Next t.exhFsm.qpn e.vaddr)
  | .DATA =>
    t.fifo.msnTable2rxExhRsp = [] ∧ t.msnIn.rxExh2msnTableUpdReq = [] ∧
      t.Next t.exhFsm.qpn t.exhFsm.dmaMeta.vaddr

structure Inv (t : DmaNet) : Prop where
  entry : ∀ q, t.Next q (t.entry q)
  exchange : t.Exchange
  chunks : ∀ c ∈ t.chunks, c.Contiguous

variable {t u : DmaNet}

theorem inv_init (table : Qpn → DmaState) : Inv (init table) where
  entry := by
    intro q d m h
    cases h
  exchange := ⟨rfl, .inl rfl⟩
  chunks := by simp [init]

theorem before_next {s : RxExhFsm} {d : Dir} {p : Place} {m : Message}
    (hm : s.before d (t.messages d s.qpn) p = some m) (hnext : t.Next s.qpn s.dmaMeta.vaddr)
    (howner : p = .only ∨ p = .first ∨ t.owner s.qpn = some d) : s.address d p = m.next := by
  cases p with
  | only | first =>
    cases hm
    exact (Message.next_zero _).symm
  | middle | last =>
    rcases howner with h | h | h
    · cases h
    · cases h
    · exact hnext d m h hm

/-- What is under way behind a packet continues at the end of its payload. -/
theorem after_next {s : RxExhFsm} {d : Dir} {p : Place} {m : Message}
    (hm : s.after d (t.messages d s.qpn) p = some m) (hnext : t.Next s.qpn s.dmaMeta.vaddr)
    (howner : p = .only ∨ p = .first ∨ (t.messages d s.qpn).isNone ∨ t.owner s.qpn = some d) :
    m.next = s.address d p + BitVec.ofNat 64 s.payload := by
  have key (hafter : (s.before d (t.messages d s.qpn) p).map (·.add s.payload) = some m)
      (hp : p = .first ∨ p = .middle) : m.next = s.address d p + BitVec.ofNat 64 s.payload := by
    obtain ⟨m', hm', rfl⟩ := Option.map_eq_some_iff.mp hafter
    have howner' : p = .only ∨ p = .first ∨ t.owner s.qpn = some d := by
      rcases hp with rfl | rfl
      · exact .inr (.inl rfl)
      · rcases howner with h | h | h | h
        · exact .inl h
        · exact .inr (.inl h)
        · change t.messages d s.qpn = some m' at hm'
          rw [hm'] at h
          cases h
        · exact .inr (.inr h)
    rw [Message.next_add, before_next hm' hnext howner']
  cases p with
  | only | last => cases hm
  | first => exact key hm (.inl rfl)
  | middle => exact key hm (.inr rfl)

theorem undisturbed_data {d : Dir} {p : Place} (hst : t.exhFsm.peFsmState = .DATA)
    (hp : t.exhFsm.metaReg.opCode.place = some (d, p)) (hok : t.undisturbed .rxExhFsm = true) :
    t.exhFsm.headers ≤ t.exhFsm.udpLength.toNat ∧
      (p = .only ∨ p = .first ∨ (t.messages d t.exhFsm.qpn).isNone ∨ t.owner t.exhFsm.qpn = some d) := by
  simp only [undisturbed, hst, hp, Bool.and_eq_true, Bool.or_eq_true, decide_eq_true_eq, beq_iff_eq] at hok
  obtain ⟨hcover, ((h | h) | h) | h⟩ := hok
  · exact ⟨hcover, .inl h⟩
  · exact ⟨hcover, .inr (.inl h)⟩
  · exact ⟨hcover, .inr (.inr (.inl h))⟩
  · exact ⟨hcover, .inr (.inr (.inr h))⟩

variable {out : RxExhFsmOut}

theorem record_messages {s : RxExhFsm} {d : Dir} {q : Qpn} {m : Message}
    (hm : (t.record s out).messages d q = some m) :
    t.messages d q = some m ∨
      ∃ p, s.metaReg.opCode.place = some (d, p) ∧ q = s.qpn ∧ s.after d (t.messages d s.qpn) p = some m := by
  unfold record at hm
  cases hp : s.metaReg.opCode.place with
  | none =>
    rw [hp] at hm
    exact .inl hm
  | some dp =>
    obtain ⟨d', p⟩ := dp
    rw [hp] at hm
    dsimp only at hm
    by_cases hd : d = d'
    · subst hd
      rw [Function.update_self] at hm
      by_cases hq : q = s.qpn
      · subst hq
        rw [Function.update_self] at hm
        exact .inr ⟨p, rfl, rfl, hm⟩
      · rw [Function.update_of_ne hq] at hm
        exact .inl hm
    · rw [Function.update_of_ne hd] at hm
      exact .inl hm

theorem record_entry (hst : t.exhFsm.peFsmState = .DATA) (hd : t.exhFsm.data = some out)
    (hok : t.undisturbed .rxExhFsm = true) (hentry : ∀ q, t.Next q (t.table q).vaddr)
    (hnext : t.Next t.exhFsm.qpn t.exhFsm.dmaMeta.vaddr) (q : Qpn) :
    (t.record t.exhFsm out).Next q
      (match out.rxExh2msnTableUpdReq with
        | [] => (t.table q).vaddr
        | r :: _ => if r.write ∧ r.qpn = q then r.vaddr else (t.table q).vaddr) := by
  intro d m howner hm
  rcases RxExhFsm.data_store hd with ⟨hnil, hlast⟩ | ⟨r, hr, hw, hq, hv⟩
  · have hsame : (t.record t.exhFsm out).owner = t.owner := by simp [record, hnil]
    rw [hsame] at howner
    rw [hnil]
    rcases record_messages hm with hm | ⟨p, hp, -, hafter⟩
    · exact hentry q d m howner hm
    · rw [hlast d p hp] at hafter
      cases hafter
  · have hnew : (t.record t.exhFsm out).owner =
        Function.update t.owner t.exhFsm.qpn (t.exhFsm.metaReg.opCode.place.map (·.1)) := by
      simp [record, hr]
    rw [hnew] at howner
    rw [hr]
    by_cases hqq : q = t.exhFsm.qpn
    · subst hqq
      rw [Function.update_self] at howner
      obtain ⟨⟨d', p⟩, hp, rfl⟩ := Option.map_eq_some_iff.mp howner
      obtain ⟨hcover, hown⟩ := undisturbed_data hst hp hok
      have hafter : t.exhFsm.after d' (t.messages d' t.exhFsm.qpn) p = some m := by
        simp only [record, hp, Function.update_self] at hm
        exact hm
      show (if r.write ∧ r.qpn = t.exhFsm.qpn then r.vaddr else _) = _
      rw [if_pos ⟨hw, hq⟩, hv d' p hp hcover]
      exact (after_next hafter hnext hown).symm
    · rw [Function.update_of_ne hqq] at howner
      show (if r.write ∧ r.qpn = q then r.vaddr else _) = _
      rw [if_neg fun h => hqq (h.2.symm.trans hq)]
      rcases record_messages hm with hm | ⟨p, -, hc, -⟩
      · exact hentry q d m howner hm
      · exact absurd hc hqq

theorem record_chunks (hst : t.exhFsm.peFsmState = .DATA) (hd : t.exhFsm.data = some out)
    (hok : t.undisturbed .rxExhFsm = true) (hnext : t.Next t.exhFsm.qpn t.exhFsm.dmaMeta.vaddr)
    (h : ∀ c ∈ t.chunks, c.Contiguous) : ∀ c ∈ (t.record t.exhFsm out).chunks, c.Contiguous := by
  intro c hc
  rcases List.mem_append.mp hc with hc | hc
  · exact h c hc
  obtain ⟨m, hm, rfl⟩ := List.mem_map.mp hc
  obtain ⟨⟨d, p⟩, hp, hbefore⟩ := Option.bind_eq_some_iff.mp (Option.mem_toList.mp hm)
  obtain ⟨hcover, hown⟩ := undisturbed_data hst hp hok
  obtain ⟨ctl, hcmd⟩ := RxExhFsm.data_commands hd hp hcover
  have hown' : p = .only ∨ p = .first ∨ t.owner t.exhFsm.qpn = some d := by
    rcases hown with h | h | h | h
    · exact .inl h
    · exact .inr (.inl h)
    · cases p with
      | only => exact .inl rfl
      | first => exact .inr (.inl rfl)
      | middle | last =>
        change t.messages d t.exhFsm.qpn = some m at hbefore
        rw [hbefore] at h
        cases h
    · exact .inr (.inr h)
  refine ⟨ctl, ?_⟩
  rw [← before_next hbefore hnext hown']
  exact hcmd

theorem Inv.callExhFsm (h : Inv t) (hok : t.undisturbed .rxExhFsm = true) : Inv t.callExhFsm := by
  have hex := h.exchange
  unfold Exchange at hex
  cases hst : t.exhFsm.peFsmState with
  | META =>
    rw [hst] at hex
    rcases hm : t.fifo.metaIn with _ | ⟨m, ms⟩
    · have hcall : t.callExhFsm = t := by
        simp [DmaNet.callExhFsm, rxExhFsm, hst, hm]
      rw [hcall]
      exact h
    rcases hx : t.fifo.headerInput with _ | ⟨header, headers⟩
    · have hcall : t.callExhFsm = t := by
        simp [DmaNet.callExhFsm, rxExhFsm, hst, hm, hx]
      rw [hcall]
      exact h
    have hcall : t.callExhFsm = { t with
        exhFsm := { t.exhFsm with
          peFsmState := .DMA_META, metaReg := m, exHeader := header
          consumeReadInit := startsReadResp m.opCode }
        fifo := { t.fifo with metaIn := ms, headerInput := headers }
        msnIn := { t.msnIn with
          rxExh2msnTableUpdReq := t.msnIn.rxExh2msnTableUpdReq ++ [.read m.destQp] } } := by
      simp [DmaNet.callExhFsm, rxExhFsm, hst, hm, hx]
    rw [hcall]
    refine ⟨fun q => ?_, .inl ⟨hex.1, _, hex.2, rfl⟩, h.chunks⟩
    -- the read stands behind the update
    have he := h.entry q
    unfold DmaNet.entry at he ⊢
    rcases hex.2 with hnil | ⟨r, hr, -⟩
    · rw [hnil] at he ⊢
      exact he
    · rw [hr] at he ⊢
      exact he
  | DMA_META =>
    rw [hst] at hex
    rcases hr : t.fifo.msnTable2rxExhRsp with _ | ⟨e, es⟩
    · have hcall : t.callExhFsm = t := by
        simp [DmaNet.callExhFsm, rxExhFsm, hst, hr]
      rw [hcall]
      exact h
    rcases hl : t.fifo.udpLengthFifo with _ | ⟨n, ns⟩
    · have hcall : t.callExhFsm = t := by
        simp [DmaNet.callExhFsm, rxExhFsm, hst, hr, hl]
      rw [hcall]
      exact h
    rcases hex with ⟨hnil, -⟩ | ⟨hreq, e', he', hnext⟩
    · rw [hr] at hnil
      cases hnil
    rw [hr] at he'
    obtain ⟨rfl, rfl⟩ := List.cons.inj he'
    -- the answer is taken, with or without an address of the retransmitter
    have hfire {i : RetransRdInit} {inits : List RetransRdInit}
        (hcall : t.callExhFsm = { t with
          exhFsm := { t.exhFsm with peFsmState := .DATA, dmaMeta := e, udpLength := n, readReqInit := i }
          fifo := { t.fifo with
            msnTable2rxExhRsp := [], udpLengthFifo := ns, retrans2rxInit := inits } }) :
        Inv t.callExhFsm := by
      rw [hcall]
      exact ⟨h.entry, ⟨rfl, hreq, hnext⟩, h.chunks⟩
    cases hc : t.exhFsm.consumeReadInit with
    | false => exact hfire (by simp [DmaNet.callExhFsm, rxExhFsm, hst, hr, hl, hc]; exact ⟨rfl, rfl⟩)
    | true =>
      rcases hi : t.fifo.retrans2rxInit with _ | ⟨i, inits⟩
      · have hcall : t.callExhFsm = t := by
          simp [DmaNet.callExhFsm, rxExhFsm, hst, hr, hl, hc, hi]
        rw [hcall]
        exact h
      · exact hfire (by simp [DmaNet.callExhFsm, rxExhFsm, hst, hr, hl, hc, hi]; exact ⟨rfl, rfl⟩)
  | DATA =>
    rw [hst] at hex
    obtain ⟨hrsp, hreq, hnext⟩ := hex
    cases hd : t.exhFsm.data with
    | none =>
      have hcall : t.callExhFsm = t := by
        simp [DmaNet.callExhFsm, rxExhFsm, hst, hd]
      rw [hcall]
      exact h
    | some out =>
      have hentry (q : Qpn) : t.Next q (t.table q).vaddr := by
        have he := h.entry q
        rw [DmaNet.entry, hreq] at he
        exact he
      have hcall : t.callExhFsm = { t.record t.exhFsm out with
          exhFsm := { t.exhFsm with peFsmState := .META }
          msnIn := { t.msnIn with rxExh2msnTableUpdReq := out.rxExh2msnTableUpdReq } } := by
        simp [DmaNet.callExhFsm, rxExhFsm, hst, hd, hreq, record]
      rw [hcall]
      refine ⟨record_entry hst hd hok hentry hnext, ⟨hrsp, ?_⟩, record_chunks hst hd hok hnext h.chunks⟩
      rcases RxExhFsm.data_store hd with ⟨hnil, -⟩ | ⟨r, hr, hw, -⟩
      · exact .inl hnil
      · exact .inr ⟨r, hr, hw⟩

theorem Updates.of_cons {r : RxMsnReq} {rest : List RxMsnReq} (h : Updates (r :: rest)) :
    r.write = true ∧ rest = [] := by
  rcases h with h | ⟨r', h, hr⟩
  · cases h
  · obtain ⟨rfl, rfl⟩ := List.cons.inj h
    exact ⟨hr, rfl⟩

theorem Updates.of_cons_read {us rest : List RxMsnReq} {r : RxMsnReq} {qpn : BitVec 24} (h : Updates us)
    (hr : r :: rest = us ++ [.read qpn]) :
    r.write = true ∧ rest = [.read qpn] ∨ r = .read qpn ∧ rest = [] := by
  rcases h with rfl | ⟨r', rfl, hw⟩
  · exact .inr (List.cons.inj hr)
  · obtain ⟨rfl, rfl⟩ := List.cons.inj hr
    exact .inl ⟨hw, rfl⟩

theorem Inv.callMsn (h : Inv t) : Inv t.callMsn := by
  have hex := h.exchange
  rcases hq : t.msnIn.rxExh2msnTableUpdReq with _ | ⟨r, rest⟩
  · rcases hx : t.msnIn.txExh2msnTableReq with _ | ⟨qpn, txReqs⟩
    · rcases hi : t.msnIn.if2msnTableInit with _ | ⟨i, inits⟩
      · have hcall : t.callMsn = t := by
          simp [DmaNet.callMsn, Roce.msnTable, hq, hx, hi, reset]
        rw [hcall]
        exact h
      · -- the messages of the queue pair have ended
        have hcall : t.callMsn = { t with
            table := Function.update t.table i.qpn { rKey := i.rKey }
            messages := fun d => Function.update (t.messages d) i.qpn none
            owner := Function.update t.owner i.qpn none
            msnIn := { t.msnIn with if2msnTableInit := inits } } := by
          simp [DmaNet.callMsn, Roce.msnTable, hq, hx, hi, reset]
        rw [hcall]
        have hnext {q : Qpn} {a a' : BitVec 64} (hold : t.Next q a) (hne : q ≠ i.qpn → a' = a) :
            Next { t with
              table := Function.update t.table i.qpn { rKey := i.rKey }
              messages := fun d => Function.update (t.messages d) i.qpn none
              owner := Function.update t.owner i.qpn none
              msnIn := { t.msnIn with if2msnTableInit := inits } } q a' := by
          intro d m howner hm
          by_cases hqi : q = i.qpn
          · subst hqi
            simp at howner
          · simp only [Function.update_of_ne hqi] at howner hm
            rw [hne hqi]
            exact hold d m howner hm
        refine ⟨fun q => hnext (h.entry q) fun hne => ?_, ?_, h.chunks⟩
        · simp [DmaNet.entry, hq, Function.update_of_ne hne]
        · unfold Exchange at hex ⊢
          dsimp only
          cases hst : t.exhFsm.peFsmState with
          | META =>
            rw [hst] at hex
            exact hex
          | DMA_META =>
            rw [hst] at hex
            rcases hex with hex | ⟨hreq, e, he, hn⟩
            · exact .inl hex
            · exact .inr ⟨hreq, e, he, hnext hn fun _ => rfl⟩
          | DATA =>
            rw [hst] at hex
            exact ⟨hex.1, hex.2.1, hnext hex.2.2 fun _ => rfl⟩
    · have hcall : t.callMsn = { t with msnIn := { t.msnIn with txExh2msnTableReq := txReqs } } := by
        simp [DmaNet.callMsn, Roce.msnTable, hq, hx, reset]
      rw [hcall]
      exact ⟨h.entry, hex, h.chunks⟩
  cases hw : r.write with
  | true =>
    have hcall : t.callMsn = { t with
        table := Function.update t.table r.qpn ((t.table r.qpn).update r)
        msnIn := { t.msnIn with rxExh2msnTableUpdReq := rest } } := by
      simp [DmaNet.callMsn, Roce.msnTable, hq, hw, reset]
    have hrest : t.fifo.msnTable2rxExhRsp = [] ∧
        (t.exhFsm.peFsmState = .META ∧ rest = [] ∨
          t.exhFsm.peFsmState = .DMA_META ∧ rest = [.read t.exhFsm.metaReg.destQp]) := by
      unfold Exchange at hex
      cases hst : t.exhFsm.peFsmState with
      | META =>
        rw [hst, hq] at hex
        exact ⟨hex.1, .inl ⟨rfl, hex.2.of_cons.2⟩⟩
      | DMA_META =>
        rw [hst, hq] at hex
        rcases hex with ⟨hnil, us, hus, hl⟩ | ⟨hl, -⟩
        · rcases hus.of_cons_read hl with ⟨-, hr⟩ | ⟨hr, -⟩
          · exact ⟨hnil, .inr ⟨rfl, hr⟩⟩
          · rw [hr] at hw
            cases hw
        · cases hl
      | DATA =>
        rw [hst, hq] at hex
        cases hex.2.1
    rw [hcall]
    refine ⟨fun q => ?_, ?_, h.chunks⟩
    · have he := h.entry q
      have hnew : (Function.update t.table r.qpn ((t.table r.qpn).update r) q).vaddr = t.entry q := by
        rw [DmaNet.entry, hq]
        by_cases hqr : r.qpn = q
        · subst hqr
          simp [hw, DmaState.update]
        · simp [hqr, Function.update_of_ne (Ne.symm hqr)]
      unfold DmaNet.entry
      dsimp only
      rcases hrest.2 with ⟨-, hnil⟩ | ⟨-, hread⟩
      · rw [hnil]
        dsimp only
        rw [hnew]
        exact he
      · rw [hread]
        dsimp only [RxMsnReq.read]
        rw [if_neg (by simp), hnew]
        exact he
    · unfold Exchange
      dsimp only
      rcases hrest.2 with ⟨hst, hnil⟩ | ⟨hst, hread⟩
      · rw [hst, hnil]
        exact ⟨hrest.1, .inl rfl⟩
      · rw [hst, hread]
        exact .inl ⟨hrest.1, [], .inl rfl, rfl⟩
  | false =>
    have hcall : t.callMsn = { t with
        fifo := { t.fifo with msnTable2rxExhRsp := t.fifo.msnTable2rxExhRsp ++ [t.table r.qpn] }
        msnIn := { t.msnIn with rxExh2msnTableUpdReq := rest } } := by
      simp [DmaNet.callMsn, Roce.msnTable, hq, hw, reset]
    have hread : t.exhFsm.peFsmState = .DMA_META ∧ t.fifo.msnTable2rxExhRsp = [] ∧
        r = .read t.exhFsm.metaReg.destQp ∧ rest = [] := by
      unfold Exchange at hex
      cases hst : t.exhFsm.peFsmState with
      | META =>
        rw [hst, hq] at hex
        rw [hex.2.of_cons.1] at hw
        cases hw
      | DMA_META =>
        rw [hst, hq] at hex
        rcases hex with ⟨hnil, us, hus, hl⟩ | ⟨hl, -⟩
        · rcases hus.of_cons_read hl with ⟨hr, -⟩ | ⟨hr, hrest⟩
          · rw [hr] at hw
            cases hw
          · exact ⟨rfl, hnil, hr, hrest⟩
        · cases hl
      | DATA =>
        rw [hst, hq] at hex
        cases hex.2.1
    obtain ⟨hst, hnil, rfl, rfl⟩ := hread
    have hentry (q : Qpn) : t.Next q (t.table q).vaddr := by
      have he := h.entry q
      rw [DmaNet.entry, hq] at he
      dsimp only [RxMsnReq.read] at he
      rw [if_neg (by simp)] at he
      exact he
    rw [hcall]
    refine ⟨hentry, ?_, h.chunks⟩
    unfold Exchange
    dsimp only
    rw [hst, hnil]
    exact .inr ⟨rfl, _, rfl, hentry _⟩

theorem inv_step {l : DmaLabel} (h : Inv t) (hok : t.undisturbed l = true) (hs : t.step l = some u) :
    Inv u := by
  cases l with
  | rxExhFsm =>
    cases hs
    exact h.callExhFsm hok
  | msnTable =>
    cases hs
    exact h.callMsn
  | ibh | header | udpLength | retransRdInit | txMsnReq | ifMsnReq =>
    cases hs
    exact { h with }

/-- The packets of a message are written to consecutive addresses, in every run in which no packet that
continues a message finds the entry rewritten by another one. -/
theorem dma_contiguous (table : Qpn → DmaState) (t : DmaNet)
    (h : Reach step (fun t l => t.undisturbed l = true) (init table) t) :
    ∀ c ∈ t.chunks, c.Contiguous :=
  (h.invariant (P := Inv) (inv_init table) fun _ _ _ hu hok hs => inv_step hu hok hs).chunks

/-! ### Two runs -/

def reth (vaddr : BitVec 64) (len : BitVec 32) : BitVec RETH_SIZE :=
  reverse32 len ++ (0 : BitVec 32) ++ reverse32 (vaddr.setWidth 32) ++ reverse32 (vaddr.extractLsb' 32 32)

/-- A packet of queue pair 5 with `n` bytes of payload, and its way through the two processes. -/
def handle (op : IbOpCode) (header : BitVec RETH_SIZE) (headers n : Nat) : List DmaLabel :=
  [.ibh ⟨op, 0, 5, 0, true, 1⟩, .header header, .udpLength (BitVec.ofNat 16 (headers + n)), .rxExhFsm, .msnTable,
    .rxExhFsm, .rxExhFsm, .msnTable]

/-- A write of 4096 and 100 bytes to `0x10000`. -/
def writeFirst : List DmaLabel := handle RC_RDMA_WRITE_FIRST (reth 0x10000 4196) 40 4096

def writeLast : List DmaLabel := handle RC_RDMA_WRITE_LAST 0 24 100

/-- A response of 64 bytes, to a read posted with local address `0x90000`. -/
def response : List DmaLabel := .retransRdInit ⟨0x90000, 1⟩ :: handle RC_RDMA_READ_RESP_ONLY 0 28 64

-- The last packet of the write goes behind the payload of the response.
theorem response_redirects_write :
    ∃ t, run step (init fun _ => {}) (writeFirst ++ response ++ writeLast) = some t ∧
      t.chunks.map (·.message) = [⟨0x10000, 0⟩, ⟨0x90000, 0⟩, ⟨0x10000, 4096⟩] ∧
      (t.chunks.map fun c => c.commands.map (·.addr)) = [[0x10000], [0x90000], [0x90040]] ∧
      ¬ ∀ c ∈ t.chunks, c.Contiguous := by
  have h : (run step (init fun _ => {}) (writeFirst ++ response ++ writeLast)).map (·.chunks) =
      some [⟨5, ⟨0x10000, 0⟩, 4096, [.new 0x10000 4096 PKG_NF PKG_HOST 5]⟩,
        ⟨5, ⟨0x90000, 0⟩, 64, [.new 0x90000 64 1 PKG_HOST 5]⟩,
        ⟨5, ⟨0x10000, 4096⟩, 100, [.new 0x90040 100 PKG_F PKG_HOST 5]⟩] := by
    decide +kernel
  obtain ⟨t, ht, hx⟩ := Option.map_eq_some_iff.mp h
  refine ⟨t, ht, by rw [hx]; rfl, by rw [hx]; decide, fun hall => ?_⟩
  rw [hx] at hall
  obtain ⟨ctl, hc⟩ := hall _ (List.mem_cons_of_mem _ (List.mem_cons_of_mem _ (List.mem_singleton.mpr rfl)))
  have haddr : [(0x90040 : BitVec 48)] = [0x11000] := congrArg (List.map MemCmd.addr) hc
  exact absurd haddr (by decide)

theorem dma_contiguous_write :
    ∃ t, runIf step (fun t l => t.undisturbed l = true) (init fun _ => {}) (writeFirst ++ writeLast) = some t ∧
      t.chunks.map (·.message) = [⟨0x10000, 0⟩, ⟨0x10000, 4096⟩] ∧ ∀ c ∈ t.chunks, c.Contiguous := by
  have h : (runIf step (fun t l => t.undisturbed l = true) (init fun _ => {}) (writeFirst ++ writeLast)).map
      (fun t => t.chunks.map (·.message)) = some [⟨0x10000, 0⟩, ⟨0x10000, 4096⟩] := by
    decide +kernel
  obtain ⟨t, ht, hx⟩ := Option.map_eq_some_iff.mp h
  exact ⟨t, ht, hx, dma_contiguous _ t (reach_of_runIf ht)⟩

end DmaNet

end FpgaNetworkStack.Roce
