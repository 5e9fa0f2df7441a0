import FpgaNetworkStack.Roce.RetransProgress
import FpgaNetworkStack.Roce.RxExhFsm

/-!
# The address of a read response

`rx_ibh_fsm` passes a read response on to `rx_exh_fsm` and tells the retransmitter of it;
`process_retransmissions` answers with the address that the first request of the queue pair was posted with,
and `rx_exh_fsm` waits for it.  The addresses carry no tag: only their order matches them with the packets.
-/

namespace FpgaNetworkStack.Roce

open Lib IbOpCode

/-! ## The retransmitter's answers -/

/-- The first request is the read that the packet of `u` is the first answer to. -/
def answered (l : List RetransEntry) (u : RetransUpdate) : Bool :=
  match l with
  | e :: _ => e.opCode == RC_RDMA_READ_REQUEST && e.psn == u.latestAckedReq
  | [] => false

theorem answered_head {l : List RetransEntry} {u : RetransUpdate} (h : answered l u = true) :
    ∃ e, l.head? = some e ∧ e.opCode = RC_RDMA_READ_REQUEST ∧ e.psn = u.latestAckedReq := by
  cases l with
  | nil => cases h
  | cons e l =>
    simp only [answered, Bool.and_eq_true, beq_iff_eq] at h
    exact ⟨e, rfl, h⟩

namespace RetransNet

variable {t u : RetransNet} {cells : Qpn → List MetaIdx} {ops : List RetransOp} {l : List MetaIdx}

def updating (s : ProcessRetrans) : List RetransUpdate :=
  match s.rtState with
  | .UPDATE_0 | .UPDATE_1 => [s.update]
  | _ => []

/-- Updates that an address is still to be given for. -/
def owed (t : RetransNet) : List RetransUpdate :=
  (updating t.proc ++ t.inp.rx2retransUpd).filter fun u => startsReadResp u.opCode

/-- The next call takes up an update that the lists have no read for. -/
def unanswered (t : RetransNet) : Bool :=
  match t.proc.rtState, t.inp.rx2retransUpd with
  | .MAIN, u :: _ => startsReadResp u.opCode && !answered (listRun t.taken u.qpn) u
  | _, _ => false

/-- The next call takes up a retransmission of a number that is in no request. -/
def unknown (t : RetransNet) : Bool :=
  match t.proc.rtState, t.inp.rx2retransUpd, t.inp.rx2retransReq with
  | .MAIN, [], r :: _ =>
    !(listRun t.taken r.qpn).isEmpty && (listRun t.taken r.qpn).all fun e => e.psn != r.psn
  | _, _, _ => false

/-- The update under way found its read. -/
def Served (t : RetransNet) : Prop :=
  ∀ u ∈ updating t.proc, startsReadResp u.opCode = true →
    answered (listRun t.taken.dropLast u.qpn) u = true

/-- The retransmission under way finds its number. -/
def Finds (t : RetransNet) : Prop :=
  match t.proc.rtState with
  | .RETRANS_0 => listRun t.taken t.proc.retrans.qpn = [] ∨ Known t
  | .RETRANS_1 => Known t
  | _ => True

/-- A call of `process_retransmissions` that writes `inits`. -/
structure HandsOver (t u : RetransNet) (inits : List RetransRdInit) : Prop where
  owed : t.owed = inits.map (fun _ => t.proc.update) ++ u.owed
  head : ∀ r ∈ inits, ∃ e, (listRun t.taken.dropLast t.proc.update.qpn).head? = some e ∧
    e.opCode = RC_RDMA_READ_REQUEST ∧ e.psn = t.proc.update.latestAckedReq ∧ r = ⟨e.localAddr, e.lst⟩
  served : Served u
  finds : Finds u

theorem HandsOver.idle (howed : u.owed = t.owed) (hserved : Served u) (hfinds : Finds u) :
    HandsOver t u [] :=
  ⟨by rw [howed]; rfl, fun r hr => (List.not_mem_nil hr).elim, hserved, hfinds⟩

theorem Served.of_updating (h : updating t.proc = []) : Served t := by
  intro v hv
  rw [h] at hv
  cases hv

theorem Finds.of_state (h : t.proc.rtState ≠ .RETRANS_0) (h' : t.proc.rtState ≠ .RETRANS_1) : Finds t := by
  unfold Finds
  split
  · next hs => exact absurd hs h
  · next hs => exact absurd hs h'
  · trivial

theorem main_handsOver (hm : t.proc.rtState = .MAIN) (hserved : Served t) (hfinds : Finds t)
    (hun : t.unanswered = false) (hkn : t.unknown = false) :
    HandsOver t t.callProcess.1 t.callProcess.2.retrans2rxInit := by
  simp only [callProcess, processRetransmissions, hm]
  unfold retransMain
  split
  · next update rest hupd =>
      simp only [unanswered, hm, hupd] at hun
      refine .idle (by simp [owed, updating, hm, hupd]) ?_ (Finds.of_state (by simp) (by simp))
      intro v hv hstart
      simp only [updating, List.mem_singleton] at hv
      rw [hv] at hstart ⊢
      simpa [begun, hm, hstart] using hun
  · next retrans rest hupd hreq =>
      simp only [unknown, hm, hupd, hreq] at hkn
      refine .idle (by simp [owed, updating, hm, hupd]) (Served.of_updating rfl) ?_
      simp only [Finds, Known, begun, hm, List.append_nil]
      by_cases hnil : listRun t.taken retrans.qpn = []
      · exact .inl hnil
      · right
        simpa [hnil] using hkn
  · next retrans rest hupd _ hreq =>
      exact .idle (by simp [owed, updating, hm, hupd]) (Served.of_updating rfl) (Finds.of_state (by simp) (by simp))
  · next insert rest idx free' hupd _ _ hins hfree =>
      exact .idle (by simp [owed, updating, hm, hupd]) (Served.of_updating rfl) (Finds.of_state (by simp) (by simp))
  · simp only [begun, hm, List.append_nil]
    exact .idle rfl hserved hfinds

theorem update0_handsOver (h : Inv t cells ops) (hs : t.proc.rtState = .UPDATE_0) (hserved : Served t)
    (hfinds : Finds t) : HandsOver t t.callProcess.1 t.callProcess.2.retrans2rxInit := by
  simp only [callProcess, processRetransmissions, hs, withPointer]
  cases hrsp : t.inp.pointerRspFifo with
  | nil =>
    simp only [begun, hs, List.append_nil]
    refine .idle ?_ ?_ ?_
    · simp [owed]
    · exact hserved
    · exact hfinds
  | cons p rest =>
    obtain ⟨hp, -, -⟩ := h.pointer.answer (r := ⟨t.proc.update.qpn, true⟩) (by simp [asked, hs]) hrsp
    have htaken := h.taken
    simp only [unfinished, hs] at htaken
    cases hv : p.valid with
    | true =>
      simp only [Roce.update0, hv, if_true, begun, hs, List.append_nil]
      refine .idle (by simp [owed, updating, hs]) ?_ (Finds.of_state (by simp) (by simp))
      intro v hv' hstart
      have hmem : v ∈ updating t.proc := by simpa [updating, hs] using hv'
      exact hserved v hmem hstart
    | false =>
      simp only [Roce.update0, hv, Bool.false_eq_true, if_false, begun, hs, List.append_nil]
      -- an update without a list has no address to wait for
      have hno : startsReadResp t.proc.update.opCode = false := by
        by_contra hstart
        have hans := hserved t.proc.update (by simp [updating, hs]) (by simpa using hstart)
        rw [htaken, List.dropLast_concat, h.lists.nil (by rw [← hp]; exact hv)] at hans
        cases hans
      exact .idle (by simp [owed, updating, hs, hno]) (Served.of_updating rfl)
        (Finds.of_state (by simp) (by simp))

theorem update1_handsOver (h : Inv t cells ops) (hs : t.proc.rtState = .UPDATE_1) (hserved : Served t)
    (hfinds : Finds t) : HandsOver t t.callProcess.1 t.callProcess.2.retrans2rxInit := by
  simp only [callProcess, processRetransmissions, hs, withMeta]
  cases hrsp : t.inp.metaRspFifo with
  | nil =>
    simp only [begun, hs, List.append_nil]
    refine .idle ?_ ?_ ?_
    · simp [owed]
    · exact hserved
    · exact hfinds
  | cons m rest =>
    obtain ⟨hptrMeta, hvalid, -⟩ := h.head hs
    have hm := h.cell.answer hs m (by rw [hrsp]; exact List.mem_cons_self)
    have htaken := h.taken
    simp only [unfinished, hs] at htaken
    have hv : (t.settledPtr t.proc.update.qpn).valid = true := by rw [← hptrMeta]; exact hvalid
    obtain ⟨l, hcells, hmv, -⟩ := h.lists.head hv
    rw [← hptrMeta] at hcells hmv
    rw [← hm] at hmv
    -- the cell that was read holds the first request of the list
    have hlist : listRun ops t.proc.update.qpn =
        m.entry t.proc.update.qpn :: l.map (fun i => (t.settledMeta i).entry t.proc.update.qpn) := by
      rw [← h.lists.entries, hcells, List.map_cons, hm]
    have hans : startsReadResp t.proc.update.opCode = true → ∃ e,
        (listRun t.taken.dropLast t.proc.update.qpn).head? = some e ∧ e.opCode = RC_RDMA_READ_REQUEST ∧
          e.psn = t.proc.update.latestAckedReq ∧ (⟨m.localAddr, m.lst⟩ : RetransRdInit) = ⟨e.localAddr, e.lst⟩ := by
      intro hstart
      obtain ⟨e, he, hop, hpsn⟩ := answered_head (hserved t.proc.update (by simp [updating, hs]) hstart)
      have hem := he
      rw [htaken, List.dropLast_concat, hlist, List.head?_cons, Option.some.injEq] at hem
      exact ⟨e, he, hop, hpsn, by rw [← hem]; rfl⟩
    have hop : (t.proc.update.opCode == RC_RDMA_READ_RESP_FIRST ||
        t.proc.update.opCode == RC_RDMA_READ_RESP_ONLY) = startsReadResp t.proc.update.opCode :=
      Bool.or_comm _ _
    simp only [Roce.update1, hmv, Bool.not_true, Bool.false_eq_true, if_false, hop]
    cases hstart : startsReadResp t.proc.update.opCode with
    | false =>
      cases readMore t.proc.update.opCode <;>
        exact .idle (by simp [owed, updating, begun, hs, hstart]) (Served.of_updating rfl)
          (Finds.of_state (by simp) (by simp))
    | true =>
      cases readMore t.proc.update.opCode <;>
        refine ⟨by simp [owed, updating, begun, hs, hstart], fun r hr => ?_, Served.of_updating rfl,
          Finds.of_state (by simp) (by simp)⟩ <;>
        rw [List.mem_singleton.mp hr] <;>
        exact hans hstart

theorem other_handsOver (h : Inv t cells ops) (hm : t.proc.rtState ≠ .MAIN) (hno : updating t.proc = [])
    (hfinds : Finds t) : HandsOver t t.callProcess.1 t.callProcess.2.retrans2rxInit := by
  have hidle : t.callProcess.2.retrans2rxInit = [] ∧ updating t.callProcess.1.proc = [] ∧
      t.callProcess.1.inp.rx2retransUpd = t.inp.rx2retransUpd := by
    cases hs : t.proc.rtState with
    | MAIN => exact absurd hs hm
    | UPDATE_0 | UPDATE_1 => simp [updating, hs] at hno
    | INSERT_1 => simp [callProcess, processRetransmissions, hs, Roce.insert1, updating]
    | INSERT_0 | RETRANS_0 | TIMER_RETRANS_0 =>
      simp only [callProcess, processRetransmissions, hs, withPointer]
      cases t.inp.pointerRspFifo with
      | nil => simp [updating, hs]
      | cons p rest => cases hv : p.valid <;> simp [Roce.insert0, retrans0, timerRetrans0, hv, updating]
    | RETRANS_1 | RETRANS_2 =>
      simp only [callProcess, processRetransmissions, hs, withMeta]
      cases t.inp.metaRspFifo with
      | nil => simp [updating, hs]
      | cons m rest =>
        cases hv : m.valid <;> cases ht : m.isTail <;> cases hf : m.psn == t.proc.retrans.psn <;>
          simp [retrans1, retrans2, hv, ht, hf, updating]
  obtain ⟨hinit, hupd, hq⟩ := hidle
  rw [hinit]
  refine .idle ?_ (Served.of_updating hupd) ?_
  · rw [owed, hupd, hq, owed, hno]
  · cases hs : t.proc.rtState with
    | MAIN => exact absurd hs hm
    | UPDATE_0 | UPDATE_1 => simp [updating, hs] at hno
    | INSERT_1 =>
      simp only [callProcess, processRetransmissions, hs]
      exact Finds.of_state (by simp [Roce.insert1]) (by simp [Roce.insert1])
    | INSERT_0 =>
      simp only [callProcess, processRetransmissions, hs, withPointer]
      cases t.inp.pointerRspFifo with
      | nil => exact Finds.of_state (by simp [hs]) (by simp [hs])
      | cons p rest => cases hv : p.valid <;> exact Finds.of_state (by simp [Roce.insert0, hv]) (by simp [Roce.insert0, hv])
    | TIMER_RETRANS_0 =>
      simp only [callProcess, processRetransmissions, hs, withPointer]
      cases t.inp.pointerRspFifo with
      | nil => exact Finds.of_state (by simp [hs]) (by simp [hs])
      | cons p rest =>
        cases hv : p.valid <;>
          exact Finds.of_state (by simp [timerRetrans0, hv]) (by simp [timerRetrans0, hv])
    | RETRANS_2 =>
      simp only [callProcess, processRetransmissions, hs, withMeta]
      cases t.inp.metaRspFifo with
      | nil => exact Finds.of_state (by simp [hs]) (by simp [hs])
      | cons m rest =>
        cases hv : m.valid <;> cases ht : m.isTail <;>
          exact Finds.of_state (by simp [retrans2, hv, ht]) (by simp [retrans2, hv, ht])
    | RETRANS_0 =>
      have hfinds' : listRun t.taken t.proc.retrans.qpn = [] ∨ Known t := by simpa [Finds, hs] using hfinds
      simp only [callProcess, processRetransmissions, hs, withPointer]
      cases hrsp : t.inp.pointerRspFifo with
      | nil => simpa [Finds, hs, begun, Known] using hfinds'
      | cons p rest =>
        obtain ⟨hp, -, -⟩ := h.pointer.answer (r := ⟨t.proc.retrans.qpn, false⟩) (by simp [asked, hs]) hrsp
        cases hv : p.valid with
        | false => exact Finds.of_state (by simp [retrans0, hv]) (by simp [retrans0, hv])
        | true =>
          -- the list of valid pointers is not empty
          have hops : t.taken = ops := by
            rw [h.taken]
            simp [unfinished, hs]
          obtain ⟨l, hl, -⟩ := h.lists.head (by rw [← hp]; exact hv)
          have hne : listRun t.taken t.proc.retrans.qpn ≠ [] := by
            rw [hops, ← h.lists.entries, hl]
            simp
          simpa [Finds, retrans0, hv, begun, hs, Known] using hfinds'.resolve_left hne
    | RETRANS_1 =>
      have hfinds' : Known t := by simpa [Finds, hs] using hfinds
      simp only [callProcess, processRetransmissions, hs, withMeta]
      cases t.inp.metaRspFifo with
      | nil => simpa [Finds, hs, begun, Known] using hfinds'
      | cons m rest =>
        cases hv : m.valid <;> cases ht : m.isTail <;> cases hf : m.psn == t.proc.retrans.psn <;>
          simp only [retrans1, hv, ht, hf, if_true, Bool.false_eq_true, if_false, begun, hs, List.append_nil] <;>
          first
          | exact hfinds'
          | trivial

/-- A call takes the first request of the queue pair for an address, if the lists have the read. -/
theorem callProcess_handsOver (h : Inv t cells ops) (hserved : Served t) (hfinds : Finds t)
    (hun : t.unanswered = false) (hkn : t.unknown = false) :
    HandsOver t t.callProcess.1 t.callProcess.2.retrans2rxInit := by
  cases hs : t.proc.rtState with
  | MAIN => exact main_handsOver hs hserved hfinds hun hkn
  | UPDATE_0 => exact update0_handsOver h hs hserved hfinds
  | UPDATE_1 => exact update1_handsOver h hs hserved hfinds
  | INSERT_0 | INSERT_1 | RETRANS_0 | RETRANS_1 | RETRANS_2 | TIMER_RETRANS_0 =>
    exact other_handsOver h (by simp [hs]) (by simp [updating, hs]) hfinds

end RetransNet

/-! ## The packets `rx_ibh_fsm` passes on -/

/-- The first packet of a response. -/
def IbhMeta.starts (m : IbhMeta) : Bool := startsReadResp m.opCode

/-- What the retransmitter is told of the packet. -/
def IbhMeta.update (m : IbhMeta) : RetransUpdate := ⟨m.destQp.setWidth 16, m.psn, m.opCode⟩

theorem checkIfResponse_of_starts {op : IbOpCode} (h : startsReadResp op = true) : checkIfResponse op = true := by
  simp only [startsReadResp, Bool.or_eq_true, beq_iff_eq] at h
  rcases h with h | h <;> rw [h] <;> rfl

/-- Without a negative acknowledgement, the retransmitter is told of a response that is passed on. -/
theorem process_starts (m : IbhMeta) (emeta : ExhMeta) (r : RxStateRsp)
    (h : inOrder m r = true → m.starts = true → emeta.isNak = false) :
    ((process m emeta (checkIfResponse m.opCode) r).metaOut.filter IbhMeta.starts).map IbhMeta.update =
      (process m emeta (checkIfResponse m.opCode) r).rx2retransUpd.filter
        fun u => startsReadResp u.opCode := by
  have hforward : m.forward.starts = m.starts := rfl
  unfold process
  split
  · next hin =>
      simp only [processInOrder]
      cases hs : m.starts with
      | true =>
        have hop : startsReadResp m.opCode = true := hs
        simp [checkIfResponse_of_starts hop, h hin hs, hforward, hs, hop]
        rfl
      | false =>
        have hop : startsReadResp m.opCode = false := hs
        by_cases hacked : (checkIfResponse m.opCode && !emeta.isNak) = true <;> simp [hacked, hforward, hs, hop]
  · split
    · unfold processDuplicate
      split
      · next hreq =>
          have hno : m.starts = false := by simp [IbhMeta.starts, hreq, startsReadResp]
          simp [hforward, hno]
      · split <;> rfl
    · unfold processInvalid
      split <;> rfl

/-! ## The network -/

/-- An address, with the update it answers and the head of the queue pair's list at that time. -/
structure InitMade where
  update : RetransUpdate
  head : Option RetransEntry
  init : RetransRdInit

/-- It is the address of the read that the packet answers, the first request of the queue pair. -/
def InitMade.FromHead (i : InitMade) : Prop :=
  ∃ e, i.head = some e ∧ e.opCode = RC_RDMA_READ_REQUEST ∧ e.psn = i.update.latestAckedReq ∧
    i.init = ⟨e.localAddr, e.lst⟩

structure HandOver where
  ibh : RxIbhFsm := {}
  ibhIn : RxIbhFsmIn := {}
  states : Qpn → StateTableEntry := fun _ => {}
  statesIn : StateTableIn := {}
  retrans : RetransNet := {}
  exh : RxExhFsm := {}
  exhIn : RxExhFsmIn := {}
  msn : Qpn → DmaState := fun _ => {}
  msnIn : MsnTableIn := {}
  /-- The first packets of responses that were passed on. -/
  passed : List IbhMeta := []
  made : List InitMade := []
  /-- The packets that took an address. -/
  used : List (IbhMeta × RetransRdInit) := []

/-- Packets, and the requests of the transmit path and the host, come at any time. -/
inductive HandOverLabel where
  | ibh (m : IbhMeta)
  | exhMeta (e : ExhMeta)
  | udpLength (n : BitVec 16)
  | header (h : BitVec RETH_SIZE)
  | rxIbhFsm
  | stateTable
  | txStateReq (r : TxStateReq)
  | ifStateReq (r : IfStateReq)
  | rxExhFsm
  | msnTable
  | txMsnReq (qpn : Qpn)
  | ifMsnReq (r : IfMsnReq)
  | insert (e : RetransEntry)
  | timer (r : Retransmission)
  | process
  | pointerTable
  | metaTable
  | freelist

namespace HandOver

def callIbh (t : HandOver) : HandOver :=
  let (ibh, ibhIn, out) := rxIbhFsm t.ibh t.ibhIn
  { t with
    ibh, ibhIn
    statesIn := { t.statesIn with
      rxIbh2stateTableUpdReq := t.statesIn.rxIbh2stateTableUpdReq ++ out.stateTableUpdReq }
    retrans := { t.retrans with inp := { t.retrans.inp with
      rx2retransUpd := t.retrans.inp.rx2retransUpd ++ out.rx2retransUpd } }
    exhIn := { t.exhIn with metaIn := t.exhIn.metaIn ++ out.metaOut }
    passed := t.passed ++ out.metaOut.filter IbhMeta.starts }

def callStateTable (t : HandOver) : HandOver :=
  let (states, statesIn, out) := stateTable t.states t.statesIn
  { t with
    states, statesIn
    ibhIn := { t.ibhIn with stateTableRsp := t.ibhIn.stateTableRsp ++ out.stateTable2rxIbhRsp } }

/-- The packet that takes an address in this call. -/
def taking (s s' : RxExhFsm) : List (IbhMeta × RetransRdInit) :=
  if s.peFsmState = .DMA_META ∧ s'.peFsmState = .DATA ∧ s.consumeReadInit then [(s.metaReg, s'.readReqInit)]
  else []

def callExh (t : HandOver) : HandOver :=
  let (exh, exhIn, out) := rxExhFsm t.exh t.exhIn
  { t with
    exh, exhIn
    msnIn := { t.msnIn with
      rxExh2msnTableUpdReq := t.msnIn.rxExh2msnTableUpdReq ++ out.rxExh2msnTableUpdReq }
    retrans := { t.retrans with inp := { t.retrans.inp with
      rx2retransReq := t.retrans.inp.rx2retransReq ++ out.rx2retransReq } }
    used := t.used ++ taking t.exh exh }

def callMsnTable (t : HandOver) : HandOver :=
  let (msn, msnIn, out) := msnTable t.msn t.msnIn
  { t with
    msn, msnIn
    exhIn := { t.exhIn with msnTable2rxExhRsp := t.exhIn.msnTable2rxExhRsp ++ out.msnTable2rxExhRsp } }

def callProcess (t : HandOver) : HandOver :=
  let (retrans, out) := t.retrans.callProcess
  let u := t.retrans.proc.update
  { t with
    retrans
    exhIn := { t.exhIn with retrans2rxInit := t.exhIn.retrans2rxInit ++ out.retrans2rxInit }
    made := t.made ++ out.retrans2rxInit.map fun r =>
      ⟨u, (listRun t.retrans.taken.dropLast u.qpn).head?, r⟩ }

/-- Another label of the retransmitter. -/
def other (t : HandOver) (b : RetransLabel) : Option HandOver :=
  (t.retrans.step b).map fun retrans => { t with retrans }

def step (t : HandOver) : HandOverLabel → Option HandOver
  | .ibh m => some { t with ibhIn := { t.ibhIn with metaIn := t.ibhIn.metaIn ++ [m] } }
  | .exhMeta e => some { t with ibhIn := { t.ibhIn with exhMetaFifo := t.ibhIn.exhMetaFifo ++ [e] } }
  | .udpLength n => some { t with exhIn := { t.exhIn with udpLengthFifo := t.exhIn.udpLengthFifo ++ [n] } }
  | .header h => some { t with exhIn := { t.exhIn with headerInput := t.exhIn.headerInput ++ [h] } }
  | .rxIbhFsm => some t.callIbh
  | .stateTable => some t.callStateTable
  | .txStateReq r => some { t with statesIn := { t.statesIn with
      txIbh2stateTableUpdReq := t.statesIn.txIbh2stateTableUpdReq ++ [r] } }
  | .ifStateReq r => some { t with statesIn := { t.statesIn with
      qpi2stateTableUpdReq := t.statesIn.qpi2stateTableUpdReq ++ [r] } }
  | .rxExhFsm => some t.callExh
  | .msnTable => some t.callMsnTable
  | .txMsnReq qpn => some { t with msnIn := { t.msnIn with
      txExh2msnTableReq := t.msnIn.txExh2msnTableReq ++ [qpn] } }
  | .ifMsnReq r => some { t with msnIn := { t.msnIn with if2msnTableInit := t.msnIn.if2msnTableInit ++ [r] } }
  | .insert e => t.other (.insert e)
  | .timer r => t.other (.timer r)
  | .process => some t.callProcess
  | .pointerTable => t.other .pointerTable
  | .metaTable => t.other .metaTable
  | .freelist => t.other .freelist

/-! ## Matching -/

def waiting (t : HandOver) : List IbhMeta :=
  if t.exh.peFsmState = .DMA_META ∧ t.exh.metaReg.starts then [t.exh.metaReg] else []

/-- First packets that `rx_exh_fsm` has not taken yet. -/
def queued (t : HandOver) : List IbhMeta := t.exhIn.metaIn.filter IbhMeta.starts

/-- Packets and addresses match: every packet that was passed on has its address, made of the first request of
its queue pair, or the retransmitter still owes it; the packets take them in order, and none is left over. -/
structure HandedOver (t : HandOver) : Prop where
  matched : t.passed.map IbhMeta.update = t.made.map (·.update) ++ t.retrans.owed
  fromHead : ∀ i ∈ t.made, i.FromHead
  order : t.passed = t.used.map (·.1) ++ t.waiting ++ t.queued
  inits : t.made.map (·.init) = t.used.map (·.2) ++ t.exhIn.retrans2rxInit
  left : t.exhIn.retrans2rxInit.length + t.retrans.owed.length = t.waiting.length + t.queued.length
  /-- The buffer is that of the read with the number of the packet. -/
  buffer : ∀ p ∈ t.used, ∃ i ∈ t.made, i.update = p.1.update ∧ i.init = p.2 ∧ i.FromHead
  /-- State `DATA` stores the packet there. -/
  stored : t.exh.peFsmState = .DATA → t.exh.metaReg.starts = true → (t.exh.metaReg, t.exh.readReqInit) ∈ t.used
  /-- Without new requests the retransmitter comes to rest. -/
  ends : Acc RetransNet.Moves t.retrans
  /-- At rest, a packet that waits has its address. -/
  served : t.retrans.Resting → t.waiting ≠ [] → t.exhIn.retrans2rxInit ≠ []

/-- `rx_ibh_fsm` is about to accept the first packet of a response with a negative acknowledgement. -/
def nakStarts (t : HandOver) : Bool :=
  match t.ibh.fsmState, t.ibhIn.stateTableRsp with
  | .PROCESS, r :: _ => inOrder t.ibh.metaReg r && t.ibh.metaReg.starts && t.ibh.emeta.isNak
  | _, _ => false

/-- No first packet carries a negative acknowledgement, every one answers the first request of its queue pair,
and retransmissions are asked for from a request of the list. -/
def regular (t : HandOver) : HandOverLabel → Bool
  | .rxIbhFsm => !t.nakStarts
  | .process => !t.retrans.unanswered && !t.retrans.unknown
  | _ => true

/-! ## The invariant -/

variable {t u : HandOver}

structure Inv (t : HandOver) : Prop where
  retrans : ∃ cells ops l, RetransNet.Inv t.retrans cells ops ∧ RetransNet.Walks t.retrans l
  serves : t.retrans.Served
  finds : t.retrans.Finds
  response : t.ibh.fsmState = .PROCESS → t.ibh.isResponse = checkIfResponse t.ibh.metaReg.opCode
  consume : t.exh.peFsmState = .DMA_META → t.exh.consumeReadInit = t.exh.metaReg.starts
  matched : t.passed.map IbhMeta.update = t.made.map (·.update) ++ t.retrans.owed
  fromHead : ∀ i ∈ t.made, i.FromHead
  order : t.passed = t.used.map (·.1) ++ t.waiting ++ t.queued
  inits : t.made.map (·.init) = t.used.map (·.2) ++ t.exhIn.retrans2rxInit
  stored : t.exh.peFsmState = .DATA → t.exh.metaReg.starts = true → (t.exh.metaReg, t.exh.readReqInit) ∈ t.used

theorem Inv.request (inp : ProcessRetransIn) (h : Inv t) (hp : inp.pointerRspFifo = t.retrans.inp.pointerRspFifo)
    (hm : inp.metaRspFifo = t.retrans.inp.metaRspFifo) (hf : inp.freeListFifo = t.retrans.inp.freeListFifo) :
    (∃ cells ops l, RetransNet.Inv { t.retrans with inp } cells ops ∧
      RetransNet.Walks { t.retrans with inp } l) ∧
      RetransNet.Served { t.retrans with inp } ∧ RetransNet.Finds { t.retrans with inp } := by
  obtain ⟨cells, ops, l, hinv, hwalks⟩ := h.retrans
  cases inp
  cases hp
  cases hm
  cases hf
  exact ⟨⟨cells, ops, l, { hinv with cell := { hinv.cell with }, lock := { hinv.lock with } },
    hwalks.same rfl rfl rfl rfl rfl⟩, h.serves, h.finds⟩

theorem Inv.ibh (h : Inv t) (hok : t.nakStarts = false) : Inv t.callIbh := by
  obtain ⟨hretrans, hserves, hfinds⟩ := h.request t.callIbh.retrans.inp rfl rfl rfl
  rcases rxIbhFsm_cases t.ibh t.ibhIn with ⟨m, ms, e, es, hs, hm, he, hcall⟩ | ⟨r, rs, hs, hr, hcall⟩ | hcall
  · simp only [callIbh, hcall, List.filter_nil, List.append_nil]
    exact { h with response := fun _ => rfl }
  · have hstarts := process_starts t.ibh.metaReg t.ibh.emeta r (by
      intro hin hst
      simpa [nakStarts, hs, hr, hin, hst] using hok)
    rw [← h.response hs] at hstarts
    have hst : t.callIbh.ibh.fsmState = .LOAD := by simp [callIbh, hcall]
    have hpassed : t.callIbh.passed = t.passed ++
        (process t.ibh.metaReg t.ibh.emeta t.ibh.isResponse r).metaOut.filter IbhMeta.starts := by
      simp [callIbh, hcall]
    have howed : t.callIbh.retrans.owed = t.retrans.owed ++
        (process t.ibh.metaReg t.ibh.emeta t.ibh.isResponse r).rx2retransUpd.filter
          fun u => startsReadResp u.opCode := by
      simp [callIbh, hcall, RetransNet.owed]
    have hqueued : t.callIbh.queued = t.queued ++
        (process t.ibh.metaReg t.ibh.emeta t.ibh.isResponse r).metaOut.filter IbhMeta.starts := by
      simp [callIbh, hcall, queued]
    refine ⟨hretrans, hserves, hfinds, ?_, h.consume, ?_, h.fromHead, ?_, h.inits, h.stored⟩
    · rw [hst]
      intro hc
      cases hc
    · rw [hpassed, howed, List.map_append, hstarts, h.matched, List.append_assoc]
      rfl
    · rw [hpassed, hqueued, h.order, List.append_assoc _ _ (List.filter _ _)]
      rfl
  · have hidle : t.callIbh = t := by simp [callIbh, hcall]
    rw [hidle]
    exact h

/-- State `DMA_META` goes on when the entry, the length and, for a first packet, an address are there. -/
theorem rxExhFsm_dmaMeta {s : RxExhFsm} (i : RxExhFsmIn) (hs : s.peFsmState = .DMA_META) :
    rxExhFsm s i = (s, i, {}) ∨
    ∃ dmaMeta rsps udpLength lengths, i.msnTable2rxExhRsp = dmaMeta :: rsps ∧
      i.udpLengthFifo = udpLength :: lengths ∧
      (s.consumeReadInit = false ∧ rxExhFsm s i = ({ s with peFsmState := .DATA, dmaMeta, udpLength },
        { i with msnTable2rxExhRsp := rsps, udpLengthFifo := lengths }, {}) ∨
      s.consumeReadInit = true ∧ ∃ init inits, i.retrans2rxInit = init :: inits ∧
        rxExhFsm s i = ({ s with peFsmState := .DATA, dmaMeta, udpLength, readReqInit := init },
          { i with msnTable2rxExhRsp := rsps, udpLengthFifo := lengths, retrans2rxInit := inits }, {})) := by
  cases hmsn : i.msnTable2rxExhRsp with
  | nil => exact .inl (by simp [rxExhFsm, hs, hmsn])
  | cons dmaMeta rsps =>
    cases hlen : i.udpLengthFifo with
    | nil => exact .inl (by simp [rxExhFsm, hs, hmsn, hlen])
    | cons udpLength lengths =>
      cases hc : s.consumeReadInit with
      | false =>
        exact .inr ⟨dmaMeta, rsps, udpLength, lengths, rfl, rfl, .inl ⟨rfl, by simp [rxExhFsm, hs, hmsn, hlen, hc]⟩⟩
      | true =>
        cases hinit : i.retrans2rxInit with
        | nil => exact .inl (by simp [rxExhFsm, hs, hmsn, hlen, hc, hinit])
        | cons init inits =>
          exact .inr ⟨dmaMeta, rsps, udpLength, lengths, rfl, rfl, .inr ⟨rfl, init, inits, rfl,
            by simp [rxExhFsm, hs, hmsn, hlen, hc, hinit]⟩⟩

theorem Inv.exh (h : Inv t) : Inv t.callExh := by
  obtain ⟨hretrans, hserves, hfinds⟩ := h.request t.callExh.retrans.inp rfl rfl rfl
  have horder := h.order
  have hinits := h.inits
  cases hs : t.exh.peFsmState with
  | META =>
    cases hm : t.exhIn.metaIn with
    | nil =>
      have hcall : t.callExh = t := by simp [callExh, rxExhFsm, hs, hm, taking]
      rw [hcall]
      exact h
    | cons m ms =>
      cases hh : t.exhIn.headerInput with
      | nil =>
        have hcall : t.callExh = t := by simp [callExh, rxExhFsm, hs, hm, hh, taking]
        rw [hcall]
        exact h
      | cons header headers =>
        have hcall : t.callExh = { t with
            exh := { t.exh with
              peFsmState := .DMA_META, metaReg := m, exHeader := header
              consumeReadInit := startsReadResp m.opCode }
            exhIn := { t.exhIn with metaIn := ms, headerInput := headers }
            msnIn := { t.msnIn with
              rxExh2msnTableUpdReq := t.msnIn.rxExh2msnTableUpdReq ++ [.read m.destQp] } } := by
          simp [callExh, rxExhFsm, hs, hm, hh, taking]
        rw [hcall]
        refine ⟨h.retrans, h.serves, h.finds, h.response, fun _ => rfl, h.matched, h.fromHead, ?_, hinits,
          fun hc => by cases hc⟩
        rw [horder]
        cases hst : m.starts <;> simp [waiting, queued, hs, hm, hst]
  | DMA_META =>
    have hconsume := h.consume hs
    rcases rxExhFsm_dmaMeta t.exhIn hs with hidle |
      ⟨dmaMeta, rsps, udpLength, lengths, hmsn, hlen, ⟨hst, hgo⟩ | ⟨hst, init, inits, hinit, hgo⟩⟩
    · have hcall : t.callExh = t := by simp [callExh, hidle, taking, hs]
      rw [hcall]
      exact h
    · have hcall : t.callExh = { t with
          exh := { t.exh with peFsmState := .DATA, dmaMeta, udpLength }
          exhIn := { t.exhIn with msnTable2rxExhRsp := rsps, udpLengthFifo := lengths } } := by
        simp [callExh, hgo, hst, taking]
      have hno : t.exh.metaReg.starts = false := by rw [← hconsume, hst]
      rw [hcall]
      refine ⟨h.retrans, h.serves, h.finds, h.response, fun hc => (by cases hc), h.matched, h.fromHead, ?_,
        hinits, fun _ hst' => ?_⟩
      · rw [horder]
        simp [waiting, queued, hno]
      · rw [hno] at hst'
        cases hst'
    · have hcall : t.callExh = { t with
          exh := { t.exh with peFsmState := .DATA, dmaMeta, udpLength, readReqInit := init }
          exhIn := { t.exhIn with
            msnTable2rxExhRsp := rsps, udpLengthFifo := lengths, retrans2rxInit := inits }
          used := t.used ++ [(t.exh.metaReg, init)] } := by
        simp [callExh, hgo, hst, taking, hs]
      have hyes : t.exh.metaReg.starts = true := by rw [← hconsume, hst]
      rw [hcall]
      refine ⟨h.retrans, h.serves, h.finds, h.response, fun hc => (by cases hc), h.matched, h.fromHead, ?_, ?_,
        fun _ _ => by simp⟩
      · rw [horder]
        simp [waiting, queued, hs, hyes]
      · rw [hinits, hinit]
        simp
  | DATA =>
    cases hd : t.exh.data with
    | none =>
      have hcall : t.callExh = t := by simp [callExh, rxExhFsm, hs, hd, taking]
      rw [hcall]
      exact h
    | some out =>
      have hst : t.callExh.exh = { t.exh with peFsmState := .META } := by simp [callExh, rxExhFsm, hs, hd]
      have hkeep : t.callExh.exhIn = t.exhIn ∧ t.callExh.used = t.used := by
        simp [callExh, rxExhFsm, hs, hd, taking]
      have howed : t.callExh.retrans.owed = t.retrans.owed := by simp [callExh, RetransNet.owed]
      refine ⟨hretrans, hserves, hfinds, h.response, ?_, ?_, h.fromHead, ?_, ?_, ?_⟩
      · rw [hst]
        intro hc
        cases hc
      · rw [howed]
        exact h.matched
      · have hw : t.callExh.waiting = t.waiting := by simp [waiting, hst, hs]
        have hq : t.callExh.queued = t.queued := by simp [queued, hkeep.1]
        rw [hw, hq, hkeep.2]
        exact horder
      · rw [hkeep.1, hkeep.2]
        exact hinits
      · rw [hst]
        intro hc
        cases hc

theorem Inv.process (h : Inv t) (hok : t.retrans.unanswered = false ∧ t.retrans.unknown = false) :
    Inv t.callProcess := by
  obtain ⟨cells, ops, l, hinv, hwalks⟩ := h.retrans
  have hover := RetransNet.callProcess_handsOver hinv h.serves h.finds hok.1 hok.2
  refine ⟨?_, hover.served, hover.finds, h.response, h.consume, ?_, ?_, h.order, ?_, h.stored⟩
  · obtain ⟨cells', ops', hinv'⟩ := hinv.process rfl
    obtain ⟨l', hwalks', -⟩ := hwalks.process hinv rfl
    exact ⟨cells', ops', l', hinv', hwalks'⟩
  · rw [callProcess]
    simp only [List.map_append, List.map_map]
    rw [h.matched, hover.owed, List.append_assoc]
    rfl
  · intro i hi
    rcases List.mem_append.mp hi with hi | hi
    · exact h.fromHead i hi
    · obtain ⟨r, hr, rfl⟩ := List.mem_map.mp hi
      exact hover.head r hr
  · rw [callProcess]
    simp only [List.map_append, List.map_map]
    rw [h.inits, List.append_assoc]
    congr 2
    exact List.map_id _

theorem Inv.other {b : RetransLabel} (h : Inv t) (hs : t.other b = some u)
    (hb : ∀ v, t.retrans.step b = some v → v.proc = t.retrans.proc ∧ v.taken = t.retrans.taken ∧
      v.inp.rx2retransUpd = t.retrans.inp.rx2retransUpd) : Inv u := by
  obtain ⟨v, hv, rfl⟩ := Option.map_eq_some_iff.mp hs
  obtain ⟨hproc, htaken, hupd⟩ := hb v hv
  obtain ⟨cells, ops, l, hinv, hwalks⟩ := h.retrans
  refine { h with retrans := ?_, serves := ?_, finds := ?_, matched := ?_ }
  · obtain ⟨cells', ops', hinv'⟩ := RetransNet.inv_step hinv hv
    obtain ⟨l', hwalks'⟩ := RetransNet.walks_step hinv hwalks hv
    exact ⟨cells', ops', l', hinv', hwalks'⟩
  · have hserves := h.serves
    unfold RetransNet.Served at hserves ⊢
    rw [hproc, htaken]
    exact hserves
  · have hfinds := h.finds
    unfold RetransNet.Finds RetransNet.Known at hfinds ⊢
    rw [hproc, htaken]
    exact hfinds
  · have howed : RetransNet.owed v = t.retrans.owed := by simp [RetransNet.owed, hproc, hupd]
    rw [howed]
    exact h.matched

theorem inv_step {b : HandOverLabel} (h : Inv t) (hok : t.regular b = true) (hs : t.step b = some u) : Inv u := by
  cases b with
  | rxIbhFsm =>
    cases hs
    exact h.ibh (by simpa [regular] using hok)
  | rxExhFsm =>
    cases hs
    exact h.exh
  | process =>
    cases hs
    exact h.process (by simpa [regular] using hok)
  | insert e => exact h.other hs fun v hv => by cases hv; exact ⟨rfl, rfl, rfl⟩
  | timer r => exact h.other hs fun v hv => by cases hv; exact ⟨rfl, rfl, rfl⟩
  | pointerTable => exact h.other hs fun v hv => by cases hv; exact ⟨rfl, rfl, rfl⟩
  | metaTable => exact h.other hs fun v hv => by cases hv; exact ⟨rfl, rfl, rfl⟩
  | freelist => exact h.other hs fun v hv => by cases hv; exact ⟨rfl, rfl, rfl⟩
  | ibh _ | exhMeta _ | udpLength _ | header _ | stateTable | txStateReq _ | ifStateReq _ | msnTable | txMsnReq _
  | ifMsnReq _ =>
    cases hs
    exact { h with }

theorem inv_init : Inv {} := by
  refine ⟨⟨_, _, [], RetransNet.inv_init, rfl⟩, RetransNet.Served.of_updating rfl, trivial,
    fun hc => (by cases hc), fun hc => (by cases hc), rfl, fun i hi => (List.not_mem_nil hi).elim, rfl, rfl,
    fun hc => (by cases hc)⟩

theorem taken_in_order {α β γ δ : Type} {f : α → γ} {f' : β → γ} {g : α → δ} {g' : β → δ} {as : List α}
    {bs : List β} {more rest : List γ} {left : List δ} (hf : as.map f ++ more = bs.map f' ++ rest)
    (hg : bs.map g' = as.map g ++ left) : ∀ a ∈ as, ∃ b ∈ bs, f' b = f a ∧ g' b = g a := by
  induction as generalizing bs with
  | nil => simp
  | cons a as ih =>
    cases bs with
    | nil => simp at hg
    | cons b bs =>
      simp only [List.map_cons, List.cons_append, List.cons.injEq] at hf hg
      intro x hx
      rcases List.mem_cons.mp hx with rfl | hx
      · exact ⟨b, List.mem_cons_self, hf.1.symm, hg.1⟩
      · obtain ⟨y, hy, hxy⟩ := ih hf.2 hg.2 x hx
        exact ⟨y, List.mem_cons_of_mem b hy, hxy⟩

theorem Inv.handedOver (h : Inv t) : HandedOver t := by
  obtain ⟨cells, ops, l, hinv, hwalks⟩ := h.retrans
  have hleft : t.exhIn.retrans2rxInit.length + t.retrans.owed.length = t.waiting.length + t.queued.length := by
    have hpassed := congrArg List.length h.matched
    have horder := congrArg List.length h.order
    have hinits := congrArg List.length h.inits
    simp only [List.length_map, List.length_append] at hpassed horder hinits
    omega
  refine ⟨h.matched, h.fromHead, h.order, h.inits, hleft, ?_, h.stored, hwalks.acc hinv, ?_⟩
  · have hmatched := h.matched
    rw [h.order, List.map_append, List.map_append, List.map_map, List.append_assoc] at hmatched
    intro p hp
    obtain ⟨i, hi, hupd, hinit⟩ := taken_in_order hmatched h.inits p hp
    exact ⟨i, hi, hupd, hinit, h.fromHead i hi⟩
  · intro hrest hwait hnil
    have howed : t.retrans.owed ≠ [] := by
      intro hno
      rw [hnil, hno] at hleft
      have hpos := List.length_pos_of_ne_nil hwait
      simp only [List.length_nil] at hleft
      omega
    rcases hrest.main hinv hwalks with ⟨hmain, hupd⟩ | ⟨hret, hunknown⟩
    · exact howed (by simp [RetransNet.owed, RetransNet.updating, hmain, hupd])
    · have hfinds := h.finds
      simp only [RetransNet.Finds, hret] at hfinds
      exact hunknown hfinds

/-- As long as every first packet of a response that is accepted carries no negative acknowledgement and
answers the first request of its queue pair, and the numbers to be retransmitted are in the lists, packets and
addresses match in every state, and no packet waits for ever. -/
theorem read_resp_handed_over (h : Reach step (fun t l => t.regular l = true) {} t) : t.HandedOver :=
  (h.invariant (P := Inv) inv_init fun _ _ _ hu hok hs => inv_step hu hok hs).handedOver

/-- Queue pair `qpn` is connected, and a read of one packet is posted on it. -/
def postRead (qpn : Qpn) (psn : BitVec 24) (laddr : BitVec 64) : List HandOverLabel :=
  [.ifStateReq ⟨qpn, psn, 0, true⟩, .stateTable, .freelist,
    .insert ⟨qpn, psn, RC_RDMA_READ_REQUEST, laddr, 0x8000, 64, 1, 0⟩, .txStateReq ⟨qpn, psn + 1, true⟩, .stateTable,
    .process, .pointerTable, .process, .pointerTable, .metaTable]

/-- A response of one packet arrives and is accepted. -/
def respond (qpn psn : BitVec 24) : List HandOverLabel :=
  [.ibh ⟨RC_RDMA_READ_RESP_ONLY, 0, qpn, psn, true, 1⟩, .exhMeta ⟨false, 1⟩, .udpLength 92, .header 0,
    .rxIbhFsm, .stateTable, .rxIbhFsm, .stateTable, .rxExhFsm, .msnTable,
    .process, .pointerTable, .process, .pointerTable, .metaTable, .process, .pointerTable, .rxExhFsm]

/-- A response to queue pair 1, which has nothing posted, waits for an address, and takes that of the read on
queue pair 2 when its response arrives. -/
theorem unsolicited_takes_init : ∃ t, Reach step anyStep {} t ∧
    t.used.map (fun p => (p.1.destQp, p.2)) = [(1, ⟨0x5000, 1⟩)] ∧
    t.made.map (fun i => (i.update.qpn, i.head.map (·.localAddr))) = [(2, some 0x5000)] ∧ ¬ t.HandedOver := by
  have h : (run step {} ([.ifStateReq ⟨1, 10, 0, true⟩, .stateTable] ++ postRead 2 40 0x5000 ++ respond 1 10 ++
      respond 2 40)).map (fun t => (t.used.map fun p => (p.1.destQp, p.2),
        t.made.map fun i => (i.update.qpn, i.head.map (·.localAddr)),
        t.passed.length, t.made.length + t.retrans.owed.length)) =
      some ([(1, ⟨0x5000, 1⟩)], [(2, some 0x5000)], 2, 1) := by
    decide +kernel
  obtain ⟨t, ht, hx⟩ := Option.map_eq_some_iff.mp h
  simp only [Prod.mk.injEq] at hx
  obtain ⟨hused, hmade, hpassed, hlen⟩ := hx
  refine ⟨t, reach_of_run ht, hused, hmade, fun hover => ?_⟩
  have hmatched := congrArg List.length hover.matched
  simp only [List.length_map, List.length_append] at hmatched
  omega

theorem read_resp_handed_over_read :
    ∃ t, runIf step (fun t l => t.regular l = true) {} (postRead 2 40 0x5000 ++ respond 2 40) = some t ∧
      t.used.map (fun p => (p.1.destQp, p.2)) = [(2, ⟨0x5000, 1⟩)] ∧ t.HandedOver := by
  have h : (runIf step (fun t l => t.regular l = true) {} (postRead 2 40 0x5000 ++ respond 2 40)).map
      (fun t => t.used.map fun p => (p.1.destQp, p.2)) = some [(2, ⟨0x5000, 1⟩)] := by
    decide +kernel
  obtain ⟨t, ht, hx⟩ := Option.map_eq_some_iff.mp h
  exact ⟨t, ht, hx, read_resp_handed_over (reach_of_runIf ht)⟩

end HandOver

end FpgaNetworkStack.Roce
