import FpgaNetworkStack.Roce.RetransNet

/-!
# The retransmitter comes to rest

Without new requests the calls of the retransmitter's processes come to an end: each one that does anything
uses up a request, or a cell of the list the state machine walks along.  At rest `process_retransmissions`
waits in `MAIN` for a request, or for ever in `RETRANS_1`, at the end of a list without the number it was
asked for.
-/

namespace FpgaNetworkStack.Roce

open Lib

/-- A call of one of the processes; the other labels are requests. -/
def RetransLabel.isCall : RetransLabel → Bool
  | .process | .pointerTable | .metaTable | .freelist => true
  | _ => false

namespace RetransNet

variable {t u : RetransNet} {cells : Qpn → List MetaIdx} {ops : List RetransOp} {l : List MetaIdx}
  {c : MetaIdx}

/-! ## Walks along a list -/

/-- Cell `c` was asked for, or it is the answer. -/
def Awaits (t : RetransNet) (c : MetaIdx) : Prop :=
  (∃ ws, (∀ w ∈ ws, isWrite w = true) ∧ t.metaReq = ws ++ [.read c] ∧ t.inp.metaRspFifo = []) ∨
    t.metaReq = [] ∧ t.inp.metaRspFifo = [t.settledMeta c]

/-- The cells `l` are in front of the walk. -/
structure Walk (t : RetransNet) (l : List MetaIdx) : Prop where
  valid : ∀ i ∈ l, (t.settledMeta i).valid = true
  chain : ∃ c tail, Awaits t c ∧
    Chain (fun i => (t.settledMeta i).next) (fun i => (t.settledMeta i).isTail) c tail l

/-- The list has a request with the number to be retransmitted. -/
def Known (t : RetransNet) : Prop :=
  ∃ e ∈ listRun t.taken t.proc.retrans.qpn, e.psn = t.proc.retrans.psn

def Ahead (t : RetransNet) (l : List MetaIdx) : Prop :=
  ∃ i ∈ l, (t.settledMeta i).psn = t.proc.retrans.psn

def Hangs (t : RetransNet) : Prop := t.inp.metaRspFifo = [] ∧ ∀ r ∈ t.metaReq, isWrite r = true

def Walks (t : RetransNet) (l : List MetaIdx) : Prop :=
  match t.proc.rtState with
  | .RETRANS_1 => Walk t l ∧ (Known t → Ahead t l) ∨ l = [] ∧ Hangs t ∧ ¬ Known t
  | .RETRANS_2 => Walk t l
  | _ => l = []

theorem Walks.congr (h : Walks t l) (hproc : u.proc = t.proc) (hmeta : u.settledMeta = t.settledMeta)
    (htaken : u.taken = t.taken) (hawaits : ∀ c, Awaits t c → Awaits u c) (hhangs : Hangs t → Hangs u) :
    Walks u l := by
  have hwalk : Walk t l → Walk u l := by
    rintro ⟨hvalid, c, tail, hc, hchain⟩
    exact ⟨by rw [hmeta]; exact hvalid, c, tail, hawaits c hc, by rw [hmeta]; exact hchain⟩
  have hknown : Known u = Known t := by unfold Known; rw [htaken, hproc]
  have hahead : Ahead u l = Ahead t l := by unfold Ahead; rw [hmeta, hproc]
  unfold Walks at h ⊢
  rw [hproc, hknown, hahead]
  split at h
  · rcases h with ⟨hw, hk⟩ | ⟨hl, hh, hk⟩
    · exact .inl ⟨hwalk hw, hk⟩
    · exact .inr ⟨hl, hhangs hh, hk⟩
  · exact hwalk h
  · exact h

theorem Walks.same (h : Walks t l) (hproc : u.proc = t.proc) (hreq : u.metaReq = t.metaReq)
    (hrsp : u.inp.metaRspFifo = t.inp.metaRspFifo) (htable : u.metaTable = t.metaTable)
    (htaken : u.taken = t.taken) : Walks u l := by
  have hmeta : u.settledMeta = t.settledMeta := by simp [settledMeta, htable, hreq, hproc]
  refine h.congr hproc hmeta htaken (fun c hc => ?_) fun hh => ?_
  · unfold Awaits
    rw [hreq, hrsp, hmeta]
    exact hc
  · unfold Hangs
    rw [hreq, hrsp]
    exact hh

theorem Walks.serve {req : RetransMetaReq} {rest : List RetransMetaReq} (h : Walks t l)
    (hreq : t.metaReq = req :: rest) (hu : u = { t with
      metaTable := req.apply t.metaTable
      metaReq := rest
      inp := { t.inp with metaRspFifo := t.inp.metaRspFifo ++ req.reply t.metaTable } }) : Walks u l := by
  have hmeta : u.settledMeta = t.settledMeta := by simp [settledMeta, hu, hreq]
  by_cases hwalk : t.proc.rtState = .RETRANS_1 ∨ t.proc.rtState = .RETRANS_2
  swap
  · rw [not_or] at hwalk
    unfold Walks at h ⊢
    have hproc : u.proc = t.proc := by rw [hu]
    rw [hproc]
    split at h <;> simp_all
  have htodo : todo t.proc = {} := by rcases hwalk with hs | hs <;> simp [todo, hs]
  refine h.congr (by rw [hu]) hmeta (by rw [hu]) ?_ ?_
  · rintro c (⟨ws, hws, hw, hrsp⟩ | ⟨hnil, -⟩)
    · rw [hreq] at hw
      cases ws with
      | nil =>
        -- the read itself
        rw [List.nil_append, List.cons.injEq] at hw
        refine .inr ⟨by rw [hu]; exact hw.2, ?_⟩
        simp [settledMeta, hu, hrsp, hw.1, hw.2, htodo, RetransMetaReq.reply, RetransMetaReq.apply]
      | cons w ws =>
        rw [List.cons_append, List.cons.injEq] at hw
        have hwr := hws w List.mem_cons_self
        have hreply : req.reply t.metaTable = [] := by
          rw [hw.1]
          cases w <;> first | rfl | cases hwr
        refine .inl ⟨ws, fun x hx => hws x (List.mem_cons_of_mem _ hx), by rw [hu]; exact hw.2, ?_⟩
        rw [hu]
        simp [hrsp, hreply]
    · rw [hreq] at hnil
      cases hnil
  · rintro ⟨hrsp, hws⟩
    have hwr := hws req (by rw [hreq]; exact List.mem_cons_self)
    have hreply : req.reply t.metaTable = [] := by cases req <;> first | rfl | cases hwr
    rw [hu]
    exact ⟨by simp [hrsp, hreply], fun x hx => hws x (by rw [hreq]; exact List.mem_cons_of_mem _ hx)⟩

/-- The answer that is there is the first cell of the walk. -/
theorem Walk.answer {m : RetransMetaEntry} {rest : List RetransMetaEntry} (h : Walk t l)
    (hrsp : t.inp.metaRspFifo = m :: rest) :
    ∃ c l', l = c :: l' ∧ m = t.settledMeta c ∧ rest = [] ∧ t.metaReq = [] ∧ m.valid = true ∧
      m.isTail = l'.isEmpty ∧ (l' ≠ [] → ∃ tail, Chain (fun i => (t.settledMeta i).next)
        (fun i => (t.settledMeta i).isTail) m.next tail l') := by
  obtain ⟨hvalid, c, tail, hc, hchain⟩ := h
  rcases hc with ⟨ws, -, -, hnil⟩ | ⟨hreq, hans⟩
  · rw [hnil] at hrsp
    cases hrsp
  rw [hans, List.cons.injEq] at hrsp
  obtain ⟨hm, hrest⟩ := hrsp
  cases l with
  | nil => exact hchain.elim
  | cons x l' =>
    obtain ⟨rfl, hlast⟩ := hchain.last_head
    refine ⟨c, l', rfl, hm.symm, hrest.symm, hreq, ?_, ?_, ?_⟩
    · rw [← hm]
      exact hvalid c List.mem_cons_self
    · rw [← hm]
      exact hlast
    · intro hne
      cases l' with
      | nil => exact absurd rfl hne
      | cons y l' => exact ⟨tail, by rw [← hm]; exact hchain.pop⟩

/-! ## What is left to do -/

def requests (t : RetransNet) : Nat :=
  t.inp.rx2retransUpd.length + t.inp.rx2retransReq.length + t.inp.timer2retransReq.length +
    t.inp.tx2retransInsertRequest.length

/-- Bounds the requests of the current operation that are still to be made; `n` cells are in front of a walk. -/
def stateWork (s : RetransState) (n : Nat) : Nat :=
  match s with
  | .MAIN => 0
  | .INSERT_0 => 6
  | .INSERT_1 => 4
  | .UPDATE_0 => 5
  | .UPDATE_1 => 3
  | .RETRANS_0 | .TIMER_RETRANS_0 => 2 * META_TABLE_SIZE + 2
  | .RETRANS_1 | .RETRANS_2 => 2 * n

/-- A request counts twice, for itself and for its answer. -/
def work (t : RetransNet) (n : Nat) : Nat :=
  (2 * META_TABLE_SIZE + 5) * t.requests + stateWork t.proc.rtState n + 2 * t.ptrIn.pointerReqFifo.length +
    t.inp.pointerRspFifo.length + t.ptrIn.pointerUpdFifo.length + 2 * t.metaReq.length +
    t.inp.metaRspFifo.length + t.releaseFifo.length + (META_TABLE_SIZE - t.freeListCounter)

/-- The walk goes on, and there is less to do unless nothing has changed. -/
def Advances (t u : RetransNet) (l : List MetaIdx) : Prop :=
  ∃ l', Walks u l' ∧ (u = t ∨ u.work l'.length < t.work l.length)

theorem Walks.nil (h : t.proc.rtState ≠ .RETRANS_1) (h' : t.proc.rtState ≠ .RETRANS_2) : Walks t [] := by
  unfold Walks
  split
  · next hs => exact absurd hs h
  · next hs => exact absurd hs h'
  · rfl

theorem Walks.eq_nil (hw : Walks t l) (h : t.proc.rtState ≠ .RETRANS_1) (h' : t.proc.rtState ≠ .RETRANS_2) :
    l = [] := by
  unfold Walks at hw
  split at hw
  · next hs => exact absurd hs h
  · next hs => exact absurd hs h'
  · exact hw

theorem Walks.main (hw : Walks t l) (hm : t.proc.rtState = .MAIN) (hu : t.callProcess.1 = u) :
    Advances t u l := by
  have hl := hw.eq_nil (by simp [hm]) (by simp [hm])
  refine ⟨[], ?_⟩
  simp only [callProcess, processRetransmissions, hm] at hu
  unfold retransMain at hu
  split at hu
  · next update rest hupd =>
      rw [← hu]
      refine ⟨Walks.nil (by simp) (by simp), .inr ?_⟩
      simp only [work, requests, stateWork, hupd, hm, List.length_cons, List.length_append, List.length_nil]
      simp only [META_TABLE_SIZE]
      omega
  · next retrans rest _ hreq =>
      rw [← hu]
      refine ⟨Walks.nil (by simp) (by simp), .inr ?_⟩
      simp only [work, requests, stateWork, hreq, hm, List.length_cons, List.length_append, List.length_nil]
      simp only [META_TABLE_SIZE]
      omega
  · next retrans rest _ _ hreq =>
      rw [← hu]
      refine ⟨Walks.nil (by simp) (by simp), .inr ?_⟩
      simp only [work, requests, stateWork, hreq, hm, List.length_cons, List.length_append, List.length_nil]
      simp only [META_TABLE_SIZE]
      omega
  · next insert rest idx free' _ _ _ hins hfree =>
      rw [← hu]
      refine ⟨Walks.nil (by simp) (by simp), .inr ?_⟩
      simp only [work, requests, stateWork, hins, hm, List.length_cons, List.length_append, List.length_nil]
      simp only [META_TABLE_SIZE]
      omega
  · simp [begun, hm] at hu
    rw [← hu]
    exact ⟨Walks.nil (by simp [hm]) (by simp [hm]), .inl rfl⟩

theorem Walks.leave (hst : u.proc.rtState ≠ .RETRANS_1) (hst' : u.proc.rtState ≠ .RETRANS_2)
    (hwork : u.work 0 < t.work l.length) : Advances t u l :=
  ⟨[], Walks.nil hst hst', .inr hwork⟩

theorem Walks.entry0 (hw : Walks t l) (hs : t.proc.rtState = .INSERT_0 ∨ t.proc.rtState = .UPDATE_0)
    (hu : t.callProcess.1 = u) : Advances t u l := by
  rcases hs with hs | hs
  all_goals
    simp only [callProcess, processRetransmissions, hs, withPointer] at hu
    cases hrsp : t.inp.pointerRspFifo with
    | nil =>
      simp [hrsp, begun, hs] at hu
      exact ⟨l, by rw [← hu]; exact hw, .inl hu.symm⟩
    | cons p rest =>
      simp only [hrsp, Roce.insert0, Roce.update0] at hu
      cases hv : p.valid <;> simp [hv, begun, hs] at hu <;> rw [← hu] <;>
        refine Walks.leave (by simp) (by simp) ?_ <;>
        simp [work, requests, stateWork, hrsp, hs] <;> omega

theorem Walks.insert1 (hs : t.proc.rtState = .INSERT_1) (hu : t.callProcess.1 = u) : Advances t u l := by
  simp [callProcess, processRetransmissions, hs, begun, Roce.insert1] at hu
  rw [← hu]
  refine Walks.leave (by simp) (by simp) ?_
  simp [work, requests, stateWork, hs]
  omega

theorem Walks.update1 (hw : Walks t l) (hs : t.proc.rtState = .UPDATE_1) (hu : t.callProcess.1 = u) :
    Advances t u l := by
  simp only [callProcess, processRetransmissions, hs, withMeta] at hu
  cases hrsp : t.inp.metaRspFifo with
  | nil =>
    simp [hrsp, begun, hs] at hu
    exact ⟨l, by rw [← hu]; exact hw, .inl hu.symm⟩
  | cons m rest =>
    simp only [hrsp, Roce.update1] at hu
    cases hv : m.valid <;> cases hop : readMore t.proc.update.opCode <;>
      simp [hv, hop, begun, hs] at hu <;> rw [← hu] <;>
      refine Walks.leave (by simp) (by simp) ?_ <;>
      simp [work, requests, stateWork, hrsp, hs] <;> omega

/-! ## Steps along a list -/

theorem Walks.start {f : RetransPointerEntry → ProcessRetrans × ProcessRetransOut}
    (h : Inv t cells ops) (hw : Walks t l)
    (hs : t.proc.rtState = .RETRANS_0 ∧ f = Roce.retrans0 t.proc ∨
      t.proc.rtState = .TIMER_RETRANS_0 ∧ f = Roce.timerRetrans0 t.proc)
    (hcall : processRetransmissions t.proc t.inp = withPointer t.inp t.proc f)
    (hu : t.callProcess.1 = u) : Advances t u l := by
  have hbegun : ∀ s', begun t.proc s' = [] := by
    intro s'
    rcases hs with ⟨hs, -⟩ | ⟨hs, -⟩ <;> simp [begun, hs]
  simp only [callProcess, hcall, withPointer] at hu
  cases hrsp : t.inp.pointerRspFifo with
  | nil =>
    simp [hrsp, hbegun] at hu
    exact ⟨l, by rw [← hu]; exact hw, .inl hu.symm⟩
  | cons p rest =>
    obtain ⟨hp, -, -⟩ := h.pointer.answer (r := ⟨t.proc.retrans.qpn, false⟩)
      (by rcases hs with ⟨hs, -⟩ | ⟨hs, -⟩ <;> simp [asked, hs]) hrsp
    have hwork : stateWork t.proc.rtState l.length = 2 * META_TABLE_SIZE + 2 := by
      rcases hs with ⟨hs, -⟩ | ⟨hs, -⟩ <;> simp [stateWork, hs]
    simp only [hrsp, hbegun, List.append_nil] at hu
    cases hv : p.valid with
    | false =>
      have hf : f p = ({ t.proc with ptrMeta := p, rtState := .MAIN }, {}) := by
        rcases hs with ⟨-, hf⟩ | ⟨-, hf⟩ <;> simp [hf, Roce.retrans0, Roce.timerRetrans0, hv]
      simp only [hf, List.append_nil] at hu
      rw [← hu]
      refine Walks.leave (by simp) (by simp) ?_
      simp only [work, requests, hrsp, stateWork, List.length_cons]
      omega
    | true =>
      obtain ⟨busy, hb, hclient⟩ := h.cell.client
      have hbusy : busy = false := by
        unfold waits at hb
        rcases hs with ⟨hs, -⟩ | ⟨hs, -⟩ <;> simpa [hs] using hb
      rw [hbusy] at hclient
      have hnil := hclient.rsps_eq_nil
      have hrep := h.lists.represents t.proc.retrans.qpn
      rw [← hp, Represents, if_pos hv] at hrep
      have hf : ∃ s', f p = (s', { metaReqFifo := [.read p.head] }) ∧ s'.retrans = t.proc.retrans ∧
          (t.proc.rtState = .RETRANS_0 ∧ s'.rtState = .RETRANS_1 ∨
            t.proc.rtState = .TIMER_RETRANS_0 ∧ s'.rtState = .RETRANS_2) := by
        rcases hs with ⟨hs, hf⟩ | ⟨hs, hf⟩
        · exact ⟨{ t.proc with ptrMeta := p, curr := p.head, rtState := .RETRANS_1 },
            by simp [hf, Roce.retrans0, hv], rfl, .inl ⟨hs, rfl⟩⟩
        · exact ⟨{ t.proc with ptrMeta := p, rtState := .RETRANS_2 },
            by simp [hf, Roce.timerRetrans0, hv], rfl, .inr ⟨hs, rfl⟩⟩
      obtain ⟨s', hf, hretrans, hst⟩ := hf
      simp only [hf, List.append_nil] at hu
      have hreq : u.metaReq = t.metaReq ++ [.read p.head] := by rw [← hu]
      have htodo : todo t.proc = {} ∧ todo u.proc = {} := by
        rw [← hu]
        rcases hst with ⟨hs, hs'⟩ | ⟨hs, hs'⟩ <;> simp [todo, hs, hs']
      have hmeta : u.settledMeta = t.settledMeta := by
        simp only [settledMeta, hreq, htodo.1, htodo.2, List.append_nil, List.foldl_append]
        rw [← hu]
        rfl
      have hwalk : Walk u (cells t.proc.retrans.qpn) := by
        refine ⟨?_, p.head, p.tail, .inl ⟨t.metaReq, hclient.writes, hreq, ?_⟩, ?_⟩
        · rw [hmeta]
          exact h.lists.valid t.proc.retrans.qpn
        · rw [← hu]
          exact hnil
        · rw [hmeta]
          exact hrep
      refine ⟨cells t.proc.retrans.qpn, ?_, .inr ?_⟩
      · rcases hst with ⟨hs, hs'⟩ | ⟨hs, hs'⟩
        · have hs'' : u.proc.rtState = .RETRANS_1 := by rw [← hu]; exact hs'
          simp only [Walks, hs'']
          refine .inl ⟨hwalk, ?_⟩
          -- the cells of the list hold its requests
          rintro ⟨e, he, hpsn⟩
          have hops : t.taken = ops := by
            rw [h.taken]
            simp [unfinished, hs]
          have htaken : u.taken = t.taken := by rw [← hu]
          have hret : u.proc.retrans = t.proc.retrans := by rw [← hu]; exact hretrans
          rw [htaken, hops, hret, ← h.lists.entries, List.mem_map] at he
          obtain ⟨i, hi, rfl⟩ := he
          refine ⟨i, hi, ?_⟩
          rw [hmeta]
          exact hpsn
        · have hs'' : u.proc.rtState = .RETRANS_2 := by rw [← hu]; exact hs'
          simp only [Walks, hs'']
          exact hwalk
      · have hlen := h.length_le t.proc.retrans.qpn
        have hst' : stateWork s'.rtState (cells t.proc.retrans.qpn).length =
            2 * (cells t.proc.retrans.qpn).length := by
          rcases hst with ⟨-, hs'⟩ | ⟨-, hs'⟩ <;> simp [stateWork, hs']
        rw [← hu]
        simp only [work, requests, hrsp, hwork, hst', hnil, List.length_append, List.length_cons,
          List.length_nil]
        omega

theorem Walk.next {l' : List MetaIdx} (h : Walk t (c :: l'))
    (hchain : ∃ tail, Chain (fun i => (t.settledMeta i).next) (fun i => (t.settledMeta i).isTail)
      (t.settledMeta c).next tail l') (hmeta : u.settledMeta = t.settledMeta)
    (hreq : u.metaReq = [.read (t.settledMeta c).next]) (hrsp : u.inp.metaRspFifo = []) : Walk u l' := by
  obtain ⟨tail, hchain⟩ := hchain
  refine ⟨fun i hi => ?_, (t.settledMeta c).next, tail, .inl ⟨[], by simp, by simpa using hreq, hrsp⟩, ?_⟩
  · rw [hmeta]
    exact h.valid i (List.mem_cons_of_mem c hi)
  · rw [hmeta]
    exact hchain

theorem Walks.retrans2 (hw : Walks t l) (hs : t.proc.rtState = .RETRANS_2) (hu : t.callProcess.1 = u) :
    Advances t u l := by
  simp only [callProcess, processRetransmissions, hs, withMeta] at hu
  cases hrsp : t.inp.metaRspFifo with
  | nil =>
    simp [hrsp, begun, hs] at hu
    exact ⟨l, by rw [← hu]; exact hw, .inl hu.symm⟩
  | cons m rest =>
    simp only [Walks, hs] at hw
    obtain ⟨c, l', rfl, hm, hrest, hreq, hvalid, htail, hchain⟩ := hw.answer hrsp
    simp only [hrsp, Roce.retrans2, hvalid, if_true, hreq, hrest, begun, hs, List.append_nil,
      List.nil_append] at hu
    cases l' with
    | nil =>
      rw [List.isEmpty_nil] at htail
      simp only [htail, if_true] at hu
      rw [← hu]
      refine Walks.leave (by simp) (by simp) ?_
      simp [work, requests, stateWork, hrsp, hs]
      omega
    | cons x l' =>
      rw [List.isEmpty_cons] at htail
      simp only [htail, Bool.false_eq_true, if_false] at hu
      have hs' : u.proc.rtState = .RETRANS_2 := by rw [← hu]
      have hmeta : u.settledMeta = t.settledMeta := by
        rw [← hu]
        simp [settledMeta, hreq, todo, hs, RetransMetaReq.apply]
      refine ⟨x :: l', ?_, .inr ?_⟩
      · simp only [Walks, hs']
        refine hw.next ?_ hmeta (by rw [← hu, hm]) (by rw [← hu])
        rw [← hm]
        exact hchain (by simp)
      · rw [← hu]
        simp [work, requests, stateWork, hrsp, hs, hreq]
        omega

theorem Walks.retrans1 (hw : Walks t l) (hs : t.proc.rtState = .RETRANS_1) (hu : t.callProcess.1 = u) :
    Advances t u l := by
  simp only [callProcess, processRetransmissions, hs, withMeta] at hu
  cases hrsp : t.inp.metaRspFifo with
  | nil =>
    simp [hrsp, begun, hs] at hu
    exact ⟨l, by rw [← hu]; exact hw, .inl hu.symm⟩
  | cons m rest =>
    simp only [Walks, hs] at hw
    obtain ⟨hw, hahead⟩ := hw.resolve_right (by rintro ⟨-, ⟨hnil, -⟩, -⟩; rw [hrsp] at hnil; cases hnil)
    obtain ⟨c, l', rfl, hm, hrest, hreq, hvalid, htail, hchain⟩ := hw.answer hrsp
    simp only [hrsp, Roce.retrans1, hvalid, if_true, hreq, hrest, begun, hs, List.append_nil,
      List.nil_append] at hu
    have htaken : u.taken = t.taken := by rw [← hu]
    have hretrans : u.proc.retrans = t.proc.retrans := by rw [← hu]
    have hknown : Known u = Known t := by unfold Known; rw [htaken, hretrans]
    have hmeta : (u.metaReq = [] ∨ ∃ x, u.metaReq = [.read x]) → u.metaTable = t.metaTable →
        u.proc.rtState ≠ .INSERT_1 → u.settledMeta = t.settledMeta := by
      rintro (hq | ⟨x, hq⟩) htable hst <;>
        simp [settledMeta, hq, hreq, htable, todo, hs, hst, RetransMetaReq.apply]
    -- a number that is not the first one's is further ahead
    have hskip : (m.psn == t.proc.retrans.psn) = false → Known t → ∃ i ∈ l',
        (t.settledMeta i).psn = t.proc.retrans.psn := by
      intro hf hk
      obtain ⟨i, hi, hpsn⟩ := hahead hk
      rcases List.mem_cons.mp hi with rfl | hi
      · rw [← hm] at hpsn
        simp [hpsn] at hf
      · exact ⟨i, hi, hpsn⟩
    cases l' with
    | nil =>
      rw [List.isEmpty_nil] at htail
      cases hf : m.psn == t.proc.retrans.psn with
      | true =>
        simp only [htail, hf, if_true] at hu
        rw [← hu]
        refine Walks.leave (by simp) (by simp) ?_
        simp [work, requests, stateWork, hrsp, hs]
        omega
      | false =>
        -- nobody is asked for another cell
        simp only [htail, hf, if_true, Bool.false_eq_true, if_false] at hu
        have hs' : u.proc.rtState = .RETRANS_1 := by rw [← hu]
        refine ⟨[], ?_, .inr ?_⟩
        · simp only [Walks, hs']
          refine .inr ⟨trivial, by rw [← hu]; exact ⟨rfl, by simp⟩, ?_⟩
          rw [hknown]
          intro hk
          obtain ⟨i, hi, -⟩ := hskip hf hk
          cases hi
        · rw [← hu]
          simp [work, requests, stateWork, hrsp, hs, hreq]
          omega
    | cons x l' =>
      rw [List.isEmpty_cons] at htail
      have hnext (hst : u.proc.rtState ≠ .INSERT_1) (hq : u.metaReq = [.read m.next])
          (htable : u.metaTable = t.metaTable) (hr : u.inp.metaRspFifo = []) : Walk u (x :: l') := by
        refine hw.next ?_ (hmeta (.inr ⟨_, hq⟩) htable hst) (by rw [← hm]; exact hq) hr
        rw [← hm]
        exact hchain (by simp)
      cases hf : m.psn == t.proc.retrans.psn with
      | true =>
        simp only [htail, hf, if_true, Bool.false_eq_true, if_false] at hu
        have hs' : u.proc.rtState = .RETRANS_2 := by rw [← hu]
        refine ⟨x :: l', ?_, .inr ?_⟩
        · simp only [Walks, hs']
          exact hnext (by simp [hs']) (by rw [← hu]) (by rw [← hu]) (by rw [← hu])
        · rw [← hu]
          simp [work, requests, stateWork, hrsp, hs, hreq]
          omega
      | false =>
        simp only [htail, hf, Bool.false_eq_true, if_false] at hu
        have hs' : u.proc.rtState = .RETRANS_1 := by rw [← hu]
        have hsm := hmeta (.inr ⟨m.next, by rw [← hu]⟩) (by rw [← hu]) (by simp [hs'])
        refine ⟨x :: l', ?_, .inr ?_⟩
        · simp only [Walks, hs']
          refine .inl ⟨hnext (by simp [hs']) (by rw [← hu]) (by rw [← hu]) (by rw [← hu]), ?_⟩
          rw [hknown]
          intro hk
          unfold Ahead
          rw [hsm, hretrans]
          exact hskip hf hk
        · rw [← hu]
          simp [work, requests, stateWork, hrsp, hs, hreq]
          omega

/-! ## Runs -/

theorem Walks.process (h : Inv t cells ops) (hw : Walks t l) (hu : t.callProcess.1 = u) : Advances t u l := by
  cases hs : t.proc.rtState with
  | MAIN => exact hw.main hs hu
  | INSERT_0 => exact hw.entry0 (.inl hs) hu
  | INSERT_1 => exact Walks.insert1 hs hu
  | UPDATE_0 => exact hw.entry0 (.inr hs) hu
  | UPDATE_1 => exact hw.update1 hs hu
  | RETRANS_0 => exact hw.start h (.inl ⟨hs, rfl⟩) (by simp [processRetransmissions, hs]) hu
  | TIMER_RETRANS_0 => exact hw.start h (.inr ⟨hs, rfl⟩) (by simp [processRetransmissions, hs]) hu
  | RETRANS_1 => exact hw.retrans1 hs hu
  | RETRANS_2 => exact hw.retrans2 hs hu

theorem Walks.pointerTable (h : Inv t cells ops) (hw : Walks t l) (hs : t.step .pointerTable = some u) :
    Advances t u l := by
  simp only [step, Option.some.injEq] at hs
  have hwait := h.lock.wait
  refine ⟨l, ?_⟩
  cases hupd : t.ptrIn.pointerUpdFifo with
  | cons upd rest =>
    simp [retransPointerTable, hupd] at hs
    subst hs
    refine ⟨hw.same rfl rfl rfl rfl rfl, .inr ?_⟩
    simp [work, requests, hupd]
  | nil =>
    cases hreq : t.ptrIn.pointerReqFifo with
    | cons req rest =>
      obtain ⟨hunlocked, -⟩ := h.pointerAnswer hupd hreq
      simp [retransPointerTable, hupd, hreq, hwait, hunlocked] at hs
      subst hs
      refine ⟨hw.same rfl rfl rfl rfl rfl, .inr ?_⟩
      simp [work, requests, hupd, hreq]
      omega
    | nil =>
      simp [retransPointerTable, hupd, hreq, hwait] at hs
      rw [← hs]
      exact ⟨hw, .inl rfl⟩

theorem Walks.metaTable (hw : Walks t l) (hs : t.step .metaTable = some u) : Advances t u l := by
  simp only [step, Option.some.injEq] at hs
  refine ⟨l, ?_⟩
  cases hreq : t.metaReq with
  | nil =>
    simp [retransMetaTable, hreq] at hs
    rw [← hs, ← hreq]
    exact ⟨hw, .inl rfl⟩
  | cons req rest =>
    simp only [retransMetaTable, hreq] at hs
    refine ⟨hw.serve hreq hs.symm, .inr ?_⟩
    have hreply : (req.reply t.metaTable).length ≤ 1 := by cases req <;> simp [RetransMetaReq.reply]
    rw [← hs]
    simp only [work, requests, hreq, List.length_append, List.length_cons]
    omega

theorem Walks.freelist (hw : Walks t l) (hs : t.step .freelist = some u) : Advances t u l := by
  simp only [step, Option.some.injEq] at hs
  refine ⟨l, ?_⟩
  cases hrel : t.releaseFifo with
  | cons idx rest =>
    simp only [freelistHandler, hrel] at hs
    subst hs
    refine ⟨hw.same rfl rfl rfl rfl rfl, .inr ?_⟩
    simp [work, requests, hrel]
  | nil =>
    simp only [freelistHandler, hrel] at hs
    split at hs
    · next hc =>
        subst hs
        refine ⟨hw.same rfl rfl rfl rfl rfl, .inr ?_⟩
        simp only [work, requests, hrel]
        omega
    · simp only [List.append_nil] at hs
      rw [← hrel] at hs
      rw [← hs]
      exact ⟨hw, .inl rfl⟩

theorem Walks.call {b : RetransLabel} (h : Inv t cells ops) (hw : Walks t l) (hb : b.isCall = true)
    (hs : t.step b = some u) : Advances t u l := by
  cases b with
  | process => exact hw.process h (Option.some.inj hs)
  | pointerTable => exact hw.pointerTable h hs
  | metaTable => exact hw.metaTable hs
  | freelist => exact hw.freelist hs
  | update | nak | timer | insert => cases hb

theorem walks_step {b : RetransLabel} (h : Inv t cells ops) (hw : Walks t l) (hs : t.step b = some u) :
    ∃ l', Walks u l' := by
  by_cases hb : b.isCall = true
  · obtain ⟨l', hl', -⟩ := hw.call h hb hs
    exact ⟨l', hl'⟩
  · refine ⟨l, ?_⟩
    cases b <;> simp [RetransLabel.isCall] at hb <;> cases hs <;> exact hw.same rfl rfl rfl rfl rfl

def Moves (u t : RetransNet) : Prop := u ≠ t ∧ ∃ b : RetransLabel, b.isCall = true ∧ t.step b = some u

theorem Walks.acc (h : Inv t cells ops) (hw : Walks t l) : Acc Moves t := by
  -- by induction on what is left to do
  generalize hn : t.work l.length = n
  induction n using Nat.strong_induction_on generalizing t cells ops l with
  | _ n ih =>
    refine Acc.intro t fun u hu => ?_
    obtain ⟨hne, b, hb, hs⟩ := hu
    obtain ⟨l', hw', hwork⟩ := hw.call h hb hs
    obtain ⟨cells', ops', h'⟩ := inv_step h hs
    exact ih _ (hn ▸ hwork.resolve_left hne) h' hw' rfl

def Resting (t : RetransNet) : Prop := ∀ b : RetransLabel, b.isCall = true → t.step b = some t

theorem Resting.served (hr : Resting t) (h : Inv t cells ops) :
    t.ptrIn.pointerReqFifo = [] ∧ t.metaReq = [] := by
  constructor
  · by_contra hne
    obtain ⟨req, rest, hreq⟩ := List.exists_cons_of_ne_nil hne
    have hs := congrArg (Option.map fun v => (v.ptrIn.pointerUpdFifo, v.ptrIn.pointerReqFifo))
      (hr .pointerTable rfl)
    simp only [step, Option.map_some, Option.some.injEq, Prod.mk.injEq] at hs
    cases hupd : t.ptrIn.pointerUpdFifo with
    | cons upd rest' => simp [retransPointerTable, hupd] at hs
    | nil =>
      obtain ⟨hunlocked, -⟩ := h.pointerAnswer hupd hreq
      simp [retransPointerTable, hupd, hreq, h.lock.wait, hunlocked] at hs
  · by_contra hne
    obtain ⟨req, rest, hreq⟩ := List.exists_cons_of_ne_nil hne
    have hs := congrArg (Option.map fun v => v.metaReq) (hr .metaTable rfl)
    simp [step, retransMetaTable, hreq] at hs

/-- At rest the state machine is ready for requests, of which no update and no retransmission is left, or it
hangs because the number is in no request of the queue pair. -/
theorem Resting.main (hr : Resting t) (h : Inv t cells ops) (hw : Walks t l) :
    t.proc.rtState = .MAIN ∧ t.inp.rx2retransUpd = [] ∨ t.proc.rtState = .RETRANS_1 ∧ ¬ Known t := by
  obtain ⟨hreq, hmreq⟩ := hr.served h
  have hproc := hr .process rfl
  simp only [step, Option.some.injEq] at hproc
  -- a state machine that waits for pointers would get them
  have hasked : asked t.proc = none := by
    by_contra hne
    obtain ⟨r, ha⟩ := Option.ne_none_iff_exists'.mp hne
    have hp := h.pointer
    simp only [PointerClient, ha, hreq] at hp
    have hrsp : t.inp.pointerRspFifo = [t.settledPtr r.qpn] := by simpa using hp
    have hlen := congrArg (fun v => v.inp.pointerRspFifo.length) hproc
    unfold asked at ha
    cases hs : t.proc.rtState <;> simp [hs] at ha <;>
      simp [callProcess, processRetransmissions, hs, withPointer, hrsp] at hlen
  -- and so for one that waits for a cell
  have hmeta : t.proc.rtState = .UPDATE_1 ∨ t.proc.rtState = .RETRANS_1 ∨ t.proc.rtState = .RETRANS_2 →
      t.inp.metaRspFifo = [] := by
    intro hs
    by_contra hne
    obtain ⟨m, rest, hrsp⟩ := List.exists_cons_of_ne_nil hne
    have hlen := congrArg (fun v => v.inp.metaRspFifo.length) hproc
    rcases hs with hs | hs | hs <;> simp [callProcess, processRetransmissions, hs, withMeta, hrsp] at hlen
  have hwalk : ¬ (Walk t l ∧ t.inp.metaRspFifo = []) := by
    rintro ⟨⟨-, c, tail, hc, -⟩, hnil⟩
    rcases hc with ⟨ws, -, hws, -⟩ | ⟨-, hans⟩
    · rw [hmreq] at hws
      simp at hws
    · rw [hnil] at hans
      cases hans
  cases hs : t.proc.rtState with
  | INSERT_0 | UPDATE_0 | RETRANS_0 | TIMER_RETRANS_0 => simp [asked, hs] at hasked
  | INSERT_1 =>
    have hst := congrArg (fun v => v.proc.rtState) hproc
    simp [callProcess, processRetransmissions, hs, Roce.insert1] at hst
  | UPDATE_1 =>
    obtain ⟨busy, hb, hclient⟩ := h.cell.client
    simp only [waits, hs] at hb
    rw [hb, hmreq, hmeta (.inl hs)] at hclient
    generalize hq : ([] : List RetransMetaReq) = q at hclient
    generalize ha : ([] : List RetransMetaEntry) = a at hclient
    cases hclient with
    | asked _ _ => simp at hq
    | answered _ => cases ha
  | RETRANS_2 =>
    simp only [Walks, hs] at hw
    exact absurd ⟨hw, hmeta (.inr (.inr hs))⟩ hwalk
  | RETRANS_1 =>
    simp only [Walks, hs] at hw
    rcases hw with ⟨hw, -⟩ | ⟨-, -, hk⟩
    · exact absurd ⟨hw, hmeta (.inr (.inl hs))⟩ hwalk
    · exact .inr ⟨rfl, hk⟩
  | MAIN =>
    refine .inl ⟨rfl, ?_⟩
    by_contra hne
    obtain ⟨v, rest, hupd⟩ := List.exists_cons_of_ne_nil hne
    have hst := congrArg (fun w => w.proc.rtState) hproc
    simp [callProcess, processRetransmissions, hs, retransMain, hupd] at hst

end RetransNet

end FpgaNetworkStack.Roce
