import FpgaNetworkStack.Lib.Client
import FpgaNetworkStack.Lib.Reach
import FpgaNetworkStack.Roce.RetransLists
import Mathlib.Data.List.Nodup

/-!
# The retransmitter refines the lists

`process_retransmissions`, the two tables and `freelist_handler` run in any order.  A table with the requests
on their way to it is as good as one that has served them, so the lists are compared with these settled
tables after every step.
-/

namespace FpgaNetworkStack.Roce

open Lib

/-! ## The network -/

structure RetransNet where
  proc : ProcessRetrans := {}
  inp : ProcessRetransIn := {}
  ptr : PointerTable := {}
  ptrIn : PointerTableIn := {}
  metaTable : MetaIdx → RetransMetaEntry := fun _ => {}
  metaReq : List RetransMetaReq := []
  freeListCounter : Nat := 0
  releaseFifo : List MetaIdx := []
  /-- The insertions and updates taken up so far. -/
  taken : List RetransOp := []

inductive RetransLabel where
  | update (u : RetransUpdate)
  | nak (r : Retransmission)
  | timer (r : Retransmission)
  | insert (e : RetransEntry)
  | process
  | pointerTable
  | metaTable
  | freelist

/-- The operation that is begun when the state machine leaves `MAIN`. -/
def begun (s s' : ProcessRetrans) : List RetransOp :=
  match s.rtState, s'.rtState with
  | .MAIN, .UPDATE_0 => [.update s'.update]
  | .MAIN, .INSERT_0 => [.insert s'.insert]
  | _, _ => []

namespace RetransNet

def callProcess (t : RetransNet) : RetransNet × ProcessRetransOut :=
  let (proc, inp, out) := processRetransmissions t.proc t.inp
  ({ t with
      proc, inp
      ptrIn :=
        { pointerReqFifo := t.ptrIn.pointerReqFifo ++ out.pointerReqFifo
          pointerUpdFifo := t.ptrIn.pointerUpdFifo ++ out.pointerUpdFifo }
      metaReq := t.metaReq ++ out.metaReqFifo
      releaseFifo := t.releaseFifo ++ out.releaseFifo
      taken := t.taken ++ begun t.proc proc }, out)

/-- One call of a process, or a request of one of the four kinds. -/
def step (t : RetransNet) : RetransLabel → Option RetransNet
  | .update u => some { t with inp := { t.inp with rx2retransUpd := t.inp.rx2retransUpd ++ [u] } }
  | .nak r => some { t with inp := { t.inp with rx2retransReq := t.inp.rx2retransReq ++ [r] } }
  | .timer r => some { t with inp := { t.inp with timer2retransReq := t.inp.timer2retransReq ++ [r] } }
  | .insert e => some { t with inp := { t.inp with
      tx2retransInsertRequest := t.inp.tx2retransInsertRequest ++ [e] } }
  | .process => some t.callProcess.1
  | .pointerTable =>
    let (ptr, ptrIn, out) := retransPointerTable t.ptr t.ptrIn
    some { t with ptr, ptrIn, inp := { t.inp with pointerRspFifo := t.inp.pointerRspFifo ++ out } }
  | .metaTable =>
    let (metaTable, metaReq, out) := retransMetaTable t.metaTable t.metaReq
    some { t with metaTable, metaReq, inp := { t.inp with metaRspFifo := t.inp.metaRspFifo ++ out } }
  | .freelist =>
    let (freeListCounter, releaseFifo, out) :=
      freelistHandler t.freeListCounter t.releaseFifo t.inp.freeListFifo
    some { t with
      freeListCounter, releaseFifo, inp := { t.inp with freeListFifo := t.inp.freeListFifo ++ out } }

/-- The state machine waits for a request and the FIFOs between the processes are empty. -/
def quiescent (t : RetransNet) : Bool :=
  t.proc.rtState == .MAIN && t.ptrIn.pointerReqFifo.isEmpty && t.ptrIn.pointerUpdFifo.isEmpty &&
    t.inp.pointerRspFifo.isEmpty && t.metaReq.isEmpty && t.inp.metaRspFifo.isEmpty && t.releaseFifo.isEmpty

/-- The cells of a queue pair, found by walking along the links. -/
def cells (t : RetransNet) (q : Qpn) : List MetaIdx :=
  if (t.ptr.ptrTable q).valid then
    follow (fun i => (t.metaTable i).next) (fun i => (t.metaTable i).isTail) META_TABLE_SIZE
      (t.ptr.ptrTable q).head
  else []

def entries (t : RetransNet) (q : Qpn) : List RetransEntry :=
  (t.cells q).map fun i => (t.metaTable i).entry q

/-- Cells that were not given to the free list yet. -/
def fresh (t : RetransNet) : List MetaIdx :=
  ((List.range META_TABLE_SIZE).drop t.freeListCounter).map (BitVec.ofNat 16)

/-! ## Settled tables -/

/-- Requests the state machine makes in any case, in state `INSERT_1`. -/
def todo (s : ProcessRetrans) : ProcessRetransOut := if s.rtState = .INSERT_1 then (insert1 s).2 else {}

def settledPtr (t : RetransNet) : Qpn → RetransPointerEntry :=
  (t.ptrIn.pointerUpdFifo ++ (todo t.proc).pointerUpdFifo).foldl
    (fun ptr u => Function.update ptr u.qpn u.entry) t.ptr.ptrTable

def settledMeta (t : RetransNet) : MetaIdx → RetransMetaEntry :=
  (t.metaReq ++ (todo t.proc).metaReqFifo).foldl RetransMetaReq.apply t.metaTable

/-- Free cells: on their way to the free list, in it, not given to it yet, or taken for an insertion. -/
def free (t : RetransNet) : List MetaIdx :=
  (if t.proc.rtState = .INSERT_0 then [t.proc.newMetaIdx] else []) ++ t.releaseFifo ++ t.inp.freeListFifo ++
    t.fresh

/-- The operation that was begun and has not changed the tables. -/
def unfinished (s : ProcessRetrans) : List RetransOp :=
  match s.rtState with
  | .INSERT_0 => [.insert s.insert]
  | .UPDATE_0 | .UPDATE_1 => [.update s.update]
  | _ => []

/-! ## Protocol -/

/-- The request to the pointer table the state machine waits for. -/
def asked (s : ProcessRetrans) : Option PointerReq :=
  match s.rtState with
  | .INSERT_0 => some ⟨s.insert.qpn, true⟩
  | .UPDATE_0 => some ⟨s.update.qpn, true⟩
  | .RETRANS_0 | .TIMER_RETRANS_0 => some ⟨s.retrans.qpn, false⟩
  | _ => none

def PointerClient (t : RetransNet) : Prop :=
  match asked t.proc with
  | none => t.ptrIn.pointerReqFifo = [] ∧ t.inp.pointerRspFifo = []
  | some r => t.ptrIn.pointerReqFifo = [r] ∧ t.inp.pointerRspFifo = [] ∨
      t.ptrIn.pointerReqFifo = [] ∧ t.inp.pointerRspFifo = [t.settledPtr r.qpn]

def isWrite : RetransMetaReq → Bool
  | .read _ => false
  | _ => true

/-- Whether the state machine waits for a cell; in `RETRANS_1` it may wait for one that is never asked for. -/
def waits (s : ProcessRetrans) (busy : Bool) : Prop :=
  match s.rtState with
  | .UPDATE_1 | .RETRANS_2 => busy = true
  | .RETRANS_1 => True
  | _ => busy = false

structure MetaClient (t : RetransNet) : Prop where
  client : ∃ busy, waits t.proc busy ∧ TableClient isWrite busy t.metaReq t.inp.metaRspFifo
  reads : t.proc.rtState = .UPDATE_1 → ∀ idx, .read idx ∈ t.metaReq → idx = t.proc.ptrMeta.head
  answer : t.proc.rtState = .UPDATE_1 → ∀ m ∈ t.inp.metaRspFifo, m = t.settledMeta t.proc.ptrMeta.head

/-- The queue pair whose lock the state machine has to give back. -/
def owner (t : RetransNet) : Option Qpn :=
  match t.proc.rtState with
  | .INSERT_0 => if t.inp.pointerRspFifo.isEmpty then none else some t.proc.insert.qpn
  | .UPDATE_0 => if t.inp.pointerRspFifo.isEmpty then none else some t.proc.update.qpn
  | .INSERT_1 => some t.proc.insert.qpn
  | .UPDATE_1 => some t.proc.update.qpn
  | _ => none

structure Lock (t : RetransNet) : Prop where
  wait : t.ptr.wait = false
  held : t.ptr.isLocked = true →
    (∃ u ∈ t.ptrIn.pointerUpdFifo, u.qpn = t.ptr.lockedQP) ∨ t.owner = some t.ptr.lockedQP

structure Inv (t : RetransNet) (cells : Qpn → List MetaIdx) (ops : List RetransOp) : Prop where
  lists : Lists t.settledPtr t.settledMeta t.free (listRun ops) cells
  taken : t.taken = ops ++ unfinished t.proc
  head : t.proc.rtState = .UPDATE_1 → t.proc.ptrMeta = t.settledPtr t.proc.update.qpn ∧
    t.proc.ptrMeta.valid = true ∧ t.proc.curr = t.proc.ptrMeta.head
  pointer : PointerClient t
  cell : MetaClient t
  lock : Lock t
  counter : t.freeListCounter ≤ META_TABLE_SIZE

/-! ## The tables and the free list -/

variable {t u : RetransNet} {cells : Qpn → List MetaIdx} {ops : List RetransOp}

theorem owner_eq_none (h : t.inp.pointerRspFifo = []) (ha : asked t.proc ≠ none) : t.owner = none := by
  unfold asked at ha
  unfold owner
  rw [h]
  cases hs : t.proc.rtState <;> simp_all

theorem todo_of_asked (ha : asked t.proc ≠ none) : todo t.proc = {} := by
  unfold asked at ha
  unfold todo
  cases hs : t.proc.rtState <;> simp_all

theorem Inv.tables (h : Inv t cells ops) (hproc : u.proc = t.proc) (htaken : u.taken = t.taken)
    (hptr : u.settledPtr = t.settledPtr) (hmeta : u.settledMeta = t.settledMeta)
    (hfree : t.free.Perm u.free) (hcounter : u.freeListCounter ≤ META_TABLE_SIZE) (hpointer : PointerClient u)
    (hcell : MetaClient u) (hlock : Lock u) : Inv u cells ops := by
  refine ⟨?_, ?_, ?_, hpointer, hcell, hlock, hcounter⟩
  · rw [hptr, hmeta]
    exact h.lists.perm hfree
  · rw [htaken, hproc]
    exact h.taken
  · rw [hproc, hptr]
    exact h.head

theorem PointerClient.same (h : PointerClient t) (hproc : u.proc = t.proc)
    (hreq : u.ptrIn.pointerReqFifo = t.ptrIn.pointerReqFifo)
    (hrsp : u.inp.pointerRspFifo = t.inp.pointerRspFifo) (hptr : u.settledPtr = t.settledPtr) :
    PointerClient u := by
  unfold PointerClient at h ⊢
  rw [hproc, hreq, hrsp, hptr]
  exact h

theorem Inv.pointerUpdate {upd : PointerUpdate} {rest : List PointerUpdate} (h : Inv t cells ops)
    (hupd : t.ptrIn.pointerUpdFifo = upd :: rest)
    (hu : u = { t with
      ptr := { t.ptr with
        ptrTable := Function.update t.ptr.ptrTable upd.qpn upd.entry
        isLocked := t.ptr.isLocked && t.ptr.lockedQP != upd.qpn }
      ptrIn := { t.ptrIn with pointerUpdFifo := rest } }) : Inv u cells ops := by
  have hptr : u.settledPtr = t.settledPtr := by simp [settledPtr, hu, hupd]
  subst hu
  refine h.tables rfl rfl hptr rfl (List.Perm.refl _) h.counter (h.pointer.same rfl rfl rfl hptr) { h.cell with }
    ⟨h.lock.wait, fun hl => ?_⟩
  simp only [Bool.and_eq_true, bne_iff_ne, ne_eq] at hl
  rcases h.lock.held hl.1 with ⟨v, hv, hq⟩ | ho
  · left
    rw [hupd] at hv
    rcases List.mem_cons.mp hv with rfl | hv
    · exact absurd hq.symm hl.2
    · exact ⟨v, hv, hq⟩
  · exact .inr ho

/-- The pointer table answers the request the state machine waits for; the lock is free. -/
theorem Inv.pointerAnswer {req : PointerReq} {rest : List PointerReq} (h : Inv t cells ops)
    (hupd : t.ptrIn.pointerUpdFifo = []) (hreq : t.ptrIn.pointerReqFifo = req :: rest) :
    t.ptr.isLocked = false ∧ ∀ u, u = { t with
      ptr := { t.ptr with
        req, isLocked := req.lock, lockedQP := if req.lock then req.qpn else t.ptr.lockedQP }
      ptrIn := { t.ptrIn with pointerReqFifo := rest }
      inp := { t.inp with pointerRspFifo := t.inp.pointerRspFifo ++ [t.ptr.ptrTable req.qpn] } } →
      Inv u cells ops := by
  obtain ⟨ha, hrest, hrsp⟩ : asked t.proc = some req ∧ rest = [] ∧ t.inp.pointerRspFifo = [] := by
    have hp := h.pointer
    unfold PointerClient at hp
    split at hp
    · rw [hp.1] at hreq
      cases hreq
    · next r ha =>
        rcases hp with ⟨hq, hrsp⟩ | ⟨hq, -⟩
        · rw [hq, List.cons.injEq] at hreq
          exact ⟨hreq.1 ▸ ha, hreq.2.symm, hrsp⟩
        · rw [hq] at hreq
          cases hreq
  have hane : asked t.proc ≠ none := by simp [ha]
  have hunlocked : t.ptr.isLocked = false := by
    by_contra hl
    rcases h.lock.held (by simpa using hl) with ⟨v, hv, -⟩ | ho
    · rw [hupd] at hv
      cases hv
    · rw [owner_eq_none hrsp hane] at ho
      cases ho
  refine ⟨hunlocked, fun u hu => ?_⟩
  have hsettled : t.settledPtr = t.ptr.ptrTable := by simp [settledPtr, hupd, todo_of_asked hane]
  subst hu
  refine h.tables rfl rfl rfl rfl (List.Perm.refl _) h.counter ?_ { h.cell with } ⟨h.lock.wait, fun hl => ?_⟩
  · unfold PointerClient
    rw [ha, hrsp, hrest, ← hsettled]
    exact .inr ⟨rfl, rfl⟩
  · have hlock : req.lock = true := hl
    right
    simp only [hlock, if_true]
    unfold asked at ha
    unfold owner
    cases hs : t.proc.rtState <;> simp only [hs, Option.some.injEq, reduceCtorEq] at ha <;> rw [← ha] at hlock ⊢
    · simp
    · simp
    · cases hlock
    · cases hlock

theorem Inv.pointerTable (h : Inv t cells ops) (hs : t.step .pointerTable = some u) : Inv u cells ops := by
  simp only [step, Option.some.injEq] at hs
  have hwait := h.lock.wait
  cases hupd : t.ptrIn.pointerUpdFifo with
  | cons upd rest =>
    simp [retransPointerTable, hupd] at hs
    exact h.pointerUpdate hupd hs.symm
  | nil =>
    cases hreq : t.ptrIn.pointerReqFifo with
    | cons req rest =>
      obtain ⟨hunlocked, hans⟩ := h.pointerAnswer hupd hreq
      apply hans
      rw [← hs]
      simp [retransPointerTable, hupd, hreq, hwait, hunlocked]
    | nil =>
      simp [retransPointerTable, hupd, hreq, hwait] at hs
      rw [← hs]
      exact h

theorem Inv.metaTable (h : Inv t cells ops) (hs : t.step .metaTable = some u) : Inv u cells ops := by
  simp only [step, Option.some.injEq] at hs
  obtain ⟨busy, hbusy, hclient⟩ := h.cell.client
  cases hreq : t.metaReq with
  | nil =>
    simp [retransMetaTable, hreq] at hs
    rw [← hs, ← hreq]
    exact h
  | cons req rest =>
    simp only [retransMetaTable, hreq] at hs
    rw [hreq] at hclient
    have hmeta : u.settledMeta = t.settledMeta := by rw [← hs]; simp [settledMeta, hreq]
    have htables (hcell : MetaClient u) : Inv u cells ops := by
      subst hs
      exact h.tables rfl rfl rfl hmeta (List.Perm.refl _) h.counter h.pointer hcell { h.lock with }
    apply htables
    cases hw : isWrite req with
    | true =>
      have hreply : req.reply t.metaTable = [] := by cases req <;> first | rfl | cases hw
      rw [hreply, List.append_nil] at hs
      subst hs
      refine ⟨⟨busy, hbusy, hclient.serve_write hw⟩, fun hst idx hidx => ?_, ?_⟩
      · exact h.cell.reads hst idx (hreq ▸ List.mem_cons_of_mem _ hidx)
      · rw [hmeta]
        exact h.cell.answer
    | false =>
      obtain ⟨hb, hrest, hnil⟩ := hclient.serve_read hw
      cases req with
      | append | write => cases hw
      | read idx =>
        rw [hnil, List.nil_append, hrest] at hs
        subst hs
        refine ⟨⟨busy, hbusy, hb ▸ TableClient.answered _⟩, fun _ _ hidx => (by cases hidx), ?_⟩
        rw [hmeta]
        intro (hst : t.proc.rtState = .UPDATE_1) m hm
        have hidx := h.cell.reads hst idx (by rw [hreq]; exact List.mem_cons_self)
        rw [List.mem_singleton.mp hm, ← hidx]
        simp [settledMeta, hreq, hrest, todo, hst, RetransMetaReq.apply]

theorem fresh_cons (hc : t.freeListCounter < META_TABLE_SIZE) :
    t.fresh = BitVec.ofNat 16 t.freeListCounter ::
      ((List.range META_TABLE_SIZE).drop (t.freeListCounter + 1)).map (BitVec.ofNat 16) := by
  rw [fresh, List.drop_eq_getElem_cons (by simpa using hc), List.map_cons, List.getElem_range]

theorem Inv.freelist (h : Inv t cells ops) (hs : t.step .freelist = some u) : Inv u cells ops := by
  simp only [step, Option.some.injEq] at hs
  cases hrel : t.releaseFifo with
  | cons idx rest =>
    simp only [freelistHandler, hrel] at hs
    subst hs
    refine h.tables rfl rfl rfl rfl ?_ h.counter h.pointer { h.cell with } { h.lock with }
    have hmove := (@List.perm_middle _ idx (rest ++ t.inp.freeListFifo) t.fresh).symm
    simp only [free, hrel, List.append_assoc]
    apply List.Perm.append_left
    simpa [fresh] using hmove
  | nil =>
    simp only [freelistHandler, hrel] at hs
    split at hs
    · next hc =>
        subst hs
        refine h.tables rfl rfl rfl rfl ?_ hc.1 h.pointer { h.cell with } { h.lock with }
        simp only [free, hrel, fresh_cons hc.1]
        simp [fresh]
    · simp only [List.append_nil] at hs
      rw [← hs, ← hrel]
      exact h

/-! ## The state machine -/

def walking (s : ProcessRetrans) : Bool :=
  match s.rtState with
  | .MAIN | .RETRANS_0 | .RETRANS_1 | .RETRANS_2 | .TIMER_RETRANS_0 => true
  | _ => false

theorem walking_spec {s : ProcessRetrans} (h : walking s = true) :
    unfinished s = [] ∧ todo s = {} ∧ s.rtState ≠ .INSERT_0 ∧ s.rtState ≠ .UPDATE_1 := by
  unfold walking at h
  unfold unfinished todo
  cases hs : s.rtState <;> simp [hs] at h ⊢

theorem owner_walking (h : walking t.proc = true) : t.owner = none := by
  unfold walking at h
  unfold owner
  cases hs : t.proc.rtState <;> simp [hs] at h ⊢

theorem Lock.walk (h : Lock t) (hw : walking t.proc = true) (hptr : u.ptr = t.ptr)
    (hupd : u.ptrIn.pointerUpdFifo = t.ptrIn.pointerUpdFifo) : Lock u := by
  refine ⟨hptr ▸ h.wait, fun hl => .inl ?_⟩
  rw [hptr] at hl ⊢
  rw [hupd]
  refine (h.held hl).resolve_right ?_
  rw [owner_walking hw]
  exact fun ho => by cases ho

theorem foldl_reads {rs : List RetransMetaReq} (h : ∀ r ∈ rs, isWrite r = false)
    (table : MetaIdx → RetransMetaEntry) : rs.foldl RetransMetaReq.apply table = table := by
  induction rs with
  | nil => rfl
  | cons r rs ih =>
    have hr := h r List.mem_cons_self
    cases r with
    | read idx => exact ih fun r hr => h r (List.mem_cons_of_mem _ hr)
    | append | write => cases hr

theorem Inv.walk {rs : List RetransMetaReq} (h : Inv t cells ops) (hw : walking t.proc = true)
    (hw' : walking u.proc = true) (hptr : u.ptr = t.ptr)
    (hupd : u.ptrIn.pointerUpdFifo = t.ptrIn.pointerUpdFifo) (htable : u.metaTable = t.metaTable)
    (hreq : u.metaReq = t.metaReq ++ rs) (hrs : ∀ r ∈ rs, isWrite r = false)
    (hrel : u.releaseFifo = t.releaseFifo) (hfree : u.inp.freeListFifo = t.inp.freeListFifo)
    (hcounter : u.freeListCounter = t.freeListCounter) (htaken : u.taken = t.taken)
    (hpointer : PointerClient u)
    (hcell : ∃ busy, waits u.proc busy ∧ TableClient isWrite busy u.metaReq u.inp.metaRspFifo) :
    Inv u cells ops := by
  obtain ⟨hun, htodo, hni, -⟩ := walking_spec hw
  obtain ⟨hun', htodo', hni', hnu'⟩ := walking_spec hw'
  have hsp : u.settledPtr = t.settledPtr := by simp [settledPtr, hptr, hupd, htodo, htodo']
  have hsm : u.settledMeta = t.settledMeta := by
    simp [settledMeta, htable, hreq, htodo, htodo', foldl_reads hrs]
  have hfr : u.free = t.free := by simp [free, hni, hni', hrel, hfree, fresh, hcounter]
  refine ⟨?_, ?_, fun hc => absurd hc hnu', hpointer, ⟨hcell, fun hc => absurd hc hnu', fun hc => absurd hc hnu'⟩,
    h.lock.walk hw hptr hupd, hcounter ▸ h.counter⟩
  · rw [hsp, hsm, hfr]
    exact h.lists
  · rw [htaken, hun', ← hun]
    exact h.taken

variable {r : PointerReq}

theorem Inv.begin (h : Inv t cells ops) (hm : t.proc.rtState = .MAIN)
    (hask : asked u.proc = some r) (hst : u.proc.rtState ≠ .INSERT_1 ∧ u.proc.rtState ≠ .UPDATE_1)
    (hptr : u.ptr = t.ptr) (hupd : u.ptrIn.pointerUpdFifo = t.ptrIn.pointerUpdFifo)
    (hreq : u.ptrIn.pointerReqFifo = t.ptrIn.pointerReqFifo ++ [r])
    (hrsp : u.inp.pointerRspFifo = t.inp.pointerRspFifo) (htable : u.metaTable = t.metaTable)
    (hmreq : u.metaReq = t.metaReq) (hmrsp : u.inp.metaRspFifo = t.inp.metaRspFifo)
    (hfree : t.free.Perm u.free) (hcounter : u.freeListCounter = t.freeListCounter)
    (htaken : u.taken = t.taken ++ unfinished u.proc) : Inv u cells ops := by
  have hp := h.pointer
  simp only [PointerClient, asked, hm] at hp
  have hwaits : ∀ busy, waits t.proc busy → waits u.proc busy := by
    intro busy hb
    unfold waits at hb ⊢
    unfold asked at hask
    rw [hm] at hb
    cases hs : u.proc.rtState <;> simp [hs] at hask hst ⊢ <;> exact hb
  have htodo : todo u.proc = {} := todo_of_asked (by rw [hask]; simp)
  have htodo' : todo t.proc = {} := by simp [todo, hm]
  have hsp : u.settledPtr = t.settledPtr := by simp [settledPtr, hptr, hupd, htodo, htodo']
  have hsm : u.settledMeta = t.settledMeta := by simp [settledMeta, htable, hmreq, htodo, htodo']
  refine ⟨?_, ?_, fun hc => absurd hc hst.2, ?_, ⟨?_, fun hc => absurd hc hst.2, fun hc => absurd hc hst.2⟩,
    h.lock.walk (by simp [walking, hm]) hptr hupd, hcounter ▸ h.counter⟩
  · rw [hsp, hsm]
    exact h.lists.perm hfree
  · rw [htaken, h.taken]
    simp [unfinished, hm]
  · unfold PointerClient
    rw [hask, hreq, hrsp, hp.1, hp.2]
    exact .inl ⟨rfl, rfl⟩
  · obtain ⟨busy, hb, hc⟩ := h.cell.client
    rw [hmreq, hmrsp]
    exact ⟨busy, hwaits busy hb, hc⟩

theorem Inv.main (h : Inv t cells ops) (hm : t.proc.rtState = .MAIN) (hu : t.callProcess.1 = u) :
    Inv u cells ops := by
  simp only [callProcess, processRetransmissions, hm] at hu
  unfold retransMain at hu
  split at hu
  · next update rest hupd =>
      rw [← hu]
      refine h.begin hm rfl (by simp) rfl (by simp) rfl rfl rfl (by simp) rfl ?_ rfl ?_
      · simp [free, hm, fresh]
      · simp [begun, hm, unfinished]
  · next retrans rest _ hreq =>
      rw [← hu]
      refine h.begin hm rfl (by simp) rfl (by simp) rfl rfl rfl (by simp) rfl ?_ rfl ?_
      · simp [free, hm, fresh]
      · simp [begun, hm, unfinished]
  · next retrans rest _ _ hreq =>
      rw [← hu]
      refine h.begin hm rfl (by simp) rfl (by simp) rfl rfl rfl (by simp) rfl ?_ rfl ?_
      · simp [free, hm, fresh]
      · simp [begun, hm, unfinished]
  · next insert rest idx free' _ _ _ hins hfree =>
      rw [← hu]
      refine h.begin hm rfl (by simp) rfl (by simp) rfl rfl rfl (by simp) rfl ?_ rfl ?_
      · simp only [free, hm, hfree, fresh]
        simp
      · simp [begun, hm, unfinished]
  · simp [begun, hm] at hu
    rw [← hu]
    exact h

theorem PointerClient.answer {p : RetransPointerEntry} {rest : List RetransPointerEntry}
    (h : PointerClient t) (ha : asked t.proc = some r) (hrsp : t.inp.pointerRspFifo = p :: rest) :
    p = t.settledPtr r.qpn ∧ rest = [] ∧ t.ptrIn.pointerReqFifo = [] := by
  unfold PointerClient at h
  rw [ha, hrsp] at h
  rcases h with ⟨-, h⟩ | ⟨hreq, h⟩
  · cases h
  · rw [List.cons.injEq] at h
    exact ⟨h.1, h.2, hreq⟩

/-- A finished operation: the state machine is back in `MAIN`, or in `INSERT_1` with the rest of its
requests, and the update that gives back the lock is on its way. -/
theorem Inv.finish {q : Qpn} {op : RetransOp} (h : Inv t cells ops) (hun : unfinished t.proc = [op])
    (hown : t.owner = some q) (hst : u.proc.rtState = .MAIN ∨ u.proc.rtState = .INSERT_1)
    (hlists : ∃ cells', Lists u.settledPtr u.settledMeta u.free (listStep (listRun ops) op) cells')
    (hreq : u.ptrIn.pointerReqFifo = []) (hrsp : u.inp.pointerRspFifo = []) (hptr : u.ptr = t.ptr)
    (hupd : (∃ p, u.ptrIn.pointerUpdFifo = t.ptrIn.pointerUpdFifo ++ [⟨q, p⟩]) ∨
      u.ptrIn.pointerUpdFifo = t.ptrIn.pointerUpdFifo ∧ u.owner = some q)
    (hcell : TableClient isWrite false u.metaReq u.inp.metaRspFifo)
    (hcounter : u.freeListCounter = t.freeListCounter) (htaken : u.taken = t.taken) :
    ∃ cells ops, Inv u cells ops := by
  obtain ⟨cells', hlists⟩ := hlists
  have hnone : asked u.proc = none ∧ unfinished u.proc = [] ∧ u.proc.rtState ≠ .UPDATE_1 ∧
      waits u.proc false := by
    unfold asked unfinished waits
    rcases hst with hs | hs <;> simp [hs]
  obtain ⟨hask, hun', hne, hwaits⟩ := hnone
  refine ⟨cells', ops ++ [op], ?_, ?_, fun hc => absurd hc hne, ?_,
    ⟨⟨false, hwaits, hcell⟩, fun hc => absurd hc hne, fun hc => absurd hc hne⟩, ⟨?_, ?_⟩,
    hcounter ▸ h.counter⟩
  · rw [listRun_snoc]
    exact hlists
  · rw [htaken, h.taken, hun, hun', List.append_nil]
  · unfold PointerClient
    rw [hask]
    exact ⟨hreq, hrsp⟩
  · rw [hptr]
    exact h.lock.wait
  · rw [hptr]
    intro hl
    rcases h.lock.held hl with ⟨v, hv, hq⟩ | ho
    · left
      rcases hupd with ⟨p, hu⟩ | ⟨hu, -⟩
      · exact ⟨v, by rw [hu]; exact List.mem_append_left _ hv, hq⟩
      · exact ⟨v, by rw [hu]; exact hv, hq⟩
    · rw [hown, Option.some.injEq] at ho
      rcases hupd with ⟨p, hu⟩ | ⟨-, hu⟩
      · exact .inl ⟨_, by rw [hu]; exact List.mem_append_right _ (List.mem_singleton.mpr rfl), ho⟩
      · exact .inr (by rw [hu, ho])

theorem Inv.insert0 (h : Inv t cells ops) (hs : t.proc.rtState = .INSERT_0) (hu : t.callProcess.1 = u) :
    ∃ cells ops, Inv u cells ops := by
  simp only [callProcess, processRetransmissions, hs, withPointer] at hu
  cases hrsp : t.inp.pointerRspFifo with
  | nil =>
    simp [hrsp, begun, hs] at hu
    exact ⟨cells, ops, by rw [← hu]; exact h⟩
  | cons p rest =>
    obtain ⟨hp, hrest, hreq⟩ := h.pointer.answer (r := ⟨t.proc.insert.qpn, true⟩) (by simp [asked, hs]) hrsp
    obtain ⟨busy, hb, hclient⟩ := h.cell.client
    simp only [waits, hs] at hb
    rw [hb] at hclient
    have hlists := h.lists
    simp only [free, hs, if_true, List.cons_append, List.nil_append] at hlists
    have hins := hlists.insert t.proc.insert
    have htodo : todo t.proc = {} := by simp [todo, hs]
    have hun : unfinished t.proc = [.insert t.proc.insert] := by simp [unfinished, hs]
    have hown : t.owner = some t.proc.insert.qpn := by simp [owner, hs, hrsp]
    simp only [hrsp] at hu
    rw [← hp] at hins
    cases hv : p.valid with
    | false =>
      simp [Roce.insert0, hv, begun, hs, hrest] at hu
      simp only [Lists.appended, Lists.linked, hv, Bool.false_eq_true, if_false] at hins
      have hl : u.settledPtr = Function.update t.settledPtr t.proc.insert.qpn
            ⟨t.proc.newMetaIdx, t.proc.newMetaIdx, true⟩ ∧
          u.settledMeta = Function.update t.settledMeta t.proc.newMetaIdx (.ofEntry t.proc.insert) ∧
          u.free = t.releaseFifo ++ t.inp.freeListFifo ++ t.fresh := by
        rw [← hu]
        simp [settledPtr, settledMeta, free, fresh, todo, hs, RetransMetaReq.apply]
      rw [← hl.1, ← hl.2.1, ← hl.2.2] at hins
      subst hu
      exact h.finish hun hown (.inl rfl) ⟨_, hins⟩ hreq rfl rfl (.inl ⟨_, rfl⟩) (hclient.push (by simp [isWrite]))
        rfl rfl
    | true =>
      simp [Roce.insert0, hv, begun, hs, hrest] at hu
      simp only [Lists.appended, Lists.linked, hv, if_true] at hins
      -- the second half of the insertion is counted among the settled requests already
      have hl : u.settledPtr = Function.update t.settledPtr t.proc.insert.qpn
            ⟨p.head, t.proc.newMetaIdx, true⟩ ∧
          u.settledMeta = Function.update (Function.update t.settledMeta p.tail
            { t.settledMeta p.tail with next := t.proc.newMetaIdx, isTail := false })
            t.proc.newMetaIdx (.ofEntry t.proc.insert) ∧
          u.free = t.releaseFifo ++ t.inp.freeListFifo ++ t.fresh := by
        rw [← hu]
        simp [settledPtr, settledMeta, free, fresh, todo, hs, insert1, RetransMetaReq.apply]
      rw [← hl.1, ← hl.2.1, ← hl.2.2] at hins
      subst hu
      exact h.finish hun hown (.inr rfl) ⟨_, hins⟩ hreq rfl rfl (.inr ⟨rfl, rfl⟩) (hclient.push (by simp [isWrite]))
        rfl rfl

/-- The rest of an insertion was counted as settled before. -/
theorem Inv.insert1 (h : Inv t cells ops) (hs : t.proc.rtState = .INSERT_1) (hu : t.callProcess.1 = u) :
    Inv u cells ops := by
  simp [callProcess, processRetransmissions, hs, begun, Roce.insert1] at hu
  obtain ⟨busy, hb, hclient⟩ := h.cell.client
  simp only [waits, hs] at hb
  rw [hb] at hclient
  have hp := h.pointer
  simp only [PointerClient, asked, hs] at hp
  have hsp : u.settledPtr = t.settledPtr := by
    rw [← hu]
    simp [settledPtr, todo, hs, Roce.insert1]
  have hsm : u.settledMeta = t.settledMeta := by
    rw [← hu]
    simp [settledMeta, todo, hs, Roce.insert1]
  have hfree : u.free = t.free := by
    rw [← hu]
    simp [free, fresh, hs]
  subst hu
  refine ⟨?_, ?_, by simp, hp, ⟨⟨false, rfl, hclient.push (by simp [isWrite])⟩, by simp, by simp⟩,
    ⟨h.lock.wait, fun hl => .inl ?_⟩, h.counter⟩
  · rw [hsp, hsm, hfree]
    exact h.lists
  · have htaken := h.taken
    simp only [unfinished, hs] at htaken
    simpa [unfinished] using htaken
  · rcases h.lock.held hl with ⟨v, hv, hq⟩ | ho
    · exact ⟨v, List.mem_append_left _ hv, hq⟩
    · simp only [owner, hs, Option.some.injEq] at ho
      exact ⟨_, List.mem_append_right _ (List.mem_singleton.mpr rfl), ho⟩

theorem Inv.update0 (h : Inv t cells ops) (hs : t.proc.rtState = .UPDATE_0) (hu : t.callProcess.1 = u) :
    ∃ cells ops, Inv u cells ops := by
  simp only [callProcess, processRetransmissions, hs, withPointer] at hu
  cases hrsp : t.inp.pointerRspFifo with
  | nil =>
    simp [hrsp, begun, hs] at hu
    exact ⟨cells, ops, by rw [← hu]; exact h⟩
  | cons p rest =>
    obtain ⟨hp, hrest, hreq⟩ := h.pointer.answer (r := ⟨t.proc.update.qpn, true⟩) (by simp [asked, hs]) hrsp
    obtain ⟨busy, hb, hclient⟩ := h.cell.client
    simp only [waits, hs] at hb
    rw [hb] at hclient
    have htodo : todo t.proc = {} := by simp [todo, hs]
    have hun : unfinished t.proc = [.update t.proc.update] := by simp [unfinished, hs]
    have hown : t.owner = some t.proc.update.qpn := by simp [owner, hs, hrsp]
    simp only [hrsp] at hu
    cases hv : p.valid with
    | false =>
      rw [hp] at hv
      have hskip := h.lists.skip hv
      rw [← hp] at hv hskip
      simp [Roce.update0, hv, begun, hs, hrest] at hu
      have hl : u.settledPtr = Function.update t.settledPtr t.proc.update.qpn p ∧
          u.settledMeta = t.settledMeta ∧ u.free = t.free := by
        rw [← hu]
        simp [settledPtr, settledMeta, free, fresh, todo, hs]
      rw [← hl.1, ← hl.2.1, ← hl.2.2] at hskip
      subst hu
      exact h.finish hun hown (.inl rfl) ⟨_, hskip⟩ hreq rfl rfl (.inl ⟨_, rfl⟩) hclient rfl rfl
    | true =>
      simp [Roce.update0, hv, begun, hs, hrest] at hu
      have hl : u.settledPtr = t.settledPtr ∧ u.settledMeta = t.settledMeta ∧ u.free = t.free := by
        rw [← hu]
        simp [settledPtr, settledMeta, free, fresh, todo, hs, RetransMetaReq.apply]
      subst hu
      refine ⟨cells, ops, ?_, ?_, fun _ => ⟨hl.1 ▸ hp, hv, rfl⟩, ⟨hreq, rfl⟩,
        ⟨⟨true, rfl, hclient.ask rfl⟩, fun _ idx hidx => ?_, fun _ => ?_⟩, ⟨h.lock.wait, fun hlk => ?_⟩, h.counter⟩
      · rw [hl.1, hl.2.1, hl.2.2]
        exact h.lists
      · simpa [unfinished, hs] using h.taken
      · rcases List.mem_append.mp hidx with hidx | hidx
        · cases hclient.writes _ hidx
        · cases List.mem_singleton.mp hidx
          rfl
      · simp [hclient.rsps_eq_nil]
      · refine (h.lock.held hlk).imp_right fun ho => ?_
        rw [hown] at ho
        exact ho

theorem Inv.update1 (h : Inv t cells ops) (hs : t.proc.rtState = .UPDATE_1) (hu : t.callProcess.1 = u) :
    ∃ cells ops, Inv u cells ops := by
  simp only [callProcess, processRetransmissions, hs, withMeta] at hu
  cases hrsp : t.inp.metaRspFifo with
  | nil =>
    simp [hrsp, begun, hs] at hu
    exact ⟨cells, ops, by rw [← hu]; exact h⟩
  | cons m rest =>
    obtain ⟨hptrMeta, hvalid, hcurr⟩ := h.head hs
    have hm := h.cell.answer hs m (by rw [hrsp]; exact List.mem_cons_self)
    obtain ⟨busy, hb, hclient⟩ := h.cell.client
    rw [hrsp] at hclient
    obtain ⟨-, hreqs, hrest⟩ := hclient.take
    have hp := h.pointer
    simp only [PointerClient, asked, hs] at hp
    have htodo : todo t.proc = {} := by simp [todo, hs]
    have hun : unfinished t.proc = [.update t.proc.update] := by simp [unfinished, hs]
    have hown : t.owner = some t.proc.update.qpn := by simp [owner, hs]
    have hv : (t.settledPtr t.proc.update.qpn).valid = true := by rw [← hptrMeta]; exact hvalid
    obtain ⟨-, -, hmv, -⟩ := h.lists.head hv
    rw [← hptrMeta, ← hm] at hmv
    simp only [hrsp] at hu
    cases hop : readMore t.proc.update.opCode with
    | true =>
      have hadv := h.lists.advance hv hop
      rw [← hptrMeta, ← hm] at hadv
      simp [Roce.update1, hmv, hop, begun, hs, hrest] at hu
      have hl : u.settledPtr = Function.update t.settledPtr t.proc.update.qpn t.proc.ptrMeta ∧
          u.settledMeta = Function.update t.settledMeta t.proc.ptrMeta.head m.advance ∧
          u.free = t.free := by
        rw [← hu]
        simp [settledPtr, settledMeta, free, fresh, todo, hs, RetransMetaReq.apply]
      rw [← hl.1, ← hl.2.1, ← hl.2.2] at hadv
      subst hu
      refine h.finish hun hown (.inl rfl) ⟨_, hadv⟩ hp.1 hp.2 rfl (.inl ⟨_, rfl⟩) ?_ rfl rfl
      rw [hreqs]
      exact TableClient.quiet (by simp [isWrite])
    | false =>
      have hpop := h.lists.pop hv hop
      rw [← hptrMeta, ← hm] at hpop
      simp [Roce.update1, hmv, hop, begun, hs, hrest] at hu
      have hl : u.settledPtr = Function.update t.settledPtr t.proc.update.qpn
            { t.proc.ptrMeta with head := m.next, valid := !m.isTail } ∧
          u.settledMeta = t.settledMeta ∧ (t.proc.ptrMeta.head :: t.free).Perm u.free := by
        rw [← hu]
        refine ⟨?_, ?_, ?_⟩
        · simp [settledPtr, todo, hs]
        · simp [settledMeta, todo, hs]
        · simpa [free, fresh, hs, hcurr] using List.perm_middle.symm
      have hlists := hpop.perm hl.2.2
      rw [← hl.1, ← hl.2.1] at hlists
      subst hu
      refine h.finish hun hown (.inl rfl) ⟨_, hlists⟩ hp.1 hp.2 rfl (.inl ⟨_, rfl⟩) ?_ rfl rfl
      rw [hreqs]
      exact TableClient.quiet (by simp)

/-! ## Retransmissions -/

/-- A call that asks for at most one cell and writes nothing. -/
structure ReadsOnly (r : ProcessRetrans × ProcessRetransOut) : Prop where
  walking : walking r.1 = true
  asked : asked r.1 = none
  pointers : r.2.pointerReqFifo = [] ∧ r.2.pointerUpdFifo = [] ∧ r.2.releaseFifo = []
  cells : r.2.metaReqFifo = [] ∧ waits r.1 false ∨ ∃ idx, r.2.metaReqFifo = [.read idx] ∧ waits r.1 true

theorem retrans0_readsOnly (s : ProcessRetrans) (p : RetransPointerEntry) : ReadsOnly (retrans0 s p) := by
  unfold retrans0
  split
  · exact ⟨rfl, rfl, ⟨rfl, rfl, rfl⟩, .inr ⟨p.head, rfl, trivial⟩⟩
  · exact ⟨rfl, rfl, ⟨rfl, rfl, rfl⟩, .inl ⟨rfl, rfl⟩⟩

theorem timerRetrans0_readsOnly (s : ProcessRetrans) (p : RetransPointerEntry) :
    ReadsOnly (timerRetrans0 s p) := by
  unfold timerRetrans0
  split
  · exact ⟨rfl, rfl, ⟨rfl, rfl, rfl⟩, .inr ⟨p.head, rfl, rfl⟩⟩
  · exact ⟨rfl, rfl, ⟨rfl, rfl, rfl⟩, .inl ⟨rfl, rfl⟩⟩

theorem retrans1_readsOnly (s : ProcessRetrans) (m : RetransMetaEntry) : ReadsOnly (retrans1 s m) := by
  unfold retrans1
  by_cases hv : m.valid = true
  · rw [if_pos hv]
    by_cases ht : m.isTail = true <;> by_cases hf : (m.psn == s.retrans.psn) = true
    · simp only [ht, hf, if_true]
      exact ⟨rfl, rfl, ⟨rfl, rfl, rfl⟩, .inl ⟨rfl, rfl⟩⟩
    · -- the end of the list without the number: the state machine stays in `RETRANS_1`
      simp only [ht, hf, if_true]
      exact ⟨rfl, rfl, ⟨rfl, rfl, rfl⟩, .inl ⟨rfl, trivial⟩⟩
    · simp only [ht, hf, if_true]
      exact ⟨rfl, rfl, ⟨rfl, rfl, rfl⟩, .inr ⟨m.next, rfl, rfl⟩⟩
    · simp only [ht, hf]
      exact ⟨rfl, rfl, ⟨rfl, rfl, rfl⟩, .inr ⟨m.next, rfl, trivial⟩⟩
  · rw [if_neg hv]
    exact ⟨rfl, rfl, ⟨rfl, rfl, rfl⟩, .inl ⟨rfl, rfl⟩⟩

theorem retrans2_readsOnly (s : ProcessRetrans) (m : RetransMetaEntry) : ReadsOnly (retrans2 s m) := by
  unfold retrans2
  by_cases hv : m.valid = true
  · rw [if_pos hv]
    by_cases ht : m.isTail = true
    · simp only [ht, if_true]
      exact ⟨rfl, rfl, ⟨rfl, rfl, rfl⟩, .inl ⟨rfl, rfl⟩⟩
    · simp only [ht]
      exact ⟨rfl, rfl, ⟨rfl, rfl, rfl⟩, .inr ⟨m.next, rfl, rfl⟩⟩
  · rw [if_neg hv]
    exact ⟨rfl, rfl, ⟨rfl, rfl, rfl⟩, .inl ⟨rfl, rfl⟩⟩

theorem ReadsOnly.client {r : ProcessRetrans × ProcessRetransOut} {reqs : List RetransMetaReq}
    {rsps : List RetransMetaEntry} (hr : ReadsOnly r) (hc : TableClient isWrite false reqs rsps) :
    (∀ q ∈ r.2.metaReqFifo, isWrite q = false) ∧
      ∃ busy, waits r.1 busy ∧ TableClient isWrite busy (reqs ++ r.2.metaReqFifo) rsps := by
  rcases hr.cells with ⟨hq, hw⟩ | ⟨idx, hq, hw⟩
  · rw [hq, List.append_nil]
    exact ⟨fun q hq => (List.not_mem_nil hq).elim, false, hw, hc⟩
  · rw [hq]
    refine ⟨fun q hq => ?_, true, hw, hc.ask rfl⟩
    rw [List.mem_singleton.mp hq]
    rfl

theorem Inv.walkPointer {f : RetransPointerEntry → ProcessRetrans × ProcessRetransOut}
    (h : Inv t cells ops) (hw : walking t.proc = true) (hask : asked t.proc = some r)
    (hf : ∀ p, ReadsOnly (f p)) (hcall : processRetransmissions t.proc t.inp = withPointer t.inp t.proc f)
    (hu : t.callProcess.1 = u) : Inv u cells ops := by
  have hmain : ∀ s', begun t.proc s' = [] := by
    intro s'
    unfold begun
    unfold asked at hask
    cases hs : t.proc.rtState <;> simp [hs] at hask ⊢
  simp only [callProcess, hcall, withPointer] at hu
  cases hrsp : t.inp.pointerRspFifo with
  | nil =>
    simp [hrsp, hmain] at hu
    rw [← hu]
    exact h
  | cons p rest =>
    obtain ⟨-, hrest, hreq⟩ := h.pointer.answer hask hrsp
    have hr := hf p
    obtain ⟨busy, hb, hclient⟩ := h.cell.client
    have hbusy : busy = false := by
      unfold asked at hask
      unfold walking at hw
      unfold waits at hb
      cases hs : t.proc.rtState <;> simp_all
    rw [hbusy] at hclient
    obtain ⟨hreads, hnext⟩ := hr.client hclient
    simp only [hrsp, hmain, hr.pointers.1, hr.pointers.2.1, hr.pointers.2.2, hrest, List.append_nil] at hu
    rw [← hu]
    refine h.walk hw hr.walking rfl rfl rfl rfl hreads rfl rfl rfl rfl ?_ hnext
    simp only [PointerClient, hr.asked]
    exact ⟨hreq, trivial⟩

theorem Inv.walkMeta {f : RetransMetaEntry → ProcessRetrans × ProcessRetransOut} (h : Inv t cells ops)
    (hw : walking t.proc = true) (hask : asked t.proc = none) (hne : t.proc.rtState ≠ .MAIN)
    (hf : ∀ m, ReadsOnly (f m)) (hcall : processRetransmissions t.proc t.inp = withMeta t.inp t.proc f)
    (hu : t.callProcess.1 = u) : Inv u cells ops := by
  have hmain : ∀ s', begun t.proc s' = [] := by
    intro s'
    unfold begun
    cases hs : t.proc.rtState <;> simp [hs] at hne ⊢
  simp only [callProcess, hcall, withMeta] at hu
  cases hrsp : t.inp.metaRspFifo with
  | nil =>
    simp [hrsp, hmain] at hu
    rw [← hu]
    exact h
  | cons m rest =>
    have hr := hf m
    obtain ⟨busy, hb, hclient⟩ := h.cell.client
    rw [hrsp] at hclient
    obtain ⟨-, hreqs, hrest⟩ := hclient.take
    have hp := h.pointer
    simp only [PointerClient, hask] at hp
    have hquiet : TableClient isWrite false t.metaReq ([] : List RetransMetaEntry) := by
      rw [hreqs]
      exact TableClient.quiet (by simp)
    obtain ⟨hreads, hnext⟩ := hr.client hquiet
    simp only [hrsp, hmain, hr.pointers.1, hr.pointers.2.1, hr.pointers.2.2, hrest, List.append_nil] at hu
    rw [← hu]
    refine h.walk hw hr.walking rfl rfl rfl rfl hreads rfl rfl rfl rfl ?_ hnext
    simp only [PointerClient, hr.asked]
    exact hp

/-! ## Runs -/

theorem Inv.process (h : Inv t cells ops) (hu : t.callProcess.1 = u) : ∃ cells ops, Inv u cells ops := by
  cases hs : t.proc.rtState with
  | MAIN => exact ⟨cells, ops, h.main hs hu⟩
  | INSERT_0 => exact h.insert0 hs hu
  | INSERT_1 => exact ⟨cells, ops, h.insert1 hs hu⟩
  | UPDATE_0 => exact h.update0 hs hu
  | UPDATE_1 => exact h.update1 hs hu
  | RETRANS_0 =>
    exact ⟨cells, ops, h.walkPointer (r := ⟨t.proc.retrans.qpn, false⟩) (by simp [walking, hs])
      (by simp [asked, hs]) (retrans0_readsOnly t.proc)
      (by simp [processRetransmissions, hs]) hu⟩
  | TIMER_RETRANS_0 =>
    exact ⟨cells, ops, h.walkPointer (r := ⟨t.proc.retrans.qpn, false⟩) (by simp [walking, hs])
      (by simp [asked, hs]) (timerRetrans0_readsOnly t.proc)
      (by simp [processRetransmissions, hs]) hu⟩
  | RETRANS_1 =>
    exact ⟨cells, ops, h.walkMeta (by simp [walking, hs]) (by simp [asked, hs]) (by simp [hs])
      (retrans1_readsOnly t.proc) (by simp [processRetransmissions, hs]) hu⟩
  | RETRANS_2 =>
    exact ⟨cells, ops, h.walkMeta (by simp [walking, hs]) (by simp [asked, hs]) (by simp [hs])
      (retrans2_readsOnly t.proc) (by simp [processRetransmissions, hs]) hu⟩

theorem inv_step {l : RetransLabel} (h : Inv t cells ops) (hs : t.step l = some u) :
    ∃ cells ops, Inv u cells ops := by
  cases l with
  | update | nak | timer | insert =>
    cases hs
    exact ⟨cells, ops, { h with cell := { h.cell with }, lock := { h.lock with } }⟩
  | process => exact h.process (Option.some.inj hs)
  | pointerTable => exact ⟨cells, ops, h.pointerTable hs⟩
  | metaTable => exact ⟨cells, ops, h.metaTable hs⟩
  | freelist => exact ⟨cells, ops, h.freelist hs⟩

theorem metaCells_nodup : metaCells.Nodup := by
  rw [metaCells]
  refine List.Nodup.map_on ?_ List.nodup_range
  intro a ha b hb hab
  have hpow : META_TABLE_SIZE < 2 ^ 16 := by decide
  have hlt := List.mem_range.mp ha
  have hlt' := List.mem_range.mp hb
  have hnat := congrArg BitVec.toNat hab
  rw [BitVec.toNat_ofNat, BitVec.toNat_ofNat, Nat.mod_eq_of_lt (by omega), Nat.mod_eq_of_lt (by omega)] at hnat
  exact hnat

theorem inv_init : Inv {} (fun _ => []) [] := by
  refine ⟨⟨fun _ => rfl, fun _ _ hi => (List.not_mem_nil hi).elim, fun _ => rfl, ?_⟩, rfl,
    fun hc => (by cases hc), ⟨rfl, rfl⟩, ⟨⟨false, rfl, TableClient.quiet fun _ hq => (List.not_mem_nil hq).elim⟩,
      fun hc => (by cases hc), fun hc => (by cases hc)⟩, ⟨rfl, fun hc => (by cases hc)⟩, Nat.zero_le _⟩
  have hfree : free {} = metaCells := by simp [free, fresh, metaCells]
  rw [hfree]
  refine ⟨metaCells_nodup, fun _ => List.nodup_nil, fun _ _ _ _ hi => (List.not_mem_nil hi).elim,
    fun _ _ hi => (List.not_mem_nil hi).elim, fun x => ?_⟩
  simp

theorem inv_of_reach (h : Reach step anyStep {} t) : ∃ cells ops, Inv t cells ops := by
  refine h.invariant (P := fun t => ∃ cells ops, Inv t cells ops) ⟨_, _, inv_init⟩ fun u l v hu _ hs => ?_
  obtain ⟨cells, ops, hu⟩ := hu
  exact inv_step hu hs

theorem Inv.length_le (h : Inv t cells ops) (q : Qpn) : (cells q).length ≤ META_TABLE_SIZE := by
  have hsub : cells q ⊆ metaCells := fun i hi => (h.lists.partition.cover i).mpr (.inr ⟨q, hi⟩)
  simpa [metaCells] using (h.lists.partition.nodup q).length_le_of_subset hsub

/-- Without requests on their way, the cells found along the links are those of the lists. -/
theorem Inv.quiescent (h : Inv t cells ops) (hq : t.quiescent = true) :
    t.taken = ops ∧ t.cells = cells ∧ (∀ q, t.entries q = listRun ops q) ∧
      Partition metaCells (t.inp.freeListFifo ++ t.fresh) t.cells := by
  simp only [RetransNet.quiescent, Bool.and_eq_true, beq_iff_eq, List.isEmpty_iff] at hq
  obtain ⟨⟨⟨⟨⟨⟨hmain, -⟩, hupd⟩, -⟩, hreq⟩, -⟩, hrel⟩ := hq
  have htodo : todo t.proc = {} := by simp [todo, hmain]
  have hsp : t.settledPtr = t.ptr.ptrTable := by simp [settledPtr, hupd, htodo]
  have hsm : t.settledMeta = t.metaTable := by simp [settledMeta, hreq, htodo]
  have hfree : t.free = t.inp.freeListFifo ++ t.fresh := by simp [free, hmain, hrel]
  have hlists := h.lists
  rw [hsp, hsm, hfree] at hlists
  have hcells : t.cells = cells := by
    funext q
    have hrep := hlists.represents q
    unfold Represents at hrep
    unfold RetransNet.cells
    split
    · next hv =>
        rw [if_pos hv] at hrep
        exact hrep.follow_eq (h.length_le q)
    · next hv =>
        rw [if_neg hv] at hrep
        exact hrep.symm
  refine ⟨?_, hcells, fun q => ?_, ?_⟩
  · rw [h.taken]
    simp [unfinished, hmain]
  · rw [entries, hcells]
    exact hlists.entries q
  · rw [hcells]
    exact hlists.partition

/-- Whenever the state machine waits for a request and the FIFOs between the processes are empty, the tables
hold the lists that the insertions and updates taken up so far give, and every cell is either free or in
exactly one of them. -/
theorem retransmitter_refines_lists (h : Reach step anyStep {} t) (hq : t.quiescent = true) :
    (∀ q, t.entries q = listRun t.taken q) ∧ Partition metaCells (t.inp.freeListFifo ++ t.fresh) t.cells := by
  obtain ⟨cells, ops, hinv⟩ := inv_of_reach h
  obtain ⟨htaken, -, hentries, hpart⟩ := hinv.quiescent hq
  rw [htaken]
  exact ⟨hentries, hpart⟩

/-- Two read requests; the first one is answered by two packets. -/
def readTwice : List RetransEntry :=
  [⟨1, 10, .RC_RDMA_READ_REQUEST, 0x1000, 0x8000, 8192, 1, 0⟩,
    ⟨1, 12, .RC_RDMA_READ_REQUEST, 0x4000, 0xC000, 4096, 1, 0⟩]

def readTwiceRun : List RetransLabel :=
  [.freelist, .freelist] ++ readTwice.map .insert ++
    [.process, .pointerTable, .process, .pointerTable, .metaTable] ++
    [.process, .pointerTable, .process, .process, .pointerTable, .metaTable, .metaTable] ++
    [.update ⟨1, 10, .RC_RDMA_READ_RESP_FIRST⟩, .update ⟨1, 11, .RC_RDMA_READ_RESP_LAST⟩] ++
    [.process, .pointerTable, .process, .metaTable, .process, .pointerTable, .metaTable] ++
    [.process, .pointerTable, .process, .metaTable, .process, .pointerTable, .freelist]

theorem retransmitter_refines_lists_reads : ∃ t, Reach step anyStep {} t ∧ t.quiescent = true ∧
    t.entries 1 = readTwice.tail ∧ (∀ q, t.entries q = listRun t.taken q) ∧
    Partition metaCells (t.inp.freeListFifo ++ t.fresh) t.cells := by
  have hrun : (run step {} readTwiceRun).map (fun t => (t.quiescent, t.entries 1)) =
      some (true, readTwice.tail) := by decide +kernel
  obtain ⟨t, ht, hval⟩ := Option.map_eq_some_iff.mp hrun
  obtain ⟨hq, hentries⟩ := Prod.mk.inj hval
  have hreach := reach_of_run ht
  exact ⟨t, hreach, hq, hentries, retransmitter_refines_lists hreach hq⟩

end RetransNet

end FpgaNetworkStack.Roce
