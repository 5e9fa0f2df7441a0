import FpgaNetworkStack.Lib.Client
import FpgaNetworkStack.Lib.Reach
import FpgaNetworkStack.Roce.MultiQueue

/-!
# `multi_queue` refines FIFO queues

What the component is for: a queue of values for every key.  The four processes run in any order; the queues are compared with
the tables as they are once the requests on their way have been served.
-/

namespace FpgaNetworkStack.Roce

open Lib

variable {T : Type}

/-! ## The abstract queues -/

inductive MqOp (T : Type) where
  | push (e : MqInsertReq T)
  | pop (r : MqPopReq)
  deriving DecidableEq

namespace MqOp

def push? : MqOp T → Option (MqInsertReq T)
  | .push e => some e
  | .pop _ => none

def pop? : MqOp T → Option MqPopReq
  | .push _ => none
  | .pop r => some r

end MqOp

/-- Insertions append, `POP` removes the oldest value and `FRONT` leaves the queues as they are. -/
def queueStep (queues : MqKey → List T) : MqOp T → MqKey → List T
  | .push e => Function.update queues e.key (queues e.key ++ [e.value])
  | .pop ⟨.POP, key⟩ => Function.update queues key (queues key).tail
  | .pop ⟨.FRONT, _⟩ => queues

/-- Both kinds of request are answered by the oldest value, if there is one. -/
def queueAnswer (queues : MqKey → List T) : MqOp T → List T
  | .push _ => []
  | .pop r => (queues r.key).head?.toList

def queueAnswersFrom (queues : MqKey → List T) : List (MqOp T) → List T
  | [] => []
  | op :: ops => queueAnswer queues op ++ queueAnswersFrom (queueStep queues op) ops

def queueRun (ops : List (MqOp T)) : MqKey → List T := ops.foldl queueStep fun _ => []

def queueAnswers (ops : List (MqOp T)) : List T := queueAnswersFrom (fun _ => []) ops

theorem queueRun_snoc (ops : List (MqOp T)) (op : MqOp T) : queueRun (ops ++ [op]) = queueStep (queueRun ops) op := by
  rw [queueRun, List.foldl_append]
  rfl

theorem queueAnswers_snoc (ops : List (MqOp T)) (op : MqOp T) :
    queueAnswers (ops ++ [op]) = queueAnswers ops ++ queueAnswer (queueRun ops) op := by
  have hfrom (queues : MqKey → List T) : queueAnswersFrom queues (ops ++ [op]) =
      queueAnswersFrom queues ops ++ queueAnswer (ops.foldl queueStep queues) op := by
    induction ops generalizing queues with
    | nil => exact List.append_nil _
    | cons o ops ih => rw [List.cons_append, queueAnswersFrom, queueAnswersFrom, ih, List.append_assoc, List.foldl_cons]
  exact hfrom _

variable {queues : MqKey → List T}

theorem queueStep_pop {r : MqPopReq} (hop : r.op = .POP) :
    queueStep queues (.pop r) = Function.update queues r.key (queues r.key).tail := by
  obtain ⟨op, key⟩ := r
  cases hop
  rfl

theorem queueStep_front {r : MqPopReq} (hop : r.op = .FRONT) :
    queueStep queues (.pop r) = queues := by
  obtain ⟨op, key⟩ := r
  cases hop
  rfl

theorem queueStep_empty {r : MqPopReq} (h : queues r.key = []) :
    queueStep queues (.pop r) = queues ∧ queueAnswer queues (.pop r) = [] := by
  refine ⟨?_, by rw [queueAnswer, h]; rfl⟩
  cases hop : r.op with
  | POP =>
    rw [queueStep_pop hop, show (queues r.key).tail = queues r.key by rw [h]; rfl]
    exact Function.update_eq_self _ _
  | FRONT => exact queueStep_front hop

/-! ## The network -/

/-- `pushed`, `requested` and `multiQueuePopRsp` are everything that was ever written to the outer streams, `taken` are the
requests that `mq_process_requests` took up. -/
structure MultiQueueNet (T : Type) where
  proc : MqProcess T
  inp : MqProcessIn T := {}
  ptr : MqPointerTable := {}
  pointerReqFifo : List MqPointerReq := []
  pointerUpdFifo : List MqPointerUpdate := []
  metaTable : MqIdx → MqMetaEntry T
  metaReqFifo : List (MqMetaReq T) := []
  freeListCounter : MqIdx := 0
  releaseFifo : List MqIdx := []
  multiQueuePopRsp : List T := []
  pushed : List (MqInsertReq T) := []
  requested : List MqPopReq := []
  taken : List (MqOp T) := []

inductive MqLabel (T : Type) where
  | push (e : MqInsertReq T)
  | popReq (r : MqPopReq)
  | process
  | pointerTable
  | metaTable
  | freelist

namespace MultiQueueNet

def start [Inhabited T] : MultiQueueNet T := { proc := default, metaTable := fun _ => default }

/-- The request that is taken up when the state machine leaves `STATE_MAIN`. -/
def begun (s s' : MqProcess T) : List (MqOp T) :=
  match s.rtState, s'.rtState with
  | .STATE_MAIN, .STATE_PUSH => [.push s'.insert]
  | .STATE_MAIN, .STATE_POP => [.pop s'.popRequest]
  | _, _ => []

/-- The network after a call of `mq_process_requests`. -/
def after (t : MultiQueueNet T) (call : MqProcess T × MqProcessIn T × MqProcessOut T) : MultiQueueNet T :=
  { t with
    proc := call.1
    inp := call.2.1
    pointerReqFifo := t.pointerReqFifo ++ call.2.2.pointerReqFifo
    pointerUpdFifo := t.pointerUpdFifo ++ call.2.2.pointerUpdFifo
    metaReqFifo := t.metaReqFifo ++ call.2.2.metaReqFifo
    releaseFifo := t.releaseFifo ++ call.2.2.releaseFifo
    multiQueuePopRsp := t.multiQueuePopRsp ++ call.2.2.multiQueuePopRsp
    taken := t.taken ++ begun t.proc call.1 }

/-- One call of a process, or a request of one of the two kinds for a key that has a queue. -/
def step (sz : MqSizes) (t : MultiQueueNet T) : MqLabel T → Option (MultiQueueNet T)
  | .push e =>
    if e.key.toNat < sz.numQueues then
      some { t with inp := { t.inp with multiQueuePush := t.inp.multiQueuePush ++ [e] }, pushed := t.pushed ++ [e] }
    else none
  | .popReq r =>
    if r.key.toNat < sz.numQueues then
      some { t with
        inp := { t.inp with multiQueuePopReq := t.inp.multiQueuePopReq ++ [r] }, requested := t.requested ++ [r] }
    else none
  | .process => some (t.after (mqProcessRequests t.proc t.inp))
  | .pointerTable =>
    let (ptr, pointerReqFifo, pointerUpdFifo, out) := mqPointerTable t.ptr t.pointerReqFifo t.pointerUpdFifo
    some { t with
      ptr, pointerReqFifo, pointerUpdFifo, inp := { t.inp with pointerRspFifo := t.inp.pointerRspFifo ++ out } }
  | .metaTable =>
    let (metaTable, metaReqFifo, out) := mqMetaTable t.metaTable t.metaReqFifo
    some { t with metaTable, metaReqFifo, inp := { t.inp with metaRspFifo := t.inp.metaRspFifo ++ out } }
  | .freelist =>
    let (freeListCounter, releaseFifo, out) :=
      mqFreelistHandler sz.multiQueueSize t.freeListCounter t.releaseFifo t.inp.freeListFifo
    some { t with freeListCounter, releaseFifo, inp := { t.inp with freeListFifo := t.inp.freeListFifo ++ out } }

/-! ## Settled tables -/

/-- Requests the state machine makes in any case, in state `STATE_PUSH_2`. -/
def todo (s : MqProcess T) : MqProcessOut T := if s.rtState = .STATE_PUSH_2 then (mqPush2 s).2 else {}

def settledPtr (t : MultiQueueNet T) : MqKey → MqPointerEntry :=
  (t.pointerUpdFifo ++ (todo t.proc).pointerUpdFifo).foldl (fun ptr u => Function.update ptr u.key u.entry) t.ptr.ptrTable

def settledMeta (t : MultiQueueNet T) : MqIdx → MqMetaEntry T :=
  (t.metaReqFifo ++ (todo t.proc).metaReqFifo).foldl MqMetaReq.apply t.metaTable

def slots (sz : MqSizes) : List MqIdx := (List.range sz.multiQueueSize).map (BitVec.ofNat 16)

/-- Elements that were not given out yet. -/
def fresh (sz : MqSizes) (t : MultiQueueNet T) : List MqIdx :=
  ((List.range sz.multiQueueSize).drop t.freeListCounter.toNat).map (BitVec.ofNat 16)

/-- Free elements: taken for an insertion, on their way to the free list, in it, or not given out yet. -/
def free (sz : MqSizes) (t : MultiQueueNet T) : List MqIdx :=
  (if t.proc.rtState = .STATE_PUSH then [t.proc.newMetaIdx] else []) ++ t.releaseFifo ++ t.inp.freeListFifo ++ t.fresh sz

def view : CellView MqKey MqIdx (MqMetaEntry T) T where
  next := MqMetaEntry.next
  isTail := MqMetaEntry.isTail
  valid := MqMetaEntry.valid
  value _ := MqMetaEntry.value
  link e i := { e with next := i, isTail := false }
  next_link _ _ := rfl
  isTail_link _ _ := rfl
  valid_link _ _ := rfl
  value_link _ _ _ := rfl

/-- The elements of a key, found by walking along the links. -/
def chain (sz : MqSizes) (t : MultiQueueNet T) (k : MqKey) : List MqIdx :=
  view.walk t.settledMeta (t.settledPtr k) sz.multiQueueSize

def contents (sz : MqSizes) (t : MultiQueueNet T) (k : MqKey) : List T := (t.chain sz k).map fun i => (t.settledMeta i).value

/-- The request that was taken up and has not changed the tables. -/
def unfinished (s : MqProcess T) : List (MqOp T) :=
  match s.rtState with
  | .STATE_PUSH => [.push s.insert]
  | .STATE_POP | .STATE_POP_2 => [.pop s.popRequest]
  | _ => []

/-! ## Protocol -/

/-- The request to the pointer table the state machine waits for. -/
def asked (s : MqProcess T) : Option MqPointerReq :=
  match s.rtState with
  | .STATE_PUSH => some ⟨s.insert.key, true⟩
  | .STATE_POP => some ⟨s.popRequest.key, false⟩
  | _ => none

def PointerClient (t : MultiQueueNet T) : Prop :=
  match asked t.proc with
  | none => t.pointerReqFifo = [] ∧ t.inp.pointerRspFifo = []
  | some r => t.pointerReqFifo = [r] ∧ t.inp.pointerRspFifo = [] ∨
      t.pointerReqFifo = [] ∧ t.inp.pointerRspFifo = [t.settledPtr r.key]

def isWrite : MqMetaReq T → Bool
  | .read _ => false
  | _ => true

/-- In `STATE_POP_2`, and only there, the state machine waits for an element, the head of the queue. -/
structure ElementClient (t : MultiQueueNet T) : Prop where
  client : TableClient isWrite (t.proc.rtState == .STATE_POP_2) t.metaReqFifo t.inp.metaRspFifo
  reads : ∀ idx, .read idx ∈ t.metaReqFifo → idx = t.proc.ptrMeta.head
  answer : ∀ m ∈ t.inp.metaRspFifo, m = t.settledMeta t.proc.ptrMeta.head

/-- The key whose lock the state machine has to give back. -/
def owner (t : MultiQueueNet T) : Option MqKey :=
  match t.proc.rtState with
  | .STATE_PUSH => if t.inp.pointerRspFifo.isEmpty then none else some t.proc.insert.key
  | .STATE_PUSH_2 => some t.proc.insert.key
  | _ => none

structure Lock (t : MultiQueueNet T) : Prop where
  wait : t.ptr.wait = false
  held : t.ptr.isLocked = true → (∃ u ∈ t.pointerUpdFifo, u.key = t.ptr.lockedKey) ∨ t.owner = some t.ptr.lockedKey

structure Inv (sz : MqSizes) (t : MultiQueueNet T) (ops : List (MqOp T)) (cells : MqKey → List MqIdx) : Prop where
  stored : SharedLists view t.settledPtr t.settledMeta (slots sz) (t.free sz) (queueRun ops) cells
  taken : t.taken = ops ++ unfinished t.proc
  answered : t.multiQueuePopRsp = queueAnswers ops
  head : t.proc.rtState = .STATE_POP_2 →
    t.proc.ptrMeta = t.settledPtr t.proc.popRequest.key ∧ t.proc.ptrMeta.valid = true
  pointer : PointerClient t
  element : ElementClient t
  lock : Lock t
  counter : t.freeListCounter.toNat ≤ sz.multiQueueSize

/-! ## The tables and the free list -/

variable {sz : MqSizes} {t u : MultiQueueNet T} {ops : List (MqOp T)} {cells : MqKey → List MqIdx}

theorem owner_eq_none (h : t.inp.pointerRspFifo = []) (ha : asked t.proc ≠ none) : t.owner = none := by
  unfold asked at ha
  unfold owner
  rw [h]
  cases hs : t.proc.rtState <;> simp_all

theorem todo_of_asked {s : MqProcess T} (ha : asked s ≠ none) : todo s = {} := by
  unfold asked at ha
  unfold todo
  cases hs : s.rtState <;> simp_all

theorem Inv.tables (h : Inv sz t ops cells) (hproc : u.proc = t.proc) (htaken : u.taken = t.taken)
    (hrsp : u.multiQueuePopRsp = t.multiQueuePopRsp) (hptr : u.settledPtr = t.settledPtr)
    (hmeta : u.settledMeta = t.settledMeta) (hfree : (t.free sz).Perm (u.free sz))
    (hcounter : u.freeListCounter.toNat ≤ sz.multiQueueSize) (hpointer : PointerClient u) (helement : ElementClient u)
    (hlock : Lock u) : Inv sz u ops cells := by
  refine ⟨?_, ?_, ?_, ?_, hpointer, helement, hlock, hcounter⟩
  · rw [hptr, hmeta]
    exact h.stored.perm hfree
  · rw [htaken, hproc]
    exact h.taken
  · rw [hrsp]
    exact h.answered
  · rw [hproc, hptr]
    exact h.head

theorem PointerClient.same (h : PointerClient t) (hproc : u.proc = t.proc) (hreq : u.pointerReqFifo = t.pointerReqFifo)
    (hrsp : u.inp.pointerRspFifo = t.inp.pointerRspFifo) (hptr : u.settledPtr = t.settledPtr) : PointerClient u := by
  unfold PointerClient at h ⊢
  rw [hproc, hreq, hrsp, hptr]
  exact h

theorem Inv.pointerUpdate {upd : MqPointerUpdate} {rest : List MqPointerUpdate} (h : Inv sz t ops cells)
    (hupd : t.pointerUpdFifo = upd :: rest) :
    Inv sz { t with
      ptr := { t.ptr with
        ptrTable := Function.update t.ptr.ptrTable upd.key upd.entry
        isLocked := t.ptr.isLocked && t.ptr.lockedKey != upd.key }
      pointerUpdFifo := rest } ops cells := by
  have hptr : settledPtr { t with
      ptr := { t.ptr with
        ptrTable := Function.update t.ptr.ptrTable upd.key upd.entry
        isLocked := t.ptr.isLocked && t.ptr.lockedKey != upd.key }
      pointerUpdFifo := rest } = t.settledPtr := by simp [settledPtr, hupd]
  refine h.tables rfl rfl rfl hptr rfl (List.Perm.refl _) h.counter (h.pointer.same rfl rfl rfl hptr)
    { h.element with } ⟨h.lock.wait, fun hl => ?_⟩
  simp only [Bool.and_eq_true, bne_iff_ne, ne_eq] at hl
  rcases h.lock.held hl.1 with ⟨v, hv, hk⟩ | ho
  · left
    rw [hupd] at hv
    rcases List.mem_cons.mp hv with rfl | hv
    · exact absurd hk.symm hl.2
    · exact ⟨v, hv, hk⟩
  · exact .inr ho

/-- The request in the FIFO is the one the state machine waits for; nobody holds the lock. -/
theorem Inv.request {req : MqPointerReq} {rest : List MqPointerReq} (h : Inv sz t ops cells) (hupd : t.pointerUpdFifo = [])
    (hreq : t.pointerReqFifo = req :: rest) :
    asked t.proc = some req ∧ rest = [] ∧ t.inp.pointerRspFifo = [] ∧ t.ptr.isLocked = false := by
  obtain ⟨ha, hrest, hrsp⟩ : asked t.proc = some req ∧ rest = [] ∧ t.inp.pointerRspFifo = [] := by
    have hp := h.pointer
    unfold PointerClient at hp
    split at hp
    · rw [hp.1] at hreq
      cases hreq
    · next r ha =>
        rcases hp with ⟨hq, hrsp⟩ | ⟨hq, -⟩
        · rw [hq, List.cons.injEq] at hreq
          exact ⟨hreq.1 ▸ ha, hreq.2.symm, hrsp⟩
        · rw [hq] at hreq
          cases hreq
  refine ⟨ha, hrest, hrsp, ?_⟩
  by_contra hl
  rcases h.lock.held (by simpa using hl) with ⟨v, hv, -⟩ | ho
  · rw [hupd] at hv
    cases hv
  · rw [owner_eq_none hrsp (by simp [ha])] at ho
    cases ho

theorem Inv.pointerAnswer {req : MqPointerReq} {rest : List MqPointerReq} (h : Inv sz t ops cells)
    (hupd : t.pointerUpdFifo = []) (hreq : t.pointerReqFifo = req :: rest) :
    Inv sz { t with
      ptr := { t.ptr with
        request := req, isLocked := req.lock, lockedKey := if req.lock then req.key else t.ptr.lockedKey }
      pointerReqFifo := rest
      inp := { t.inp with pointerRspFifo := t.inp.pointerRspFifo ++ [t.ptr.ptrTable req.key] } } ops cells := by
  obtain ⟨ha, hrest, hrsp, -⟩ := h.request hupd hreq
  have hsettled : t.settledPtr = t.ptr.ptrTable := by simp [settledPtr, hupd, todo_of_asked (s := t.proc) (by simp [ha])]
  refine h.tables rfl rfl rfl rfl rfl (List.Perm.refl _) h.counter ?_ { h.element with }
    ⟨h.lock.wait, fun hl => .inr ?_⟩
  · unfold PointerClient
    rw [ha, hrest, hrsp, ← hsettled]
    exact .inr ⟨rfl, rfl⟩
  · -- only insertions lock
    have hlock : req.lock = true := hl
    unfold asked at ha
    unfold owner
    simp only [hlock, if_true]
    cases hs : t.proc.rtState <;> simp only [hs, Option.some.injEq, reduceCtorEq] at ha <;> rw [← ha] at hlock ⊢
    · simp
    · cases hlock

theorem Inv.pointerTable (h : Inv sz t ops cells) (hs : t.step sz .pointerTable = some u) : Inv sz u ops cells := by
  simp only [step, Option.some.injEq] at hs
  have hwait := h.lock.wait
  subst hs
  cases hupd : t.pointerUpdFifo with
  | cons upd rest =>
    have hanswer := h.pointerUpdate hupd
    simp only [mqPointerTable, List.append_nil]
    exact hanswer
  | nil =>
    cases hreq : t.pointerReqFifo with
    | cons req rest =>
      obtain ⟨-, -, -, hunlocked⟩ := h.request hupd hreq
      have hanswer := h.pointerAnswer hupd hreq
      rw [hupd] at hanswer
      simp only [mqPointerTable, hwait, hunlocked, Bool.and_false, Bool.false_or, Bool.false_eq_true, if_false]
      simp only [hwait] at hanswer
      exact hanswer
    | nil =>
      simp only [mqPointerTable, hwait, List.append_nil]
      rw [← hupd, ← hreq]
      exact h

theorem Inv.metaTable (h : Inv sz t ops cells) (hs : t.step sz .metaTable = some u) : Inv sz u ops cells := by
  simp only [step, Option.some.injEq] at hs
  have hclient := h.element.client
  cases hreq : t.metaReqFifo with
  | nil =>
    simp [mqMetaTable, hreq] at hs
    rw [← hs, ← hreq]
    exact h
  | cons req rest =>
    simp only [mqMetaTable, hreq] at hs
    rw [hreq] at hclient
    have hmeta : u.settledMeta = t.settledMeta := by
      rw [← hs]
      simp [settledMeta, hreq]
    subst hs
    refine h.tables rfl rfl rfl rfl hmeta (List.Perm.refl _) h.counter h.pointer ?_
      { h.lock with }
    have hmem {r : MqMetaReq T} (hr : r ∈ rest) : r ∈ t.metaReqFifo := by
      rw [hreq]
      exact List.mem_cons_of_mem _ hr
    cases hw : isWrite req with
    | true =>
      have hreply : req.reply t.metaTable = [] := by cases req <;> first | rfl | cases hw
      refine ⟨?_, fun idx hidx => h.element.reads idx (hmem hidx), fun m hm => ?_⟩
      · rw [hreply, List.append_nil]
        exact hclient.serve_write hw
      · rw [hmeta]
        simp only [hreply, List.append_nil] at hm
        exact h.element.answer m hm
    | false =>
      -- the read is the last request, so its answer is that of the settled table
      obtain ⟨hb, hrest, hnil⟩ := hclient.serve_read hw
      obtain ⟨idx, rfl⟩ : ∃ idx, req = .read idx := by
        cases req with
        | read idx => exact ⟨idx, rfl⟩
        | append | write => cases hw
      have hidx := h.element.reads idx (by rw [hreq]; exact List.mem_cons_self)
      have hst : t.proc.rtState ≠ .STATE_PUSH_2 := by
        rintro hst
        rw [hst] at hb
        cases hb
      refine ⟨?_, fun idx hidx => h.element.reads idx (hmem hidx), fun m hm => ?_⟩
      · rw [hb, hrest, hnil]
        exact TableClient.answered _
      · rw [hmeta]
        simp only [hnil, List.nil_append, MqMetaReq.reply, List.mem_singleton] at hm
        rw [hm, ← hidx]
        simp [settledMeta, hreq, hrest, todo, hst, MqMetaReq.apply]

theorem fresh_cons (hc : t.freeListCounter.toNat < sz.multiQueueSize) :
    t.fresh sz = t.freeListCounter ::
      ((List.range sz.multiQueueSize).drop (t.freeListCounter.toNat + 1)).map (BitVec.ofNat 16) := by
  rw [fresh, List.drop_eq_getElem_cons (by simpa using hc), List.map_cons, List.getElem_range, BitVec.ofNat_toNat,
    BitVec.setWidth_eq]

theorem counter_succ (hc : t.freeListCounter.toNat < sz.multiQueueSize) :
    (t.freeListCounter + 1).toNat = t.freeListCounter.toNat + 1 := by
  have hsize := sz.size_lt
  rw [BitVec.toNat_add, show (1 : MqIdx).toNat = 1 from rfl, Nat.mod_eq_of_lt]
  omega

theorem Inv.freelist (h : Inv sz t ops cells) (hs : t.step sz .freelist = some u) : Inv sz u ops cells := by
  simp only [step, Option.some.injEq] at hs
  subst hs
  have hmove {counter : MqIdx} {release out : List MqIdx}
      (hfree : (t.free sz).Perm (free sz { t with
        freeListCounter := counter, releaseFifo := release, inp := { t.inp with freeListFifo := t.inp.freeListFifo ++ out } }))
      (hcounter : counter.toNat ≤ sz.multiQueueSize) :
      Inv sz { t with
        freeListCounter := counter, releaseFifo := release
        inp := { t.inp with freeListFifo := t.inp.freeListFifo ++ out } } ops cells :=
    h.tables rfl rfl rfl rfl rfl hfree hcounter h.pointer { h.element with }
      { h.lock with }
  cases hrel : t.releaseFifo with
  | cons idx rest =>
    simp only [mqFreelistHandler]
    refine hmove ?_ h.counter
    have hback := (@List.perm_middle _ idx (rest ++ t.inp.freeListFifo) (t.fresh sz)).symm
    simp only [free, hrel, List.append_assoc]
    apply List.Perm.append_left
    simpa [fresh] using hback
  | nil =>
    simp only [mqFreelistHandler]
    split
    · next hc =>
        have hsucc := counter_succ hc.1
        refine hmove ?_ (by rw [hsucc]; exact hc.1)
        simp only [free, hrel, fresh_cons hc.1]
        simp only [fresh, hsucc, List.append_assoc, List.singleton_append, List.nil_append]
        exact List.Perm.refl _
    · refine hmove ?_ h.counter
      simp [free, hrel, fresh]

/-! ## The state machine -/

variable {s : MqProcess T} {inp : MqProcessIn T} {o : MqProcessOut T}

theorem begun_self (s : MqProcess T) : begun s s = [] := by
  unfold begun
  cases hs : s.rtState <;> rfl

theorem begun_of_ne {s s' : MqProcess T} (h : s.rtState ≠ .STATE_MAIN) : begun s s' = [] := by
  unfold begun
  cases hs : s.rtState <;> first | rfl | exact absurd hs h

theorem after_idle : t.after (t.proc, t.inp, {}) = t := by simp [after, begun_self]

theorem Lock.after (h : Lock t) (howner : ∀ k, t.owner = some k →
    (∃ v ∈ o.pointerUpdFifo, v.key = k) ∨ (t.after (s, inp, o)).owner = some k) : Lock (t.after (s, inp, o)) := by
  refine ⟨h.wait, fun hl => ?_⟩
  rcases h.held hl with ⟨v, hv, hk⟩ | ho
  · exact .inl ⟨v, List.mem_append_left _ hv, hk⟩
  · rcases howner _ ho with ⟨v, hv, hk⟩ | ho
    · exact .inl ⟨v, List.mem_append_right _ hv, hk⟩
    · exact .inr ho

theorem ElementClient.quiet (h : ElementClient t) (hst : t.proc.rtState ≠ .STATE_POP_2) :
    TableClient isWrite false t.metaReqFifo t.inp.metaRspFifo := by
  have hclient := h.client
  rw [beq_false_of_ne hst] at hclient
  exact hclient

theorem ElementClient.of_quiet (h : TableClient isWrite false u.metaReqFifo u.inp.metaRspFifo)
    (hst : u.proc.rtState ≠ .STATE_POP_2) : ElementClient u := by
  refine ⟨?_, fun idx hidx => ?_, fun m hm => ?_⟩
  · rw [beq_false_of_ne hst]
    exact h
  · cases h.writes _ hidx
  · rw [h.rsps_eq_nil] at hm
    cases hm

/-- A request is taken up: the state machine asks for the pointers of its key. -/
theorem Inv.begin {r : MqPointerReq} (h : Inv sz t ops cells) (hm : t.proc.rtState = .STATE_MAIN) (hask : asked s = some r)
    (hbegun : begun t.proc s = unfinished s) (hrsp : inp.pointerRspFifo = t.inp.pointerRspFifo)
    (hmrsp : inp.metaRspFifo = t.inp.metaRspFifo)
    (hfree : (t.free sz).Perm ((t.after (s, inp, { pointerReqFifo := [r] })).free sz)) :
    Inv sz (t.after (s, inp, { pointerReqFifo := [r] })) ops cells := by
  have hne : s.rtState ≠ .STATE_POP_2 := by
    intro hs
    simp [asked, hs] at hask
  have htodo : todo s = {} := todo_of_asked (by rw [hask]; simp)
  have htodo' : todo t.proc = {} := by simp [todo, hm]
  have hun : unfinished t.proc = [] := by simp [unfinished, hm]
  have hsp : (t.after (s, inp, { pointerReqFifo := [r] })).settledPtr = t.settledPtr := by
    simp [settledPtr, after, htodo, htodo']
  have hsm : (t.after (s, inp, { pointerReqFifo := [r] })).settledMeta = t.settledMeta := by
    simp [settledMeta, after, htodo, htodo']
  have hp := h.pointer
  simp only [PointerClient, asked, hm] at hp
  refine ⟨?_, ?_, ?_, fun hs => absurd hs hne, ?_, ElementClient.of_quiet ?_ hne, h.lock.after fun k hk => ?_, h.counter⟩
  · rw [hsp, hsm]
    exact h.stored.perm hfree
  · have htaken := h.taken
    rw [hun, List.append_nil] at htaken
    simp only [after, htaken, hbegun]
  · simp only [after, List.append_nil]
    exact h.answered
  · simp only [PointerClient, after, hask, hrsp, hp.1, hp.2]
    exact .inl ⟨rfl, trivial⟩
  · simp only [after, hmrsp, List.append_nil]
    exact h.element.quiet (by simp [hm])
  · simp [owner, hm] at hk

theorem Inv.main (h : Inv sz t ops cells) (hm : t.proc.rtState = .STATE_MAIN) :
    Inv sz (t.after (mqMain t.proc t.inp)) ops cells := by
  unfold mqMain
  split
  · next insert rest idx free' _ hins hfree =>
      refine h.begin hm rfl (by simp [begun, hm, unfinished]) rfl rfl ?_
      simp only [free, after, hm, hfree, fresh]
      simp
  · next r rest hreq _ =>
      refine h.begin hm rfl (by simp [begun, hm, unfinished]) rfl rfl ?_
      simp [free, after, hm, fresh]
  · rw [after_idle]
    exact h

variable {rest : List MqPointerEntry} {p : MqPointerEntry}

theorem PointerClient.answer {r : MqPointerReq} (h : PointerClient t)
    (ha : asked t.proc = some r) (hrsp : t.inp.pointerRspFifo = p :: rest) :
    p = t.settledPtr r.key ∧ rest = [] ∧ t.pointerReqFifo = [] := by
  unfold PointerClient at h
  rw [ha, hrsp] at h
  rcases h with ⟨-, h⟩ | ⟨hreq, h⟩
  · cases h
  · rw [List.cons.injEq] at h
    exact ⟨h.1, h.2, hreq⟩

/-- A request is finished: the state machine is back in `STATE_MAIN`, or in `STATE_PUSH_2` with the rest of its requests. -/
theorem Inv.finish {op : MqOp T} (h : Inv sz t ops cells) (hun : unfinished t.proc = [op])
    (hst : s.rtState = .STATE_MAIN ∨ s.rtState = .STATE_PUSH_2)
    (hstored : ∃ cells', SharedLists view (t.after (s, inp, o)).settledPtr (t.after (s, inp, o)).settledMeta (slots sz)
      ((t.after (s, inp, o)).free sz) (queueStep (queueRun ops) op) cells')
    (hans : o.multiQueuePopRsp = queueAnswer (queueRun ops) op) (hreq : t.pointerReqFifo = [] ∧ o.pointerReqFifo = [])
    (hrsp : inp.pointerRspFifo = []) (hlock : Lock (t.after (s, inp, o)))
    (hquiet : TableClient isWrite false (t.metaReqFifo ++ o.metaReqFifo) inp.metaRspFifo) :
    ∃ ops cells, Inv sz (t.after (s, inp, o)) ops cells := by
  have hbegun : begun t.proc s = [] := by
    refine begun_of_ne fun hs => ?_
    simp [unfinished, hs] at hun
  have hnone : asked s = none ∧ unfinished s = [] ∧ s.rtState ≠ .STATE_POP_2 := by
    unfold asked unfinished
    rcases hst with hs | hs <;> simp [hs]
  obtain ⟨hask, hun', hne⟩ := hnone
  obtain ⟨cells', hstored⟩ := hstored
  refine ⟨ops ++ [op], cells', ?_, ?_, ?_, fun hs => absurd hs hne, ?_, ElementClient.of_quiet hquiet hne, hlock, h.counter⟩
  · rw [queueRun_snoc]
    exact hstored
  · simp only [MultiQueueNet.after, hbegun, h.taken, hun, hun', List.append_nil]
  · rw [queueAnswers_snoc, ← hans, ← h.answered]
    rfl
  · simp only [PointerClient, MultiQueueNet.after, hask, hreq.1, hreq.2, hrsp]
    exact ⟨rfl, trivial⟩

theorem settledPtr_after (htodo : todo t.proc = {}) :
    (t.after (s, inp, o)).settledPtr = (o.pointerUpdFifo ++ (todo s).pointerUpdFifo).foldl
      (fun ptr u => Function.update ptr u.key u.entry) t.settledPtr := by
  simp [settledPtr, after, htodo, List.foldl_append]

theorem settledMeta_after (htodo : todo t.proc = {}) :
    (t.after (s, inp, o)).settledMeta = (o.metaReqFifo ++ (todo s).metaReqFifo).foldl MqMetaReq.apply t.settledMeta := by
  simp [settledMeta, after, htodo, List.foldl_append]

theorem free_after (hs : s.rtState ≠ .STATE_PUSH) : (t.after (s, inp, o)).free sz =
    t.releaseFifo ++ o.releaseFifo ++ inp.freeListFifo ++ t.fresh sz := by
  simp [free, after, hs, fresh]

theorem Inv.push (h : Inv sz t ops cells)
    (hs : t.proc.rtState = .STATE_PUSH) (hrsp : t.inp.pointerRspFifo = p :: rest) :
    ∃ ops cells, Inv sz (t.after ((mqPush t.proc p).1, { t.inp with pointerRspFifo := rest }, (mqPush t.proc p).2)) ops cells := by
  obtain ⟨hp, rfl, hreq⟩ := h.pointer.answer (r := ⟨t.proc.insert.key, true⟩) (by simp [asked, hs]) hrsp
  have hquiet := h.element.quiet (by simp [hs])
  have hun : unfinished t.proc = [.push t.proc.insert] := by simp [unfinished, hs]
  have hown : t.owner = some t.proc.insert.key := by simp [owner, hs, hrsp]
  have htodo : todo t.proc = {} := by simp [todo, hs]
  have hstored := h.stored
  simp only [free, hs, if_true, List.cons_append, List.nil_append] at hstored
  have hins := hstored.insert t.proc.insert.key (e := MqMetaEntry.ofInsert t.proc.insert) rfl rfl
  rw [← hp] at hins
  cases hv : p.valid with
  | false =>
    simp only [ListEnds.append, CellView.linked, hv, Bool.false_eq_true, if_false] at hins
    simp only [mqPush, hv, Bool.not_false, if_true]
    refine h.finish hun (.inl rfl) ?_ rfl ⟨hreq, rfl⟩ rfl (h.lock.after fun k hk => ?_) (hquiet.push (by simp [isWrite]))
    · rw [settledPtr_after htodo, settledMeta_after htodo, free_after MqState.noConfusion, List.append_nil]
      exact ⟨_, hins⟩
    · rw [hown] at hk
      exact .inl ⟨_, List.mem_singleton.mpr rfl, Option.some.inj hk⟩
  | true =>
    simp only [ListEnds.append, CellView.linked, hv, if_true] at hins
    simp only [mqPush, hv, Bool.not_true, Bool.false_eq_true, if_false]
    -- the second half of the insertion is counted among the settled requests already
    refine h.finish hun (.inr rfl) ?_ rfl ⟨hreq, rfl⟩ rfl (h.lock.after fun k hk => ?_) (hquiet.push (by simp [isWrite]))
    · rw [settledPtr_after htodo, settledMeta_after htodo, free_after MqState.noConfusion, List.append_nil]
      exact ⟨_, hins⟩
    · rw [hown] at hk
      exact .inr hk

/-- The rest of an insertion was counted as settled before. -/
theorem Inv.push2 (h : Inv sz t ops cells) (hs : t.proc.rtState = .STATE_PUSH_2) :
    Inv sz (t.after ((mqPush2 t.proc).1, t.inp, (mqPush2 t.proc).2)) ops cells := by
  have hp := h.pointer
  simp only [PointerClient, asked, hs] at hp
  have hsp : (t.after ((mqPush2 t.proc).1, t.inp, (mqPush2 t.proc).2)).settledPtr = t.settledPtr := by
    simp [settledPtr, after, todo, mqPush2, hs]
  have hsm : (t.after ((mqPush2 t.proc).1, t.inp, (mqPush2 t.proc).2)).settledMeta = t.settledMeta := by
    simp [settledMeta, after, todo, mqPush2, hs]
  have hfree : (t.after ((mqPush2 t.proc).1, t.inp, (mqPush2 t.proc).2)).free sz = t.free sz := by
    simp [free, after, hs, fresh, mqPush2]
  refine ⟨?_, ?_, ?_, fun hc => (by cases hc), ?_, ElementClient.of_quiet ?_ MqState.noConfusion, h.lock.after fun k hk => ?_,
    h.counter⟩
  · rw [hsp, hsm, hfree]
    exact h.stored
  · have htaken := h.taken
    simp only [unfinished, hs] at htaken
    simp [after, htaken, begun, hs, unfinished, mqPush2]
  · simp only [after, mqPush2, List.append_nil]
    exact h.answered
  · simp only [PointerClient, asked, after, mqPush2, List.append_nil]
    exact hp
  · exact (h.element.quiet (by simp [hs])).push (by simp [mqPush2, isWrite])
  · simp only [owner, hs, Option.some.injEq] at hk
    exact .inl ⟨_, List.mem_singleton.mpr rfl, hk⟩

theorem Inv.pop (h : Inv sz t ops cells)
    (hs : t.proc.rtState = .STATE_POP) (hrsp : t.inp.pointerRspFifo = p :: rest) :
    ∃ ops cells, Inv sz (t.after ((mqPop t.proc p).1, { t.inp with pointerRspFifo := rest }, (mqPop t.proc p).2)) ops cells := by
  obtain ⟨hp, rfl, hreq⟩ := h.pointer.answer (r := ⟨t.proc.popRequest.key, false⟩) (by simp [asked, hs]) hrsp
  have hquiet := h.element.quiet (by simp [hs])
  have hun : unfinished t.proc = [.pop t.proc.popRequest] := by simp [unfinished, hs]
  have hown : t.owner = none := by simp [owner, hs]
  have htodo : todo t.proc = {} := by simp [todo, hs]
  have hfree : t.free sz = t.releaseFifo ++ t.inp.freeListFifo ++ t.fresh sz := by simp [free, hs]
  have hlock : ∀ k, t.owner = some k → False := by simp [hown]
  cases hv : p.valid with
  | false =>
    simp only [mqPop, hv, Bool.false_eq_true, if_false]
    have hnil := h.stored.nil (k := t.proc.popRequest.key) (by rw [← hp, hv])
    obtain ⟨hstep, hans⟩ := queueStep_empty hnil
    refine h.finish hun (.inl rfl) ⟨cells, ?_⟩ hans.symm ⟨hreq, rfl⟩ rfl
      (h.lock.after fun k hk => (hlock k hk).elim) (hquiet.push (by simp))
    rw [hstep, settledPtr_after htodo, settledMeta_after htodo, free_after MqState.noConfusion, List.append_nil, ← hfree]
    exact h.stored
  | true =>
    simp only [mqPop, hv, if_true]
    refine ⟨ops, cells, ?_, ?_, ?_, fun _ => ⟨?_, hv⟩, ⟨?_, rfl⟩, ⟨hquiet.ask rfl, fun idx hidx => ?_, fun m hm => ?_⟩,
      h.lock.after fun k hk => (hlock k hk).elim, h.counter⟩
    · rw [settledPtr_after htodo, settledMeta_after htodo, free_after MqState.noConfusion, List.append_nil, ← hfree]
      exact h.stored
    · simp only [after, h.taken, hun, begun, hs, List.append_nil]
      rfl
    · simp only [after, List.append_nil]
      exact h.answered
    · rw [settledPtr_after htodo]
      exact hp
    · simp only [after, List.append_nil]
      exact hreq
    · rcases List.mem_append.mp hidx with hidx | hidx
      · cases hquiet.writes _ hidx
      · exact MqMetaReq.read.inj (List.mem_singleton.mp hidx)
    · rw [show t.inp.metaRspFifo = [] from hquiet.rsps_eq_nil] at hm
      cases hm

theorem Inv.pop2 {m : MqMetaEntry T} {rest : List (MqMetaEntry T)} (h : Inv sz t ops cells)
    (hs : t.proc.rtState = .STATE_POP_2) (hrsp : t.inp.metaRspFifo = m :: rest) :
    ∃ ops cells, Inv sz (t.after ((mqPop2 t.proc m).1, { t.inp with metaRspFifo := rest }, (mqPop2 t.proc m).2)) ops cells := by
  have hclient := h.element.client
  rw [hrsp] at hclient
  obtain ⟨-, hreqs, rfl⟩ := hclient.take
  obtain ⟨hptrMeta, hvalid⟩ := h.head hs
  have hm := h.element.answer m (by rw [hrsp]; exact List.mem_cons_self)
  have hp := h.pointer
  simp only [PointerClient, asked, hs] at hp
  have hun : unfinished t.proc = [.pop t.proc.popRequest] := by simp [unfinished, hs]
  have htodo : todo t.proc = {} := by simp [todo, hs]
  have hfree : t.free sz = t.releaseFifo ++ t.inp.freeListFifo ++ t.fresh sz := by simp [free, hs]
  have hlock : ∀ k, t.owner = some k → False := by simp [owner, hs]
  obtain ⟨l, -, hmv, -, hhead⟩ := h.stored.head (by rw [← hptrMeta]; exact hvalid)
  rw [← hptrMeta, ← hm] at hmv hhead
  have hans : [m.value] = queueAnswer (queueRun ops) (.pop t.proc.popRequest) := by
    rw [queueAnswer, hhead]
    rfl
  have hmv : m.valid = true := hmv
  cases hop : t.proc.popRequest.op with
  | POP =>
    have hpop := h.stored.pop (by rw [← hptrMeta]; exact hvalid)
    rw [← hptrMeta, ← hm, ← queueStep_pop hop] at hpop
    simp only [mqPop2, hmv, hop, if_true]
    refine h.finish hun (.inl rfl) ⟨Function.update cells t.proc.popRequest.key (cells t.proc.popRequest.key).tail, ?_⟩ hans
      ⟨hp.1, rfl⟩ hp.2 (h.lock.after fun k hk => (hlock k hk).elim) ?_
    · rw [settledPtr_after htodo, settledMeta_after htodo, free_after MqState.noConfusion]
      refine hpop.perm ?_
      rw [hfree]
      simpa using List.perm_middle.symm
    · rw [hreqs]
      exact TableClient.quiet (by simp)
  | FRONT =>
    simp only [mqPop2, hmv, hop, if_true]
    refine h.finish hun (.inl rfl) ⟨cells, ?_⟩ hans ⟨hp.1, rfl⟩ hp.2 (h.lock.after fun k hk => (hlock k hk).elim) ?_
    · rw [settledPtr_after htodo, settledMeta_after htodo, free_after MqState.noConfusion, List.append_nil, queueStep_front hop, ← hfree]
      exact h.stored
    · rw [hreqs]
      exact TableClient.quiet (by simp)

/-! ## Runs -/

theorem Inv.process (h : Inv sz t ops cells) :
    ∃ ops cells, Inv sz (t.after (mqProcessRequests t.proc t.inp)) ops cells := by
  unfold mqProcessRequests
  split
  · next hs => exact ⟨ops, cells, h.main hs⟩
  · next p rest hs hrsp => exact h.push hs hrsp
  · next hs => exact ⟨ops, cells, h.push2 hs⟩
  · next p rest hs hrsp => exact h.pop hs hrsp
  · next m rest hs hrsp => exact h.pop2 hs hrsp
  · rw [after_idle]
    exact ⟨ops, cells, h⟩

theorem inv_step {b : MqLabel T} (h : Inv sz t ops cells) (hs : t.step sz b = some u) : ∃ ops cells, Inv sz u ops cells := by
  cases b with
  | push | popReq =>
    rw [step, Option.ite_none_right_eq_some, Option.some.injEq] at hs
    rw [← hs.2]
    exact ⟨ops, cells, h.tables rfl rfl rfl rfl rfl (List.Perm.refl _) h.counter h.pointer
      { h.element with } { h.lock with }⟩
  | process =>
    cases hs
    exact h.process
  | pointerTable => exact ⟨ops, cells, h.pointerTable hs⟩
  | metaTable => exact ⟨ops, cells, h.metaTable hs⟩
  | freelist => exact ⟨ops, cells, h.freelist hs⟩

theorem slots_nodup (sz : MqSizes) : (slots sz).Nodup := by
  refine List.Nodup.map_on (fun a ha b hb hab => ?_) List.nodup_range
  have hsize := sz.size_lt
  have hlt := List.mem_range.mp ha
  have hlt' := List.mem_range.mp hb
  have hnat := congrArg BitVec.toNat hab
  rw [BitVec.toNat_ofNat, BitVec.toNat_ofNat, Nat.mod_eq_of_lt (by omega), Nat.mod_eq_of_lt (by omega)] at hnat
  exact hnat

variable [Inhabited T]

theorem inv_start (sz : MqSizes) : Inv sz (start : MultiQueueNet T) [] fun _ => [] := by
  refine ⟨?_, rfl, rfl, fun hs => (by cases hs), ⟨rfl, rfl⟩, ElementClient.of_quiet (TableClient.quiet (by simp [start]))
    MqState.noConfusion, ⟨rfl, fun hl => (by cases hl)⟩, Nat.zero_le _⟩
  have hfree : free sz (start : MultiQueueNet T) = slots sz := by
    rw [free, if_neg (by exact MqState.noConfusion)]
    rfl
  rw [hfree]
  exact SharedLists.empty (fun _ => rfl) (slots_nodup sz)

theorem inv_of_reach (h : Reach (step sz) anyStep start t) : ∃ ops cells, Inv sz t ops cells := by
  refine h.invariant (P := fun t => ∃ ops cells, Inv sz t ops cells) ⟨_, _, inv_start sz⟩ fun u b v hu _ hs => ?_
  obtain ⟨ops, cells, hu⟩ := hu
  exact inv_step hu hs

end MultiQueueNet

end FpgaNetworkStack.Roce
