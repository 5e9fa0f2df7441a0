import FpgaNetworkStack.Lib.SharedLists
import Mathlib.Algebra.Ring.Nat

/-!
# `multi_queue` (`multi_queue.hpp`)

Queues for many keys that share the elements of one table.  `mq_process_requests` has the heads and tails in
`mq_pointer_table`, the elements in `mq_meta_table` and free elements from `mq_freelist_handler`, and reaches all three
through FIFOs.
-/

namespace FpgaNetworkStack.Roce

open Lib

abbrev MqKey := BitVec 16

/-- Index of an element. -/
abbrev MqIdx := BitVec 16

/-- The template arguments; the indices of the elements, and their counter, have 16 bits. -/
structure MqSizes where
  numQueues : Nat
  multiQueueSize : Nat
  size_lt : multiQueueSize < 2 ^ 16

structure MqInsertReq (T : Type) where
  key : MqKey
  value : T
  deriving DecidableEq, Inhabited

inductive MqPopOperation where
  | POP | FRONT
  deriving DecidableEq, Inhabited

structure MqPopReq where
  op : MqPopOperation := .POP
  key : MqKey
  deriving DecidableEq, Inhabited

/-- `mqPointerEntry`: head, tail and whether they are valid. -/
abbrev MqPointerEntry := ListEnds MqIdx

structure MqMetaEntry (T : Type) where
  value : T
  next : MqIdx
  valid : Bool
  isTail : Bool
  deriving DecidableEq, Inhabited

/-- A new element is the last one of its queue. -/
def MqMetaEntry.ofInsert {T : Type} (e : MqInsertReq T) : MqMetaEntry T := ⟨e.value, 0, true, true⟩

/-- `mqMetaReq`: its three constructors. -/
inductive MqMetaReq (T : Type) where
  | read (idx : MqIdx)
  | append (idx next : MqIdx)
  | write (idx : MqIdx) (entry : MqMetaEntry T)
  deriving DecidableEq

structure MqPointerReq where
  key : MqKey
  lock : Bool := false
  deriving DecidableEq, Inhabited

structure MqPointerUpdate where
  key : MqKey
  entry : MqPointerEntry
  deriving DecidableEq

/-! ## The tables -/

/-- The static variables of `mq_pointer_table`; keys from `numQueues` on are never used. -/
structure MqPointerTable where
  ptrTable : MqKey → MqPointerEntry := fun _ => default
  lockedKey : MqKey := 0
  isLocked : Bool := false
  wait : Bool := false
  request : MqPointerReq := default

/-- One call of `mq_pointer_table`: the table, what is left of the requests and updates, and the answer. -/
def mqPointerTable (s : MqPointerTable) (pointerReqFifo : List MqPointerReq) (pointerUpdFifo : List MqPointerUpdate) :
    MqPointerTable × List MqPointerReq × List MqPointerUpdate × List MqPointerEntry :=
  match pointerUpdFifo, pointerReqFifo, s.wait with
  | update :: rest, reqs, _ =>
    ({ s with
        ptrTable := Function.update s.ptrTable update.key update.entry
        isLocked := s.isLocked && s.lockedKey != update.key },
      reqs, rest, [])
  | [], request :: rest, false =>
    if request.lock && s.isLocked then ({ s with request, wait := true }, rest, [], [])
    else
      ({ s with
          request
          isLocked := s.isLocked || request.lock
          lockedKey := if request.lock then request.key else s.lockedKey },
        rest, [], [s.ptrTable request.key])
  | [], reqs, true =>
    if s.isLocked then (s, reqs, [], [])
    else
      ({ s with isLocked := true, lockedKey := s.request.key, wait := false }, reqs, [], [s.ptrTable s.request.key])
  | [], [], false => (s, [], [], [])

/-- One call of `mq_freelist_handler`: its counter, what is left of the released elements, and the one given out. -/
def mqFreelistHandler (multiQueueSize : Nat) (freeListCounter : MqIdx) (releaseFifo freeListFifo : List MqIdx) :
    MqIdx × List MqIdx × List MqIdx :=
  match releaseFifo with
  | idx :: rest => (freeListCounter, rest, [idx])
  | [] =>
    if freeListCounter.toNat < multiQueueSize ∧ freeListFifo.length < multiQueueSize then
      (freeListCounter + 1, [], [freeListCounter])
    else (freeListCounter, [], [])

variable {T : Type}

def MqMetaReq.apply (table : MqIdx → MqMetaEntry T) : MqMetaReq T → MqIdx → MqMetaEntry T
  | .read _ => table
  | .append idx next => Function.update table idx { table idx with next, isTail := false }
  | .write idx entry => Function.update table idx entry

def MqMetaReq.reply (table : MqIdx → MqMetaEntry T) : MqMetaReq T → List (MqMetaEntry T)
  | .read idx => [table idx]
  | _ => []

def mqMetaTable (table : MqIdx → MqMetaEntry T) (metaUpdReq : List (MqMetaReq T)) :
    (MqIdx → MqMetaEntry T) × List (MqMetaReq T) × List (MqMetaEntry T) :=
  match metaUpdReq with
  | [] => (table, [], [])
  | req :: rest => (req.apply table, rest, req.reply table)

/-! ## `mq_process_requests` -/

inductive MqState where
  | STATE_MAIN | STATE_PUSH | STATE_PUSH_2 | STATE_POP | STATE_POP_2
  deriving DecidableEq, Inhabited

structure MqProcess (T : Type) where
  rtState : MqState
  newMetaIdx : MqIdx
  insert : MqInsertReq T
  popRequest : MqPopReq
  metaReg : MqMetaEntry T
  ptrMeta : MqPointerEntry
  deriving Inhabited

structure MqProcessIn (T : Type) where
  multiQueuePopReq : List MqPopReq := []
  multiQueuePush : List (MqInsertReq T) := []
  pointerRspFifo : List MqPointerEntry := []
  metaRspFifo : List (MqMetaEntry T) := []
  freeListFifo : List MqIdx := []

structure MqProcessOut (T : Type) where
  pointerReqFifo : List MqPointerReq := []
  pointerUpdFifo : List MqPointerUpdate := []
  metaReqFifo : List (MqMetaReq T) := []
  releaseFifo : List MqIdx := []
  multiQueuePopRsp : List T := []

/-- State `STATE_MAIN`: an insertion if an element is free for it, or else a pop. -/
def mqMain (s : MqProcess T) (i : MqProcessIn T) : MqProcess T × MqProcessIn T × MqProcessOut T :=
  match i.multiQueuePush, i.freeListFifo, i.multiQueuePopReq with
  | insert :: rest, newMetaIdx :: free, _ =>
    ({ s with newMetaIdx, insert, rtState := .STATE_PUSH },
      { i with multiQueuePush := rest, freeListFifo := free },
      { pointerReqFifo := [⟨insert.key, true⟩] })
  | _, _, popRequest :: rest =>
    ({ s with popRequest, rtState := .STATE_POP }, { i with multiQueuePopReq := rest },
      { pointerReqFifo := [⟨popRequest.key, false⟩] })
  | _, _, [] => (s, i, {})

/-- State `STATE_PUSH` with the pointers of the key. -/
def mqPush (s : MqProcess T) (p : MqPointerEntry) : MqProcess T × MqProcessOut T :=
  if !p.valid then
    let ptrMeta : MqPointerEntry := ⟨s.newMetaIdx, s.newMetaIdx, true⟩
    ({ s with ptrMeta, rtState := .STATE_MAIN },
      { metaReqFifo := [.write s.newMetaIdx (.ofInsert s.insert)], pointerUpdFifo := [⟨s.insert.key, ptrMeta⟩] })
  else
    -- the new element is linked to the tail
    ({ s with ptrMeta := { p with tail := s.newMetaIdx }, rtState := .STATE_PUSH_2 },
      { metaReqFifo := [.append p.tail s.newMetaIdx] })

def mqPush2 (s : MqProcess T) : MqProcess T × MqProcessOut T :=
  ({ s with rtState := .STATE_MAIN },
    { metaReqFifo := [.write s.newMetaIdx (.ofInsert s.insert)], pointerUpdFifo := [⟨s.insert.key, s.ptrMeta⟩] })

/-- State `STATE_POP` with the pointers of the key. -/
def mqPop (s : MqProcess T) (p : MqPointerEntry) : MqProcess T × MqProcessOut T :=
  if p.valid then ({ s with ptrMeta := p, rtState := .STATE_POP_2 }, { metaReqFifo := [.read p.head] })
  else ({ s with ptrMeta := p, rtState := .STATE_MAIN }, {})

/-- State `STATE_POP_2` with the head of the queue. -/
def mqPop2 (s : MqProcess T) (m : MqMetaEntry T) : MqProcess T × MqProcessOut T :=
  if m.valid then
    match s.popRequest.op with
    | .POP =>
      let ptrMeta : MqPointerEntry := { s.ptrMeta with valid := !m.isTail, head := m.next }
      ({ s with metaReg := m, ptrMeta, rtState := .STATE_MAIN },
        { multiQueuePopRsp := [m.value]
          releaseFifo := [s.ptrMeta.head]
          pointerUpdFifo := [⟨s.popRequest.key, ptrMeta⟩] })
    | .FRONT => ({ s with metaReg := m, rtState := .STATE_MAIN }, { multiQueuePopRsp := [m.value] })
  else ({ s with metaReg := m, rtState := .STATE_MAIN }, {})

def mqProcessRequests (s : MqProcess T) (i : MqProcessIn T) : MqProcess T × MqProcessIn T × MqProcessOut T :=
  match s.rtState, i.pointerRspFifo, i.metaRspFifo with
  | .STATE_MAIN, _, _ => mqMain s i
  | .STATE_PUSH, p :: rest, _ => ((mqPush s p).1, { i with pointerRspFifo := rest }, (mqPush s p).2)
  | .STATE_PUSH_2, _, _ => ((mqPush2 s).1, i, (mqPush2 s).2)
  | .STATE_POP, p :: rest, _ => ((mqPop s p).1, { i with pointerRspFifo := rest }, (mqPop s p).2)
  | .STATE_POP_2, _, m :: rest => ((mqPop2 s m).1, { i with metaRspFifo := rest }, (mqPop2 s m).2)
  | _, _, _ => (s, i, {})

end FpgaNetworkStack.Roce
