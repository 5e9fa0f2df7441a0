import FpgaNetworkStack.Roce.StateTable

/-!
# The retransmitter (`retransmitter.hpp`)

`process_retransmissions` keeps the unacknowledged requests of every queue pair in a linked list.  The heads
and tails are in `retrans_pointer_table`, the cells in `retrans_meta_table`, and free cells come from
`freelist_handler`; all three are reached through FIFOs.
-/

namespace FpgaNetworkStack.Roce

open IbOpCode

/-- Index of a cell. -/
abbrev MetaIdx := BitVec 16

def META_TABLE_SIZE : Nat := 2000

structure Retransmission where
  qpn : Qpn
  psn : BitVec 24 := 0
  deriving DecidableEq, Inhabited

/-- A request as it is inserted. -/
structure RetransEntry where
  qpn : Qpn
  psn : BitVec 24
  opCode : IbOpCode
  localAddr : BitVec 64
  remoteAddr : BitVec 64
  length : BitVec 32
  lst : BitVec 1
  offs : BitVec 4
  deriving DecidableEq, Inhabited

structure RetransRdInit where
  laddr : BitVec 64
  lst : BitVec 1
  deriving DecidableEq

structure RetransEvent where
  opCode : IbOpCode
  qpn : BitVec 24
  localAddr : BitVec 64
  remoteAddr : BitVec 64
  length : BitVec 32
  psn : BitVec 24
  lst : BitVec 1
  offs : BitVec 4
  deriving DecidableEq

structure RetransPointerEntry where
  head : MetaIdx := 0
  tail : MetaIdx := 0
  valid : Bool := false
  deriving DecidableEq, Inhabited

structure RetransMetaEntry where
  psn : BitVec 24 := 0
  next : MetaIdx := 0
  opCode : IbOpCode := RC_SEND_FIRST
  localAddr : BitVec 64 := 0
  remoteAddr : BitVec 64 := 0
  length : BitVec 32 := 0
  lst : BitVec 1 := 0
  offs : BitVec 4 := 0
  valid : Bool := false
  isTail : Bool := false
  deriving DecidableEq, Inhabited

/-- A new cell is the last one of its list. -/
def RetransMetaEntry.ofEntry (e : RetransEntry) : RetransMetaEntry :=
  { psn := e.psn, next := 0, opCode := e.opCode, localAddr := e.localAddr, remoteAddr := e.remoteAddr
    length := e.length, lst := e.lst, offs := e.offs, valid := true, isTail := true }

def RetransMetaEntry.event (m : RetransMetaEntry) (qpn : Qpn) : RetransEvent :=
  ⟨m.opCode, qpn.setWidth 24, m.localAddr, m.remoteAddr, m.length, m.psn, m.lst, m.offs⟩

/-- What is left of a read request after one packet of the response. -/
def RetransMetaEntry.advance (m : RetransMetaEntry) : RetransMetaEntry :=
  { m with
    localAddr := m.localAddr + BitVec.ofNat 64 PMTU
    remoteAddr := m.remoteAddr + BitVec.ofNat 64 PMTU
    length := m.length - BitVec.ofNat 32 PMTU
    psn := m.psn + 1 }

structure PointerReq where
  qpn : Qpn
  lock : Bool
  deriving DecidableEq, Inhabited

structure PointerUpdate where
  qpn : Qpn
  entry : RetransPointerEntry
  deriving DecidableEq

/-- `retransMetaReq`: its three constructors. -/
inductive RetransMetaReq where
  | read (idx : MetaIdx)
  | append (idx next : MetaIdx)
  | write (idx : MetaIdx) (entry : RetransMetaEntry)
  deriving DecidableEq

/-! ## The tables -/

structure PointerTable where
  ptrTable : Qpn → RetransPointerEntry := fun _ => {}
  lockedQP : Qpn := 0
  isLocked : Bool := false
  wait : Bool := false
  req : PointerReq := default

structure PointerTableIn where
  pointerReqFifo : List PointerReq := []
  pointerUpdFifo : List PointerUpdate := []

def retransPointerTable (s : PointerTable) (i : PointerTableIn) :
    PointerTable × PointerTableIn × List RetransPointerEntry :=
  match i.pointerUpdFifo, i.pointerReqFifo, s.wait with
  | upd :: rest, _, _ =>
    ({ s with
        ptrTable := Function.update s.ptrTable upd.qpn upd.entry
        isLocked := s.isLocked && s.lockedQP != upd.qpn },
      { i with pointerUpdFifo := rest }, [])
  | [], req :: rest, false =>
    let i := { i with pointerReqFifo := rest }
    -- another lock queues up, it waits for an update that clears the previous one
    if req.lock && s.isLocked then ({ s with req, wait := true }, i, [])
    else
      ({ s with
          req
          isLocked := s.isLocked || req.lock
          lockedQP := if req.lock then req.qpn else s.lockedQP },
        i, [s.ptrTable req.qpn])
  | [], _, true =>
    if s.isLocked then (s, i, [])
    else
      ({ s with isLocked := true, lockedQP := s.req.qpn, wait := false }, i, [s.ptrTable s.req.qpn])
  | [], [], false => (s, i, [])

def RetransMetaReq.apply (table : MetaIdx → RetransMetaEntry) : RetransMetaReq → MetaIdx → RetransMetaEntry
  | .read _ => table
  | .append idx next => Function.update table idx { table idx with next, isTail := false }
  | .write idx entry => Function.update table idx entry

def RetransMetaReq.reply (table : MetaIdx → RetransMetaEntry) : RetransMetaReq → List RetransMetaEntry
  | .read idx => [table idx]
  | _ => []

def retransMetaTable (table : MetaIdx → RetransMetaEntry) (metaUpdReq : List RetransMetaReq) :
    (MetaIdx → RetransMetaEntry) × List RetransMetaReq × List RetransMetaEntry :=
  match metaUpdReq with
  | [] => (table, [], [])
  | req :: rest => (req.apply table, rest, req.reply table)

/-- One call of `freelist_handler` with its counter; the free list holds `META_TABLE_SIZE` elements. -/
def freelistHandler (freeListCounter : Nat) (releaseFifo freeListFifo : List MetaIdx) :
    Nat × List MetaIdx × List MetaIdx :=
  match releaseFifo with
  | idx :: rest => (freeListCounter, rest, [idx])
  | [] =>
    if freeListCounter < META_TABLE_SIZE ∧ freeListFifo.length < META_TABLE_SIZE then
      (freeListCounter + 1, [], [BitVec.ofNat 16 freeListCounter])
    else (freeListCounter, [], [])

/-! ## `process_retransmissions` -/

inductive RetransState where
  | MAIN | INSERT_0 | INSERT_1 | UPDATE_0 | UPDATE_1 | RETRANS_0 | RETRANS_1 | RETRANS_2 | TIMER_RETRANS_0
  deriving DecidableEq, Repr

structure ProcessRetrans where
  rtState : RetransState := .MAIN
  update : RetransUpdate := default
  curr : MetaIdx := 0
  newMetaIdx : MetaIdx := 0
  insert : RetransEntry := default
  retrans : Retransmission := default
  metaReg : RetransMetaEntry := {}
  ptrMeta : RetransPointerEntry := {}

structure ProcessRetransIn where
  rx2retransUpd : List RetransUpdate := []
  rx2retransReq : List Retransmission := []
  timer2retransReq : List Retransmission := []
  tx2retransInsertRequest : List RetransEntry := []
  pointerRspFifo : List RetransPointerEntry := []
  metaRspFifo : List RetransMetaEntry := []
  freeListFifo : List MetaIdx := []

structure ProcessRetransOut where
  retrans2rxInit : List RetransRdInit := []
  pointerReqFifo : List PointerReq := []
  pointerUpdFifo : List PointerUpdate := []
  metaReqFifo : List RetransMetaReq := []
  releaseFifo : List MetaIdx := []
  retrans2event : List RetransEvent := []

/-- A response of several packets that is not complete yet. -/
def readMore (op : IbOpCode) : Bool := op == RC_RDMA_READ_RESP_FIRST || op == RC_RDMA_READ_RESP_MIDDLE

/-- State `MAIN`: updates first, then retransmissions, and insertions last. -/
def retransMain (s : ProcessRetrans) (i : ProcessRetransIn) :
    ProcessRetrans × ProcessRetransIn × ProcessRetransOut :=
  match i.rx2retransUpd, i.rx2retransReq, i.timer2retransReq, i.tx2retransInsertRequest, i.freeListFifo with
  | update :: rest, _, _, _, _ =>
    ({ s with update, rtState := .UPDATE_0 }, { i with rx2retransUpd := rest },
      { pointerReqFifo := [⟨update.qpn, true⟩] })
  | [], retrans :: rest, _, _, _ =>
    ({ s with retrans, rtState := .RETRANS_0 }, { i with rx2retransReq := rest },
      { pointerReqFifo := [⟨retrans.qpn, false⟩] })
  | [], [], retrans :: rest, _, _ =>
    ({ s with retrans, rtState := .TIMER_RETRANS_0 }, { i with timer2retransReq := rest },
      { pointerReqFifo := [⟨retrans.qpn, false⟩] })
  | [], [], [], insert :: rest, newMetaIdx :: free =>
    ({ s with insert, newMetaIdx, rtState := .INSERT_0 },
      { i with tx2retransInsertRequest := rest, freeListFifo := free },
      { pointerReqFifo := [⟨insert.qpn, true⟩] })
  | _, _, _, _, _ => (s, i, {})

/-- State `INSERT_0` with the pointers of the queue pair. -/
def insert0 (s : ProcessRetrans) (p : RetransPointerEntry) : ProcessRetrans × ProcessRetransOut :=
  if !p.valid then
    let ptrMeta : RetransPointerEntry := ⟨s.newMetaIdx, s.newMetaIdx, true⟩
    ({ s with ptrMeta, rtState := .MAIN },
      { metaReqFifo := [.write s.newMetaIdx (.ofEntry s.insert)]
        pointerUpdFifo := [⟨s.insert.qpn, ptrMeta⟩] })
  else
    ({ s with ptrMeta := { p with tail := s.newMetaIdx }, rtState := .INSERT_1 },
      { metaReqFifo := [.append p.tail s.newMetaIdx] })

def insert1 (s : ProcessRetrans) : ProcessRetrans × ProcessRetransOut :=
  ({ s with rtState := .MAIN },
    { metaReqFifo := [.write s.newMetaIdx (.ofEntry s.insert)]
      pointerUpdFifo := [⟨s.insert.qpn, s.ptrMeta⟩] })

def update0 (s : ProcessRetrans) (p : RetransPointerEntry) : ProcessRetrans × ProcessRetransOut :=
  if p.valid then
    ({ s with ptrMeta := p, curr := p.head, rtState := .UPDATE_1 }, { metaReqFifo := [.read p.head] })
  else
    -- this should not happen; the lock has to be released
    ({ s with ptrMeta := p, rtState := .MAIN }, { pointerUpdFifo := [⟨s.update.qpn, p⟩] })

def update1 (s : ProcessRetrans) (m : RetransMetaEntry) : ProcessRetrans × ProcessRetransOut :=
  let op := s.update.opCode
  -- an invalid state: stay
  if !m.valid then ({ s with metaReg := m }, {})
  else
    let retrans2rxInit : List RetransRdInit :=
      if op == RC_RDMA_READ_RESP_FIRST || op == RC_RDMA_READ_RESP_ONLY then [⟨m.localAddr, m.lst⟩] else []
    if readMore op then
      ({ s with metaReg := m.advance, rtState := .MAIN },
        { retrans2rxInit
          metaReqFifo := [.write s.ptrMeta.head m.advance]
          pointerUpdFifo := [⟨s.update.qpn, s.ptrMeta⟩] })
    else
      let ptrMeta := { s.ptrMeta with head := m.next, valid := !m.isTail }
      ({ s with metaReg := m, ptrMeta, curr := m.next, rtState := .MAIN },
        { retrans2rxInit
          releaseFifo := [s.curr]
          pointerUpdFifo := [⟨s.update.qpn, ptrMeta⟩] })

def retrans0 (s : ProcessRetrans) (p : RetransPointerEntry) : ProcessRetrans × ProcessRetransOut :=
  if p.valid then
    ({ s with ptrMeta := p, curr := p.head, rtState := .RETRANS_1 }, { metaReqFifo := [.read p.head] })
  else ({ s with ptrMeta := p, rtState := .MAIN }, {})

/-- Walk along the list to the requested number. -/
def retrans1 (s : ProcessRetrans) (m : RetransMetaEntry) : ProcessRetrans × ProcessRetransOut :=
  if m.valid then
    let found := m.psn == s.retrans.psn
    ({ s with
        metaReg := m
        rtState := if found then (if m.isTail then .MAIN else .RETRANS_2) else .RETRANS_1 },
      { metaReqFifo := if m.isTail then [] else [.read m.next]
        retrans2event := if found then [m.event s.retrans.qpn] else [] })
  else ({ s with metaReg := m, rtState := .MAIN }, {})

/-- Retransmit everything up to the tail. -/
def retrans2 (s : ProcessRetrans) (m : RetransMetaEntry) : ProcessRetrans × ProcessRetransOut :=
  if m.valid then
    ({ s with metaReg := m, rtState := if m.isTail then .MAIN else .RETRANS_2 },
      { metaReqFifo := if m.isTail then [] else [.read m.next]
        retrans2event := [m.event s.retrans.qpn] })
  else ({ s with metaReg := m, rtState := .MAIN }, {})

def timerRetrans0 (s : ProcessRetrans) (p : RetransPointerEntry) : ProcessRetrans × ProcessRetransOut :=
  if p.valid then ({ s with ptrMeta := p, rtState := .RETRANS_2 }, { metaReqFifo := [.read p.head] })
  else ({ s with ptrMeta := p, rtState := .MAIN }, {})

/-- Take an element of `pointerRspFifo`, if there is one. -/
def withPointer (i : ProcessRetransIn) (s : ProcessRetrans)
    (f : RetransPointerEntry → ProcessRetrans × ProcessRetransOut) :
    ProcessRetrans × ProcessRetransIn × ProcessRetransOut :=
  match i.pointerRspFifo with
  | [] => (s, i, {})
  | p :: rest => ((f p).1, { i with pointerRspFifo := rest }, (f p).2)

/-- Take an element of `metaRspFifo`, if there is one. -/
def withMeta (i : ProcessRetransIn) (s : ProcessRetrans)
    (f : RetransMetaEntry → ProcessRetrans × ProcessRetransOut) :
    ProcessRetrans × ProcessRetransIn × ProcessRetransOut :=
  match i.metaRspFifo with
  | [] => (s, i, {})
  | m :: rest => ((f m).1, { i with metaRspFifo := rest }, (f m).2)

def processRetransmissions (s : ProcessRetrans) (i : ProcessRetransIn) :
    ProcessRetrans × ProcessRetransIn × ProcessRetransOut :=
  match s.rtState with
  | .MAIN => retransMain s i
  | .INSERT_0 => withPointer i s (insert0 s)
  | .INSERT_1 => ((insert1 s).1, i, (insert1 s).2)
  | .UPDATE_0 => withPointer i s (update0 s)
  | .UPDATE_1 => withMeta i s (update1 s)
  | .RETRANS_0 => withPointer i s (retrans0 s)
  | .RETRANS_1 => withMeta i s (retrans1 s)
  | .RETRANS_2 => withMeta i s (retrans2 s)
  | .TIMER_RETRANS_0 => withPointer i s (timerRetrans0 s)

end FpgaNetworkStack.Roce
