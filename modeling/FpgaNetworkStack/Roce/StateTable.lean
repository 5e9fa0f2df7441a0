import FpgaNetworkStack.Roce.Internals

/-!
# The state table of the queue pairs (`state_table.hpp`)

One entry holds the numbers of both roles: `resp_epsn` is what the responder expects next, the `req_`
fields are the window of the requester.  The three clients are served in a fixed order of priority.
-/

namespace FpgaNetworkStack.Roce

/-- Index of a queue pair. -/
abbrev Qpn := BitVec 16

structure StateTableEntry where
  respEpsn : BitVec 24 := 0
  respOldOutstanding : BitVec 24 := 0
  reqNextPsn : BitVec 24 := 0
  reqOldUnack : BitVec 24 := 0
  reqOldValid : BitVec 24 := 0
  retryCounter : BitVec 3 := 0
  deriving DecidableEq, Inhabited

structure RxStateReq where
  qpn : Qpn
  epsn : BitVec 24 := 0
  retryCounter : BitVec 3 := 0
  isResponse : Bool
  write : Bool
  deriving DecidableEq

namespace RxStateReq

def read (qpn : BitVec 24) (isRsp : Bool) : RxStateReq :=
  { qpn := qpn.setWidth 16, isResponse := isRsp, write := false }

/-- An accepted packet also restores the retry counter. -/
def accept (qpn : BitVec 24) (psn : BitVec 24) (isRsp : Bool) : RxStateReq :=
  { qpn := qpn.setWidth 16, epsn := psn, retryCounter := 7, isResponse := isRsp, write := true }

def retry (qpn : BitVec 24) (psn : BitVec 24) (rc : BitVec 3) (isRsp : Bool) : RxStateReq :=
  { qpn := qpn.setWidth 16, epsn := psn, retryCounter := rc, isResponse := isRsp, write := true }

end RxStateReq

structure RxStateRsp where
  epsn : BitVec 24
  oldestOutstandingPsn : BitVec 24
  maxForward : BitVec 24
  retryCounter : BitVec 3 := 0
  deriving DecidableEq, Inhabited

structure TxStateReq where
  qpn : Qpn
  psn : BitVec 24 := 0
  write : Bool
  deriving DecidableEq

structure IfStateReq where
  qpn : Qpn
  remotePsn : BitVec 24 := 0
  localPsn : BitVec 24 := 0
  write : Bool
  deriving DecidableEq

namespace StateTableEntry

/-- The answer to `rx_ibh_fsm`: the window of the role the packet addresses. -/
def reply (e : StateTableEntry) (isResponse : Bool) : RxStateRsp :=
  if isResponse then ⟨e.reqOldUnack, e.reqOldValid, e.reqNextPsn - 1, 0⟩
  else ⟨e.respEpsn, e.respOldOutstanding, e.respEpsn, e.retryCounter⟩

def rxUpdate (e : StateTableEntry) (r : RxStateReq) : StateTableEntry :=
  if r.isResponse then { e with reqOldUnack := r.epsn }
  else { e with respEpsn := r.epsn, retryCounter := r.retryCounter }

def connect (r : IfStateReq) : StateTableEntry :=
  { respEpsn := r.localPsn, respOldOutstanding := r.localPsn, reqNextPsn := r.remotePsn
    reqOldUnack := r.remotePsn, reqOldValid := r.remotePsn, retryCounter := 7 }

end StateTableEntry

structure StateTableIn where
  rxIbh2stateTableUpdReq : List RxStateReq := []
  txIbh2stateTableUpdReq : List TxStateReq := []
  qpi2stateTableUpdReq : List IfStateReq := []

structure StateTableOut where
  stateTable2rxIbhRsp : List RxStateRsp := []
  stateTable2txIbhRsp : List StateTableEntry := []
  stateTable2qpiRsp : List StateTableEntry := []

def stateTable (table : Qpn → StateTableEntry) (i : StateTableIn) :
    (Qpn → StateTableEntry) × StateTableIn × StateTableOut :=
  match i.rxIbh2stateTableUpdReq, i.txIbh2stateTableUpdReq, i.qpi2stateTableUpdReq with
  | r :: rest, _, _ =>
    let i := { i with rxIbh2stateTableUpdReq := rest }
    if r.write then (Function.update table r.qpn ((table r.qpn).rxUpdate r), i, {})
    else (table, i, { stateTable2rxIbhRsp := [(table r.qpn).reply r.isResponse] })
  | [], r :: rest, _ =>
    let i := { i with txIbh2stateTableUpdReq := rest }
    if r.write then (Function.update table r.qpn { table r.qpn with reqNextPsn := r.psn }, i, {})
    else (table, i, { stateTable2txIbhRsp := [table r.qpn] })
  | [], [], r :: rest =>
    let i := { i with qpi2stateTableUpdReq := rest }
    if r.write then (Function.update table r.qpn (.connect r), i, {})
    else (table, i, { stateTable2qpiRsp := [table r.qpn] })
  | [], [], [] => (table, i, {})

end FpgaNetworkStack.Roce
