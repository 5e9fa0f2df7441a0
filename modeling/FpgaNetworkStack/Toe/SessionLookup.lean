import FpgaNetworkStack.Toe.HashTable

/-!
# The session lookup controller (`session_lookup_controller.cpp`)

Tuples are mapped to session IDs by a hash table.  `lookupReplyHandler` asks the table and inserts new
tuples with an ID of the free list, `updateRequestSender` puts insertions and deletions in one order,
`reverseLookupTableInterface` keeps the tuple of every ID and releases sessions, and `sessionIdManager` fills
the free list.
-/

namespace FpgaNetworkStack.Toe

inductive LookupSource where
  | RX | TX_APP
  deriving DecidableEq, Repr, Inhabited

inductive LookupOp where
  | INSERT | DELETE
  deriving DecidableEq, Repr, Inhabited

/-- `threeTupleInternal`: the own address is the same for every session. -/
structure ThreeTuple where
  theirIp : BitVec 32
  myPort : BitVec 16
  theirPort : BitVec 16
  deriving DecidableEq, Inhabited

structure SessionLookupQueryInternal where
  tuple : ThreeTuple
  allowCreation : Bool
  source : LookupSource
  deriving DecidableEq, Inhabited

structure RtlSessionLookupRequest where
  key : ThreeTuple
  source : LookupSource
  deriving DecidableEq

structure RtlSessionLookupReply where
  key : ThreeTuple
  sessionID : SessionID := 0
  hit : Bool
  source : LookupSource
  deriving DecidableEq

structure RtlSessionUpdateRequest where
  op : LookupOp
  key : ThreeTuple
  value : SessionID
  source : LookupSource
  deriving DecidableEq

structure RtlSessionUpdateReply where
  op : LookupOp
  key : ThreeTuple
  sessionID : SessionID
  success : Bool
  source : LookupSource
  deriving DecidableEq

structure RevLupInsert where
  key : SessionID
  value : ThreeTuple
  deriving DecidableEq

/-! ## Session IDs -/

/-- One call of `sessionIdManager`; `counter` issues every ID once, released IDs come first. -/
def sessionIdManager (maxSessions : Nat) (counter : BitVec 14) (finId : List (BitVec 14)) :
    BitVec 14 × List (BitVec 14) × List (BitVec 14) :=
  match finId with
  | sessionID :: rest => (counter, rest, [sessionID])
  | [] => if counter.toNat < maxSessions then (counter + 1, [], [counter]) else (counter, [], [])

/-! ## `lookupReplyHandler` -/

inductive SlcFsmState where
  | LUP_REQ | LUP_RSP | UPD_RSP
  deriving DecidableEq, Repr

structure LookupReplyHandler where
  slcFsmState : SlcFsmState := .LUP_REQ
  slcInsertTuples : List ThreeTuple := []
  slcQueryCache : List SessionLookupQueryInternal := []

structure LookupReplyHandlerIn where
  sessionLookupRsp : List RtlSessionLookupReply := []
  sessionInsertRsp : List RtlSessionUpdateReply := []
  rxEng2sLookupReq : List SessionLookupQuery := []
  txApp2sLookupReq : List FourTuple := []
  sessionIdFreeList : List (BitVec 14) := []

structure LookupReplyHandlerOut where
  sessionLookupReq : List RtlSessionLookupRequest := []
  sLookup2rxEngRsp : List SessionLookupReply := []
  sLookup2txAppRsp : List SessionLookupReply := []
  sessionInsertReq : List RtlSessionUpdateRequest := []
  reverseTableInsertFifo : List RevLupInsert := []

/-- The tuple of a connection that is opened by the application. -/
def FourTuple.sent (t : FourTuple) : ThreeTuple := ⟨t.dstIp, t.srcPort, t.dstPort⟩

def FourTuple.received (t : FourTuple) : ThreeTuple := ⟨t.srcIp, t.dstPort, t.srcPort⟩

/-- The answer goes to the one who asked. -/
def answerTo (source : LookupSource) (r : SessionLookupReply) : LookupReplyHandlerOut :=
  match source with
  | .RX => { sLookup2rxEngRsp := [r] }
  | .TX_APP => { sLookup2txAppRsp := [r] }

theorem answerTo_requests (source : LookupSource) (r : SessionLookupReply) :
    (answerTo source r).sessionLookupReq = [] ∧ (answerTo source r).sessionInsertReq = [] ∧
      (answerTo source r).reverseTableInsertFifo = [] := by
  cases source <;> exact ⟨rfl, rfl, rfl⟩

/-- State `LUP_REQ`: the application first. -/
def lupReq (s : LookupReplyHandler) (i : LookupReplyHandlerIn) :
    LookupReplyHandler × LookupReplyHandlerIn × LookupReplyHandlerOut :=
  let ask (i : LookupReplyHandlerIn) (q : SessionLookupQueryInternal) :
      LookupReplyHandler × LookupReplyHandlerIn × LookupReplyHandlerOut :=
    ({ s with slcFsmState := .LUP_RSP, slcQueryCache := s.slcQueryCache ++ [q] }, i,
      { sessionLookupReq := [⟨q.tuple, q.source⟩] })
  match i.txApp2sLookupReq, i.rxEng2sLookupReq with
  | toeTuple :: rest, _ => ask { i with txApp2sLookupReq := rest } ⟨toeTuple.sent, true, .TX_APP⟩
  | [], query :: rest =>
    ask { i with rxEng2sLookupReq := rest } ⟨query.tuple.received, query.allowCreation, .RX⟩
  | [], [] => (s, i, {})

/-- State `LUP_RSP` with the answer of the hash table. -/
def lupRsp (s : LookupReplyHandler) (i : LookupReplyHandlerIn) (lupReply : RtlSessionLookupReply)
    (intQuery : SessionLookupQueryInternal) : LookupReplyHandler × LookupReplyHandlerIn × LookupReplyHandlerOut :=
  match !lupReply.hit && intQuery.allowCreation, i.sessionIdFreeList with
  | true, freeID :: rest =>
    ({ s with slcFsmState := .UPD_RSP, slcInsertTuples := s.slcInsertTuples ++ [intQuery.tuple] },
      { i with sessionIdFreeList := rest },
      { sessionInsertReq := [⟨.INSERT, intQuery.tuple, freeID.setWidth 16, lupReply.source⟩] })
  | _, _ => ({ s with slcFsmState := .LUP_REQ }, i, answerTo lupReply.source ⟨lupReply.sessionID, lupReply.hit⟩)

/-- State `UPD_RSP`; whether the insertion succeeded is not looked at. -/
def updRsp (s : LookupReplyHandler) (insertReply : RtlSessionUpdateReply) (tuple : ThreeTuple) :
    LookupReplyHandler × LookupReplyHandlerOut :=
  ({ s with slcFsmState := .LUP_REQ },
    { answerTo insertReply.source ⟨insertReply.sessionID, true⟩ with
      reverseTableInsertFifo := [⟨insertReply.sessionID, tuple⟩] })

def lookupReplyHandler (s : LookupReplyHandler) (i : LookupReplyHandlerIn) :
    LookupReplyHandler × LookupReplyHandlerIn × LookupReplyHandlerOut :=
  match s.slcFsmState with
  | .LUP_REQ => lupReq s i
  | .LUP_RSP =>
    match i.sessionLookupRsp, s.slcQueryCache with
    | lupReply :: rsps, intQuery :: cache =>
      lupRsp { s with slcQueryCache := cache } { i with sessionLookupRsp := rsps } lupReply intQuery
    | _, _ => (s, i, {})
  | .UPD_RSP =>
    match i.sessionInsertRsp, s.slcInsertTuples with
    | insertReply :: rsps, tuple :: tuples =>
      let (s, out) := updRsp { s with slcInsertTuples := tuples } insertReply tuple
      (s, { i with sessionInsertRsp := rsps }, out)
    | _, _ => (s, i, {})

/-! ## Updates of the hash table -/

structure UpdateRequestSenderIn where
  sessionInsertReq : List RtlSessionUpdateRequest := []
  sessionDeleteReq : List RtlSessionUpdateRequest := []

/-- One call of `updateRequestSender` with its outputs `sessionUpdate_req` and `sessionIdFinFifo`: the ID of
a deleted tuple goes back to the free list. -/
def updateRequestSender (i : UpdateRequestSenderIn) :
    UpdateRequestSenderIn × List RtlSessionUpdateRequest × List (BitVec 14) :=
  match i.sessionInsertReq, i.sessionDeleteReq with
  | request :: rest, _ => ({ i with sessionInsertReq := rest }, [request], [])
  | [], request :: rest => ({ i with sessionDeleteReq := rest }, [request], [request.value.setWidth 14])
  | [], [] => (i, [], [])

/-- One call of `updateReplyHandler`: only insertions are answered. -/
def updateReplyHandler (sessionUpdateRsp : List RtlSessionUpdateReply) :
    List RtlSessionUpdateReply × List RtlSessionUpdateReply :=
  match sessionUpdateRsp with
  | [] => ([], [])
  | upReply :: rest => (rest, if upReply.op = .INSERT then [upReply] else [])

/-! ## `reverseLookupTableInterface` -/

structure ReverseLookupTable where
  reverseLookupTable : SessionID → ThreeTuple := fun _ => default
  tupleValid : SessionID → Bool := fun _ => false

structure ReverseLookupTableIn where
  revTableInserts : List RevLupInsert := []
  stateTable2sLookupReleaseSession : List SessionID := []
  txEng2sLookupRevReq : List SessionID := []

structure ReverseLookupTableOut where
  sLookup2portTableReleasePort : List (BitVec 16) := []
  deleteCache : List RtlSessionUpdateRequest := []
  sLookup2txEngRevRsp : List FourTuple := []

def reverseLookupTableInterface (myIpAddress : BitVec 32) (s : ReverseLookupTable) (i : ReverseLookupTableIn) :
    ReverseLookupTable × ReverseLookupTableIn × ReverseLookupTableOut :=
  match i.revTableInserts, i.stateTable2sLookupReleaseSession, i.txEng2sLookupRevReq with
  | insert :: rest, _, _ =>
    ({ reverseLookupTable := Function.update s.reverseLookupTable insert.key insert.value
       tupleValid := Function.update s.tupleValid insert.key true },
      { i with revTableInserts := rest }, {})
  | [], sessionID :: rest, _ =>
    let releaseTuple := s.reverseLookupTable sessionID
    ({ s with tupleValid := Function.update s.tupleValid sessionID false },
      { i with stateTable2sLookupReleaseSession := rest },
      if s.tupleValid sessionID then
        { sLookup2portTableReleasePort := [releaseTuple.myPort]
          deleteCache := [⟨.DELETE, releaseTuple, sessionID, .RX⟩] }
      else {})
  | [], [], sessionID :: rest =>
    let t := s.reverseLookupTable sessionID
    (s, { i with txEng2sLookupRevReq := rest },
      { sLookup2txEngRevRsp := [⟨myIpAddress, t.theirIp, t.myPort, t.theirPort⟩] })
  | [], [], [] => (s, i, {})

/-! ## `hash_table_core` -/

structure HashTableIn where
  lupReq : List RtlSessionLookupRequest := []
  updReq : List RtlSessionUpdateRequest := []

/-- One call of `hash_table_core`, with the tuples as keys: lookups come first, updates are applied in
order. -/
def hashTableCore {w : Nat} (hashes : ThreeTuple → Fin NUM_TABLES → BitVec w) (t : HashTable ThreeTuple w)
    (i : HashTableIn) :
    HashTable ThreeTuple w × HashTableIn × List RtlSessionLookupReply × List RtlSessionUpdateReply :=
  match i.lupReq, i.updReq with
  | request :: rest, _ =>
    let found := t.cuckooTables.lookup hashes request.key
    (t, { i with lupReq := rest },
      [{ key := request.key, sessionID := found.getD 0, hit := found.isSome, source := request.source }], [])
  | [], request :: rest =>
    let (t, success) := match request.op with
      | .INSERT => t.insert hashes request.key request.value
      | .DELETE => t.remove hashes request.key
    (t, { i with updReq := rest }, [], [⟨request.op, request.key, request.value, success, request.source⟩])
  | [], [] => (t, i, [], [])

end FpgaNetworkStack.Toe
