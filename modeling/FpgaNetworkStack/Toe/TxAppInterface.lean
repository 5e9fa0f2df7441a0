import FpgaNetworkStack.Toe.TxAppStreamIf

/-!
# The transmit application interface (`tx_app_interface.cpp`)
-/

namespace FpgaNetworkStack.Toe

variable (b : Build)

/-! ## `txEventMerger` -/

structure TxEventMergerIn where
  txApp2eventEngMergeEvent : List (Event b) := []
  txAppStream2eventMergeEvent : List (Event b) := []

/-- One call of `txEventMerger`: the events of `tx_app_if` go first.  The second component is `out`,
the third `tasi_txEventCacheFifo`. -/
def txEventMerger (i : TxEventMergerIn b) : TxEventMergerIn b × List (Event b) × List (Event b) :=
  match i.txApp2eventEngMergeEvent, i.txAppStream2eventMergeEvent with
  | ev :: rest, _ => ({ i with txApp2eventEngMergeEvent := rest }, [ev], [])
  | [], ev :: rest =>
    ({ i with txAppStream2eventMergeEvent := rest }, [ev],
      if b.tcpNodelay && ev.type == .TX then [ev] else [])
  | [], [] => (i, [], [])

/-! ## `txAppStatusHandler` -/

inductive TashState where
  | READ_EV | READ_STATUS_1 | READ_STATUS_2
  deriving DecidableEq, Repr

structure TxAppStatusHandler where
  tashState : TashState
  ev : Event b
  deriving DecidableEq

def TxAppStatusHandler.init : TxAppStatusHandler b := ⟨.READ_EV, default⟩

/-- A status is read only for its bit `okay`. -/
structure TxAppStatusHandlerIn where
  txBufferWriteStatus : List Bool := []
  tasiEventCacheFifo : List (Event b) := []

/-- The stream `txAppStream2eventEng_setEvent` exists without `TCP_NODELAY` only. -/
structure TxAppStatusHandlerOut where
  txAppStream2eventEngSetEvent : List (Event b) := []
  txApp2txSarAppPush : List (TxAppTxSarPush b) := []

variable {b}

/-- The write of event `ev` passes the end of the buffer. -/
def Event.crosses (ev : Event b) : Bool := decide (b.bufferSize < ev.address.toNat + ev.length.toNat)

def Event.release (ev : Event b) : TxAppStatusHandlerOut b :=
  { txApp2txSarAppPush := [⟨ev.sessionID, ev.address + ev.length.setWidth _⟩]
    txAppStream2eventEngSetEvent := if b.tcpNodelay then [] else [ev] }

variable (b)

def txAppStatusHandler (s : TxAppStatusHandler b) (i : TxAppStatusHandlerIn b) :
    TxAppStatusHandler b × TxAppStatusHandlerIn b × TxAppStatusHandlerOut b :=
  match s.tashState with
  | .READ_EV =>
    match i.tasiEventCacheFifo with
    | [] => (s, i, {})
    | ev :: rest =>
      let i := { i with tasiEventCacheFifo := rest }
      if ev.type == .TX then (⟨.READ_STATUS_1, ev⟩, i, {})
      else ({ s with ev }, i, { txAppStream2eventEngSetEvent := if b.tcpNodelay then [] else [ev] })
  | .READ_STATUS_1 =>
    match i.txBufferWriteStatus with
    | [] => (s, i, {})
    | okay :: rest =>
      let i := { i with txBufferWriteStatus := rest }
      if okay then
        if s.ev.crosses then ({ s with tashState := .READ_STATUS_2 }, i, {})
        else ({ s with tashState := .READ_EV }, i, s.ev.release)
      else (s, i, {})
  | .READ_STATUS_2 =>
    match i.txBufferWriteStatus with
    | [] => (s, i, {})
    | okay :: rest =>
      let i := { i with txBufferWriteStatus := rest }
      if okay then ({ s with tashState := .READ_EV }, i, s.ev.release)
      else (s, i, {})

/-! ## `tx_app_table` -/

/-- `min_window` exists with `TCP_NODELAY` only. -/
structure TxAppTableEntry where
  ackd : BitVec b.windowBits
  mempt : BitVec b.windowBits
  minWindow : BitVec b.windowBits
  deriving DecidableEq, Inhabited

variable {b}

/-- An acknowledgement pushed by the tx_sar table; the `ackd` of an initialising one is `not_ackd`. -/
def TxAppTableEntry.push (entry : TxAppTableEntry b) (ackPush : TxSarAckPush b) : TxAppTableEntry b :=
  { ackd := if ackPush.init then ackPush.ackd - 1 else ackPush.ackd
    mempt := if ackPush.init then ackPush.ackd else entry.mempt
    minWindow := if b.tcpNodelay then ackPush.minWindow else entry.minWindow }

/-- The reply to a read.  Without `TCP_NODELAY` the constructor takes its pointers as 16-bit
values. -/
def TxAppTableEntry.reply (entry : TxAppTableEntry b) (id : SessionID) : TxAppTxSarReply b :=
  if b.tcpNodelay then ⟨id, entry.ackd, entry.mempt, entry.minWindow⟩
  else ⟨id, (entry.ackd.setWidth 16).setWidth _, (entry.mempt.setWidth 16).setWidth _, 0⟩

variable (b)

structure TxAppTableIn where
  txSar2txAppAckPush : List (TxSarAckPush b) := []
  txAppUpdReq : List (TxAppTxSarQuery b) := []

/-- One call of `tx_app_table`: acknowledgements go first.  The last component is `txApp_upd_rsp`. -/
def txAppTable (appTable : SessionID → TxAppTableEntry b) (i : TxAppTableIn b) :
    (SessionID → TxAppTableEntry b) × TxAppTableIn b × List (TxAppTxSarReply b) :=
  match i.txSar2txAppAckPush, i.txAppUpdReq with
  | ackPush :: rest, _ =>
    (Function.update appTable ackPush.sessionID ((appTable ackPush.sessionID).push ackPush),
      { i with txSar2txAppAckPush := rest }, [])
  | [], q :: rest =>
    let i := { i with txAppUpdReq := rest }
    if q.write then
      (Function.update appTable q.sessionID { appTable q.sessionID with mempt := q.mempt }, i, [])
    else (appTable, i, [(appTable q.sessionID).reply q.sessionID])
  | [], [] => (appTable, i, [])

end FpgaNetworkStack.Toe
