import FpgaNetworkStack.Toe.Internals

/-!
# The connection interface of the application (`tx_app_if.cpp`)

Opens and closes connections.  Opening writes SYN_SENT without reading the state; closing reads the
state, which locks the session, and always writes it back.
-/

namespace FpgaNetworkStack.Toe

open SessionState EventType

variable (b : Build)

inductive TaiFsmStateType where
  | IDLE | CLOSE_CONN
  deriving DecidableEq, Repr

structure TxAppIf where
  taiFsmState : TaiFsmStateType := .IDLE
  taiCloseSessionID : SessionID := 0
  deriving DecidableEq

structure IpTuple where
  ipAddress : BitVec 32
  ipPort : BitVec 16
  deriving DecidableEq

structure TxAppIfIn where
  appOpenConnReq : List IpTuple := []
  closeConnReq : List SessionID := []
  sLookup2txAppRsp : List SessionLookupReply := []
  portTable2txAppPortRsp : List (BitVec 16) := []
  stateTable2txAppUpdRsp : List SessionState := []
  conEstablishedIn : List OpenStatus := []
  rtTimer2txAppNotification : List OpenStatus := []

structure TxAppIfOut where
  appOpenConnRsp : List OpenStatus := []
  txApp2sLookupReq : List FourTuple := []
  txApp2stateTableUpdReq : List StateQuery := []
  txApp2eventEngSetEvent : List (Event b) := []

/-- Ask for a session once a free port is known; independent of the state machine below. -/
def openConnection (myIpAddress : BitVec 32) (i : TxAppIfIn) : TxAppIfIn × List FourTuple :=
  match i.appOpenConnReq, i.portTable2txAppPortRsp with
  | serverAddr :: reqs, freePort :: ports =>
    ({ i with appOpenConnReq := reqs, portTable2txAppPortRsp := ports },
      [⟨myIpAddress, reverse32 serverAddr.ipAddress, reverse16 freePort,
        reverse16 serverAddr.ipPort⟩])
  | _, _ => (i, [])

/-- The states in which a close request sends a FIN. -/
def closable (state : SessionState) : Bool :=
  state == ESTABLISHED || state == FIN_WAIT_2 || state == FIN_WAIT_1

/-- The state machine of `tx_app_if`. -/
def taiFsm (s : TxAppIf) (i : TxAppIfIn) : TxAppIf × TxAppIfIn × TxAppIfOut b :=
  match s.taiFsmState with
  | .IDLE =>
    match i.sLookup2txAppRsp, i.conEstablishedIn, i.rtTimer2txAppNotification, i.closeConnReq with
    | session :: rest, _, _, _ =>
      let i := { i with sLookup2txAppRsp := rest }
      if session.hit then
        (s, i,
          { txApp2eventEngSetEvent := [{ type := SYN, sessionID := session.sessionID }]
            txApp2stateTableUpdReq := [.update session.sessionID SYN_SENT] })
      else (s, i, { appOpenConnRsp := [⟨0, false, 0, 0⟩] })
    | [], status :: rest, _, _ =>
      (s, { i with conEstablishedIn := rest }, { appOpenConnRsp := [status] })
    | [], [], status :: rest, _ =>
      (s, { i with rtTimer2txAppNotification := rest }, { appOpenConnRsp := [status] })
    | [], [], [], id :: rest =>
      (⟨.CLOSE_CONN, id⟩, { i with closeConnReq := rest },
        { txApp2stateTableUpdReq := [.read id] })
    | [], [], [], [] => (s, i, {})
  | .CLOSE_CONN =>
    match i.stateTable2txAppUpdRsp with
    | [] => (s, i, {})
    | state :: rest =>
      let id := s.taiCloseSessionID
      ({ s with taiFsmState := .IDLE }, { i with stateTable2txAppUpdRsp := rest },
        if closable state then
          { txApp2stateTableUpdReq := [.update id FIN_WAIT_1]
            txApp2eventEngSetEvent := [{ type := FIN, sessionID := id }] }
        -- have to release the lock
        else { txApp2stateTableUpdReq := [.update id state] })

def txAppIf (myIpAddress : BitVec 32) (s : TxAppIf) (i : TxAppIfIn) :
    TxAppIf × TxAppIfIn × TxAppIfOut b :=
  let (i, lookups) := openConnection myIpAddress i
  let (s, i, out) := taiFsm b s i
  (s, i, { out with txApp2sLookupReq := lookups })

end FpgaNetworkStack.Toe
