import Mathlib.Data.Nat.ModEq

/-!
# The DHCP client (`dhcp_client.cpp`)

`receive_message` picks the fields of a reply out of the words of a UDP payload, and `dhcp_fsm` asks for an
address and takes it.  The parser is written for words of 64 bits.  The meta data of a message is read and
dropped, and `open_dhcp_port` is the source of `portOpen`; both are left out, as is `send_message`.
-/

namespace FpgaNetworkStack.Dhcp

/-- `ap_axiu<64, 0, 0, 0>` -/
structure Word where
  data : BitVec 64
  keep : BitVec 8
  last : Bool
  deriving DecidableEq

def DISCOVER : BitVec 8 := 0x01
def OFFER : BitVec 8 := 0x02
def REQUEST : BitVec 8 := 0x03
def ACK : BitVec 8 := 0x05

def MAGIC_COOKIE : BitVec 32 := 0x63538263

structure DhcpReplyMeta where
  identifier : BitVec 32 := 0
  assignedIpAddress : BitVec 32 := 0
  serverAddress : BitVec 32 := 0
  type : BitVec 8 := 0
  deriving DecidableEq, Inhabited

structure DhcpRequestMeta where
  identifier : BitVec 32
  type : BitVec 8
  requestedIpAddress : BitVec 32 := 0
  deriving DecidableEq

/-! ## `receive_message` -/

namespace Word

variable (w : Word)

def low : BitVec 32 := w.data.extractLsb' 0 32

def high : BitVec 32 := w.data.extractLsb' 32 32

/-- The operation of a BOOTP message is a reply. -/
def isReply : Bool := w.data.extractLsb' 0 8 == 0x2

/-- The two parts of the hardware address of the client. -/
def mac1 (myMacAddress : BitVec 48) : Bool := myMacAddress.extractLsb' 0 32 == w.high
def mac2 (myMacAddress : BitVec 48) : Bool := myMacAddress.extractLsb' 32 16 == w.data.extractLsb' 0 16

def isCookie : Bool := MAGIC_COOKIE == w.high

def isOption53 : Bool := w.data.extractLsb' 0 16 == 0x0135

def option53 : BitVec 8 := w.data.extractLsb' 16 8

end Word

structure ReceiveMessage where
  rmIsReply : Bool := false
  rmCorrectMac : Bool := true
  rmIsDHCP : Bool := false
  rmWordCount : BitVec 6 := 0
  metaReg : DhcpReplyMeta := {}
  deriving DecidableEq

/-- The `switch` over the number of the word. -/
def parseWord (myMacAddress : BitVec 48) (s : ReceiveMessage) (w : Word) : ReceiveMessage :=
  match s.rmWordCount.toNat with
  | 0 => { s with
      rmIsReply := w.isReply, metaReg := { s.metaReg with identifier := w.high }, rmCorrectMac := true }
  | 2 => { s with metaReg := { s.metaReg with assignedIpAddress := w.low, serverAddress := w.high } }
  | 3 => { s with rmCorrectMac := s.rmCorrectMac && w.mac1 myMacAddress }
  | 4 => { s with rmCorrectMac := s.rmCorrectMac && w.mac2 myMacAddress }
  | 29 => { s with rmIsDHCP := w.isCookie }
  | 30 => { s with
      metaReg := if w.isOption53 then { s.metaReg with type := w.option53 } else s.metaReg }
  | _ => s

def ReceiveMessage.accepts (s : ReceiveMessage) : Bool := s.rmIsReply && s.rmCorrectMac && s.rmIsDHCP

/-- One call of `receive_message`: the state, what is left of `dataIn`, and the records. -/
def receiveMessage (myMacAddress : BitVec 48) (s : ReceiveMessage) (dataIn : List Word) :
    ReceiveMessage × List Word × List DhcpReplyMeta :=
  match dataIn with
  | [] => (s, [], [])
  | w :: rest =>
    let s := parseWord myMacAddress s w
    ({ s with rmWordCount := if w.last then 0 else s.rmWordCount + 1 }, rest,
      if w.last && s.accepts then [s.metaReg] else [])

/-! ## `dhcp_fsm` -/

inductive DhcpStateType where
  | PORT_WAIT | INIT | SELECTING | REQUESTING | BOUND
  deriving DecidableEq, Repr

structure DhcpFsm where
  state : DhcpStateType := .PORT_WAIT
  randomValue : BitVec 32 := 0x34aad34b
  myIdentity : BitVec 32 := 0
  myIpAddress : BitVec 32 := 0
  ipAddressBuffer : BitVec 32 := 0
  time : BitVec 32 := 100
  deriving DecidableEq

structure DhcpFsmIn where
  replyMetaIn : List DhcpReplyMeta := []
  /-- `portOpen`; only the presence of an element counts. -/
  portOpen : List (BitVec 1) := []

/-- `TIME_5S` of the synthesised code; the simulation has a smaller one. -/
def TIME_5S : BitVec 32 := 750750750

/-- States `SELECTING` and `REQUESTING` without a reply: wait, or start again. -/
def DhcpFsm.wait (s : DhcpFsm) : DhcpFsm :=
  if s.time = 0 then { s with state := .INIT } else { s with time := s.time - 1 }

def dhcpSwitch (s : DhcpFsm) (dhcpEnable : Bool) (inputIpAddress : BitVec 32) (i : DhcpFsmIn) :
    DhcpFsm × DhcpFsmIn × List DhcpRequestMeta :=
  match s.state with
  | .PORT_WAIT =>
    match i.portOpen with
    | [] => ({ s with myIpAddress := inputIpAddress }, i, [])
    | _ :: rest => ({ s with myIpAddress := inputIpAddress, state := .INIT }, { i with portOpen := rest }, [])
  | .INIT =>
    if dhcpEnable then
      if s.time = 0 then
        ({ s with
            myIpAddress := inputIpAddress, myIdentity := s.randomValue
            randomValue := (s.randomValue * 8) ^^^ s.randomValue, time := TIME_5S, state := .SELECTING },
          i, [⟨s.randomValue, DISCOVER, 0⟩])
      else ({ s with myIpAddress := inputIpAddress, time := s.time - 1 }, i, [])
    else ({ s with myIpAddress := inputIpAddress }, i, [])
  | .SELECTING =>
    match i.replyMetaIn with
    | [] => (s.wait, i, [])
    | reply :: rest =>
      let i := { i with replyMetaIn := rest }
      if reply.identifier = s.myIdentity then
        if reply.type = OFFER then
          ({ s with ipAddressBuffer := reply.assignedIpAddress, time := TIME_5S, state := .REQUESTING },
            i, [⟨s.myIdentity, REQUEST, reply.assignedIpAddress⟩])
        else ({ s with state := .INIT }, i, [])
      else (s, i, [])
  | .REQUESTING =>
    match i.replyMetaIn with
    | [] => (s.wait, i, [])
    | reply :: rest =>
      let i := { i with replyMetaIn := rest }
      if reply.identifier = s.myIdentity then
        if reply.type = ACK then ({ s with myIpAddress := s.ipAddressBuffer, state := .BOUND }, i, [])
        else ({ s with state := .INIT }, i, [])
      else (s, i, [])
  | .BOUND =>
    ({ s with state := if dhcpEnable then .BOUND else .INIT }, { i with replyMetaIn := i.replyMetaIn.tail }, [])

/-- One call of `dhcp_fsm`; `ipAddressOut` follows `myIpAddress`. -/
def dhcpFsm (s : DhcpFsm) (dhcpEnable : Bool) (inputIpAddress : BitVec 32) (i : DhcpFsmIn) :
    DhcpFsm × DhcpFsmIn × List DhcpRequestMeta :=
  let (s, i, out) := dhcpSwitch s dhcpEnable inputIpAddress i
  ({ s with randomValue := s.randomValue + 1 }, i, out)

end FpgaNetworkStack.Dhcp
