import FpgaNetworkStack.Roce.PacketHeaders
import FpgaNetworkStack.Toe.RxMemWrite

/-!
# The ARP server (`arp_server_subnet.cpp`)

`process_arp_pkg` reads the packets and `arp_table` answers the lookups.  Words have `N` bytes.  The
sender `generate_arp_pkg` is left out: what it is asked for stays in `arpReplyMetaFifo` and
`arpRequestMetaFifo`.
-/

namespace FpgaNetworkStack.Arp

open Roce (PacketHeader)
open Toe (AxiWord)

def ARP_HEADER_SIZE : Nat := 336

def ARP_OP_REQUEST : BitVec 16 := 0x0100
def ARP_OP_REPLY : BitVec 16 := 0x0200

structure ArpTableEntry where
  ipAddress : BitVec 32 := 0
  macAddress : BitVec 48 := 0
  valid : Bool := false
  deriving DecidableEq

structure ArpTableReply where
  macAddress : BitVec 48
  hit : Bool
  deriving DecidableEq

structure ArpReplyMeta where
  srcMacAddr : BitVec 48
  senderHwAddr : BitVec 48
  senderProtoAddr : BitVec 32
  deriving DecidableEq

/-! ## `arpHeader` -/

/-- The bits of an `arpHeader`. -/
abbrev Header : Type := BitVec ARP_HEADER_SIZE

/-- The constructor sets the types and lengths. -/
def initialHeader : Header :=
  (0x0608 <<< 96) ||| (0x0100 <<< 112) ||| (0x0008 <<< 128) ||| (6 <<< 144) ||| (4 <<< 152)

namespace Header

variable (header : Header)

def getSrcMacAddr : BitVec 48 := header.extractLsb' 48 48
def operation : BitVec 16 := header.extractLsb' 160 16
def getSenderHwAddr : BitVec 48 := header.extractLsb' 176 48
def getSenderProtoAddr : BitVec 32 := header.extractLsb' 224 32
def getTargetProtoAddr : BitVec 32 := header.extractLsb' 304 32
def isRequest : Bool := header.operation == ARP_OP_REQUEST
def isReply : Bool := header.operation == ARP_OP_REPLY

end Header

/-! ## `process_arp_pkg` -/

structure ProcessArpPkg (N : Nat) where
  header : PacketHeader (8 * N) ARP_HEADER_SIZE := { header := initialHeader }
  requestCounter : BitVec 16 := 0
  replyCounter : BitVec 16 := 0
  regRequestCount : BitVec 16 := 0
  regReplyCount : BitVec 16 := 0

structure ProcessArpPkgOut where
  arpReplyMetaFifo : List ArpReplyMeta := []
  arpTableInsertFifo : List ArpTableEntry := []

variable {N : Nat}

/-- What is done at the last word of a packet. -/
def actOn (s : ProcessArpPkg N) (header : Header) (myIpAddress : BitVec 32) : ProcessArpPkg N × ProcessArpPkgOut :=
  if header.getTargetProtoAddr = myIpAddress then
    if header.isRequest then
      ({ s with requestCounter := s.requestCounter + 1, regRequestCount := s.requestCounter + 1 },
        { arpReplyMetaFifo := [⟨header.getSrcMacAddr, header.getSenderHwAddr, header.getSenderProtoAddr⟩] })
    else if header.isReply then
      ({ s with replyCounter := s.replyCounter + 1, regReplyCount := s.replyCounter + 1 },
        { arpTableInsertFifo := [⟨header.getSenderProtoAddr, header.getSenderHwAddr, true⟩] })
    else (s, {})
  else (s, {})

def processArpPkg (s : ProcessArpPkg N) (dataIn : List (AxiWord N)) (myIpAddress : BitVec 32) :
    ProcessArpPkg N × List (AxiWord N) × ProcessArpPkgOut :=
  match dataIn with
  | [] => (s, [], {})
  | word :: rest =>
    let header := s.header.parseWord word.data
    if word.last then
      let (s, out) := actOn s header.header myIpAddress
      ({ s with header := header.clear }, rest, out)
    else ({ s with header }, rest, {})

/-! ## `arp_table` -/

/-- `arpTable[256]`, zero at the start. -/
abbrev Entries : Type := BitVec 8 → ArpTableEntry

/-- The index is the highest byte of the number, which is the last byte of the address. -/
def slot (ipAddress : BitVec 32) : BitVec 8 := ipAddress.extractLsb' 24 8

def insertEntry (arpTable : Entries) (e : ArpTableEntry) : Entries := Function.update arpTable (slot e.ipAddress) e

structure ArpTableIn where
  arpTableInsertFifo : List ArpTableEntry := []
  macIpEncode_req : List (BitVec 32) := []
  hostIpEncode_req : List (BitVec 32) := []

structure ArpTableOut where
  macIpEncode_rsp : List ArpTableReply := []
  hostIpEncode_rsp : List ArpTableReply := []
  arpRequestMetaFifo : List (BitVec 32) := []

def reply (arpTable : Entries) (query_ip : BitVec 32) : ArpTableReply :=
  ⟨(arpTable (slot query_ip)).macAddress, (arpTable (slot query_ip)).valid⟩

def ask (arpTable : Entries) (query_ip : BitVec 32) : List (BitVec 32) :=
  if (arpTable (slot query_ip)).valid then [] else [query_ip]

def arpTable (s : Entries) (i : ArpTableIn) : Entries × ArpTableIn × ArpTableOut :=
  match i.arpTableInsertFifo, i.macIpEncode_req, i.hostIpEncode_req with
  | currEntry :: rest, _, _ => (insertEntry s currEntry, { i with arpTableInsertFifo := rest }, {})
  | [], query_ip :: rest, _ =>
    (s, { i with macIpEncode_req := rest },
      { macIpEncode_rsp := [reply s query_ip], arpRequestMetaFifo := ask s query_ip })
  | [], [], query_ip :: rest =>
    (s, { i with hostIpEncode_req := rest },
      { hostIpEncode_rsp := [reply s query_ip], arpRequestMetaFifo := ask s query_ip })
  | [], [], [] => (s, i, {})

end FpgaNetworkStack.Arp
