import FpgaNetworkStack.Axi.Headers
import FpgaNetworkStack.Toe.PortTable

/-!
# The filter in front of the network stack (`ip_handler.cpp`, `DATA_WIDTH` 512)

Frames are sent on by their Ethernet protocol.  An IPv4 packet loses its Ethernet header; its checksum, its
destination and its protocol are read from its first word and meet the packet again further down, each through a
queue of its own.
-/

namespace FpgaNetworkStack.IpHandler

open Axi (Lane Word)
open Roce (PacketHeader)
open Toe (reverse16)

variable {N : Nat}

def ETH_HEADER_SIZE : Nat := 112
def IPV4_HEADER_SIZE : Nat := 160

def ARP : BitVec 16 := 0x0806
def IPv4 : BitVec 16 := 0x0800
def IPv6 : BitVec 16 := 0x86DD

def ICMP : BitVec 8 := 0x01
def ICMPv6 : BitVec 8 := 0x3a
def UDP : BitVec 8 := 0x11
def TCP : BitVec 8 := 0x06

/-! ## Header fields -/

def getEthertype (header : BitVec ETH_HEADER_SIZE) : BitVec 16 := reverse16 (header.extractLsb' 96 16)

def getDstAddr (header : BitVec IPV4_HEADER_SIZE) : BitVec 32 := header.extractLsb' 128 32

def getProtocol (header : BitVec IPV4_HEADER_SIZE) : BitVec 8 := header.extractLsb' 72 8

/-! ## `detect_eth_protocol` and `extract_ip_meta`

Both pass a packet on and read the header at its start once.
-/

structure HeaderReader (N size : Nat) where
  header : PacketHeader (8 * N) size := {}
  metaWritten : Bool := false

/-- A word of the packet, and the header when it has just become complete. -/
def HeaderReader.read {size : Nat} (s : HeaderReader N size) (word : Word N) :
    HeaderReader N size × List (BitVec size) :=
  let header := s.header.parseWord word.data
  let isNew := header.ready && !s.metaWritten
  ({ header := if word.last then header.clear else header
     metaWritten := !word.last && (s.metaWritten || isNew) },
    if isNew then [header.header] else [])

@[ext]
structure DetectEthOut (N : Nat) where
  etherTypeFifo : List (BitVec 16) := []
  dataOut : List (Word N) := []

def detectEthProtocol (s : HeaderReader N ETH_HEADER_SIZE) (dataIn : List (Word N)) :
    HeaderReader N ETH_HEADER_SIZE × List (Word N) × DetectEthOut N :=
  match dataIn with
  | [] => (s, [], {})
  | word :: rest =>
    ((s.read word).1, rest, { etherTypeFifo := (s.read word).2.map getEthertype, dataOut := [word] })

@[ext]
structure ExtractOut (N : Nat) where
  dataOut : List (Word N) := []
  ipv4Protocol : List (BitVec 8) := []
  validIpAddressFifo : List Bool := []

/-- The local address and the broadcast address. -/
def validIpAddress (myIpAddress : BitVec 32) (header : BitVec IPV4_HEADER_SIZE) : Bool :=
  getDstAddr header == myIpAddress || getDstAddr header == 0xFFFFFFFF

def extractIpMeta (myIpAddress : BitVec 32) (s : HeaderReader N IPV4_HEADER_SIZE) (dataIn : List (Word N)) :
    HeaderReader N IPV4_HEADER_SIZE × List (Word N) × ExtractOut N :=
  match dataIn with
  | [] => (s, [], {})
  | currWord :: rest =>
    ((s.read currWord).1, rest,
      { dataOut := [currWord]
        ipv4Protocol := (s.read currWord).2.map getProtocol
        validIpAddressFifo := (s.read currWord).2.map (validIpAddress myIpAddress) })

/-! ## `route_by_eth_protocol` -/

structure Route where
  repFsmState : Bool := false
  repEtherType : BitVec 16 := 0

@[ext]
structure RouteIn (N : Nat) where
  etherTypeFifoIn : List (BitVec 16) := []
  dataIn : List (Word N) := []

@[ext]
structure RouteOut (N : Nat) where
  arpDataOut : List (Word N) := []
  ipDataOut : List (Word N) := []
  ipv6DataOut : List (Word N) := []

/-- Where a word goes; `wide` is asked of the first word of an IP packet. -/
def routeWord (etherType : BitVec 16) (wide : Bool) (word : Word N) : RouteOut N :=
  if etherType = ARP then { arpDataOut := [word] }
  else if etherType = IPv4 ∧ wide = true then { ipDataOut := [word] }
  else if etherType = IPv6 ∧ wide = true then { ipv6DataOut := [word] }
  else {}

def routeByEthProtocol (s : Route) (i : RouteIn N) : Route × RouteIn N × RouteOut N :=
  match s.repFsmState, i.etherTypeFifoIn, i.dataIn with
  | false, etherType :: types, word :: rest =>
    ({ repFsmState := !word.last, repEtherType := etherType }, ⟨types, rest⟩,
      routeWord etherType (decide (64 < 8 * N)) word)
  | true, types, word :: rest =>
    ({ s with repFsmState := !word.last }, ⟨types, rest⟩, routeWord s.repEtherType true word)
  | _, _, _ => (s, i, {})

/-! ## The checksum of the header -/

/-- Two sums of 17 bits are added, and the carry is put back. -/
def foldAdd (a b : BitVec 17) : BitVec 17 := (a + b + ((a + b) >>> 16)) &&& 0xFFFF

/-- `subSums<32>`. -/
abbrev SubSums := List (BitVec 17)

structure ComputeChecksum where
  ipSums : SubSums := List.replicate 32 0
  ipHeaderLen : BitVec 4 := 0
  firstWord : Bool := true

@[ext]
structure ComputeOut where
  dataOut : List (Word 64) := []
  subSumFifoOut : List SubSums := []

def addHeader (ipSums : SubSums) (ipHeaderLen : BitVec 4) (data : BitVec (8 * 64)) : SubSums :=
  ipSums.mapIdx fun i sum =>
    if i / 2 < ipHeaderLen.toNat then foldAdd sum ((reverse16 (data.extractLsb' (16 * i) 16)).setWidth 17) else sum

def computeIpv4Checksum (s : ComputeChecksum) (dataIn : List (Word 64)) :
    ComputeChecksum × List (Word 64) × ComputeOut :=
  match dataIn with
  | [] => (s, [], {})
  | currWord :: rest =>
    let ipHeaderLen := if s.firstWord then currWord.data.extractLsb' 0 4 else s.ipHeaderLen
    let ipSums := if s.firstWord then addHeader s.ipSums ipHeaderLen currWord.data else s.ipSums
    ({ ipSums := if currWord.last then List.replicate 32 0 else ipSums
       ipHeaderLen
       firstWord := currWord.last },
      rest, { dataOut := [currWord], subSumFifoOut := if s.firstWord then [ipSums] else [] })

/-- The upper half of the sums is added to the lower half. -/
def addHalves (n : Nat) (ipSums : SubSums) : SubSums := List.zipWith foldAdd (ipSums.take n) (ipSums.drop n)

/-- The sum of all 32 sums is all ones. -/
def checksumValid (ipSums : SubSums) : Bool :=
  let total := (addHalves 1 (addHalves 2 (addHalves 4 (addHalves 8 (addHalves 16 ipSums))))).headD 0
  (~~~total).extractLsb' 0 16 == 0

def checkIpv4Checksum (subSumFifoIn : List SubSums) : List SubSums × List Bool :=
  match subSumFifoIn with
  | [] => ([], [])
  | ipSums :: rest => (rest, [checksumValid ipSums])

/-! ## `ip_invalid_dropper` -/

inductive DropperState where
  | GET_VALID | FWD | DROP
  deriving DecidableEq, Repr

@[ext]
structure DropperIn (N : Nat) where
  dataIn : List (Word N) := []
  validChecksumFifoIn : List Bool := []
  validIpAddressFifoIn : List Bool := []

@[ext]
structure DropperOut (N : Nat) where
  dataOut : List (Word N) := []
  ipv4ValidFifoOut : List Bool := []

def ipInvalidDropper (s : DropperState) (i : DropperIn N) : DropperState × DropperIn N × DropperOut N :=
  match s with
  | .GET_VALID =>
    match i.validChecksumFifoIn, i.validIpAddressFifoIn with
    | validChecksum :: checksums, validIpAddress :: addresses =>
      let valid := validChecksum && validIpAddress
      (if valid then .FWD else .DROP,
        { i with validChecksumFifoIn := checksums, validIpAddressFifoIn := addresses },
        { ipv4ValidFifoOut := [valid] })
    | _, _ => (s, i, {})
  | .FWD =>
    match i.dataIn with
    | [] => (s, i, {})
    | currWord :: rest =>
      (if currWord.last then .GET_VALID else .FWD, { i with dataIn := rest }, { dataOut := [currWord] })
  | .DROP =>
    match i.dataIn with
    | [] => (s, i, {})
    | currWord :: rest => (if currWord.last then .GET_VALID else .DROP, { i with dataIn := rest }, {})

/-! ## `cut_length` -/

inductive CutState where
  | FIRST | REST
  deriving DecidableEq, Repr

/-- The byte enables for a length; those of length 0 are all set. -/
def lenToKeep (length : BitVec 6) (k : Nat) : Bool := length == 0 || decide (k < length.toNat)

/-- The enables of a word are set anew. -/
def setKeep (keep : Nat → Bool) (w : Word N) : Word N where
  lanes := w.lanes.mapIdx fun k l => { l with keep := keep k }
  last := w.last
  length_eq := by rw [List.length_mapIdx, w.length_eq]

/-- The first word of a packet: when it is the only one, it is cut to the total length. -/
def cutFirst (currWord : Word 64) : Word 64 :=
  let totalLength := currWord.data.extractLsb' 16 8 ++ currWord.data.extractLsb' 24 8
  if currWord.last then setKeep (lenToKeep (totalLength.setWidth 6)) currWord else currWord

def cutLength (s : CutState) (dataIn : List (Word 64)) : CutState × List (Word 64) × List (Word 64) :=
  match s, dataIn with
  | _, [] => (s, [], [])
  | .FIRST, currWord :: rest => (if currWord.last then .FIRST else .REST, rest, [cutFirst currWord])
  | .REST, currWord :: rest => (if currWord.last then .FIRST else .REST, rest, [currWord])

/-! ## `detect_ipv4_protocol` and `detect_ipv6_protocol` -/

inductive Dip where
  | META | PKG
  deriving DecidableEq, Repr

structure Detect4 where
  dipState : Dip := .META
  dipIpProtocol : BitVec 8 := 0

@[ext]
structure Detect4In (N : Nat) where
  ipv4ProtocolIn : List (BitVec 8) := []
  ipv4ValidIn : List Bool := []
  dataIn : List (Word N) := []

@[ext]
structure Detect4Out (N : Nat) where
  icmpDataOut : List (Word N) := []
  udpDataOut : List (Word N) := []
  tcpDataOut : List (Word N) := []

/-- Where a word goes; there is no place for other protocols. -/
def selectIpv4 (protocol : BitVec 8) (currWord : Word N) : Detect4Out N :=
  if protocol = ICMP then { icmpDataOut := [currWord] }
  else if protocol = UDP then { udpDataOut := [currWord] }
  else if protocol = TCP then { tcpDataOut := [currWord] }
  else {}

def detectIpv4Protocol (s : Detect4) (i : Detect4In N) : Detect4 × Detect4In N × Detect4Out N :=
  match s.dipState with
  | .META =>
    match i.ipv4ProtocolIn, i.ipv4ValidIn with
    | protocol :: protocols, valid :: valids =>
      ({ dipState := if valid then .PKG else .META, dipIpProtocol := protocol },
        { i with ipv4ProtocolIn := protocols, ipv4ValidIn := valids }, {})
    | _, _ => (s, i, {})
  | .PKG =>
    match i.dataIn with
    | [] => (s, i, {})
    | currWord :: rest =>
      ({ s with dipState := if currWord.last then .META else .PKG }, { i with dataIn := rest },
        selectIpv4 s.dipIpProtocol currWord)

structure Detect6 where
  state : Bool := false
  nextHeader : BitVec 8 := 0

@[ext]
structure Detect6Out (N : Nat) where
  icmpv6DataOut : List (Word N) := []
  ipv6UdpDataOut : List (Word N) := []

def selectIpv6 (nextHeader : BitVec 8) (currWord : Word N) : Detect6Out N :=
  if nextHeader = ICMPv6 then { icmpv6DataOut := [currWord] }
  else if nextHeader = UDP then { ipv6UdpDataOut := [currWord] }
  else {}

def detectIpv6Protocol (s : Detect6) (dataIn : List (Word N)) : Detect6 × List (Word N) × Detect6Out N :=
  match dataIn with
  | [] => (s, [], {})
  | currWord :: rest =>
    let nextHeader := if s.state then s.nextHeader else currWord.data.extractLsb' 48 8
    ({ state := !currWord.last, nextHeader }, rest, selectIpv6 nextHeader currWord)

def duplicateStream (input : List (Word N)) : List (Word N) × List (Word N) :=
  match input with
  | [] => ([], [])
  | item :: rest => (rest, [item])

end FpgaNetworkStack.IpHandler
