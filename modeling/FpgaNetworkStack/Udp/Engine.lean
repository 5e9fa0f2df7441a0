import FpgaNetworkStack.Roce.PacketBuild
import FpgaNetworkStack.Toe.PortTable

/-!
# UDP (`udp.cpp`)

`generate_udp` writes a header of 8 bytes in front of a packet and `process_udp` reads it, with the metadata in
streams of their own.  Only packets to the listen port are passed on, and only their metadata is.
-/

namespace FpgaNetworkStack.Udp

open Axi (Word octets overlay)
open Roce (IpUdpMeta PacketHeader remainingLength)
open Toe (reverse16)

variable {N : Nat}

def UDP_HEADER_SIZE : Nat := 64

/-- `ipv4Meta`. -/
structure IpMeta where
  theirAddress : BitVec 32
  length : BitVec 16
  deriving DecidableEq

/-- The constructor from an address of 128 bits. -/
def IpMeta.of (addr : BitVec 128) (len : BitVec 16) : IpMeta := ⟨addr.extractLsb' 96 32, len⟩

structure UdpMeta where
  theirPort : BitVec 16
  myPort : BitVec 16
  length : BitVec 16
  valid : Bool := true
  deriving DecidableEq

/-! ## `udpHeader` -/

def getSrcPort (header : BitVec UDP_HEADER_SIZE) : BitVec 16 := reverse16 (header.extractLsb' 0 16)

def getDstPort (header : BitVec UDP_HEADER_SIZE) : BitVec 16 := reverse16 (header.extractLsb' 16 16)

def getLength (header : BitVec UDP_HEADER_SIZE) : BitVec 16 := reverse16 (header.extractLsb' 32 16)

/-- The ports and the length are set, the checksum stays. -/
def setHeader (header : BitVec UDP_HEADER_SIZE) (srcPort dstPort len : BitVec 16) : BitVec UDP_HEADER_SIZE :=
  header.extractLsb' 48 16 ++ (reverse16 len ++ (reverse16 dstPort ++ reverse16 srcPort))

/-! ## `process_udp` -/

structure ProcessUdp (N : Nat) where
  puHeader : PacketHeader (8 * N) UDP_HEADER_SIZE := {}
  metaWritten : Bool := false

@[ext]
structure ProcessUdpOut (N : Nat) where
  metaOut : List UdpMeta := []
  output : List (Word N) := []

def processUdp (regListenPort : BitVec 16) (s : ProcessUdp N) (input : List (Word N)) :
    ProcessUdp N × List (Word N) × ProcessUdpOut N :=
  match input with
  | [] => (s, [], {})
  | currWord :: rest =>
    let puHeader := s.puHeader.parseWord currWord.data
    let dstPort := getDstPort puHeader.header
    let early := s.metaWritten && dstPort == regListenPort && decide (8 * N ≤ UDP_HEADER_SIZE)
    let late := puHeader.ready && dstPort == regListenPort && decide (UDP_HEADER_SIZE < 8 * N)
    let writeMeta := puHeader.ready && !s.metaWritten
    ({ puHeader := if currWord.last then puHeader.clear else puHeader
       metaWritten := !currWord.last && (s.metaWritten || writeMeta) },
      rest,
      { metaOut := if writeMeta then
          [⟨getSrcPort puHeader.header, dstPort, getLength puHeader.header, dstPort == regListenPort⟩] else []
        output := (if early then [currWord] else []) ++ if late then [currWord] else [] })

/-! ## `generate_udp` -/

inductive GuState where
  | META | HEADER | PARTIAL_HEADER | BODY
  deriving DecidableEq, Repr

structure GenerateUdp where
  state : GuState := .META
  header : BitVec UDP_HEADER_SIZE := 0
  /-- Words of the header that were written. -/
  idx : Nat := 0

@[ext]
structure GenerateUdpIn (N : Nat) where
  metaIn : List UdpMeta := []
  input : List (Word N) := []

def GenerateUdp.consume (N : Nat) (s : GenerateUdp) : List (BitVec 8) :=
  ((octets 8 s.header).drop (s.idx * N)).take N

def generateUdp (s : GenerateUdp) (i : GenerateUdpIn N) : GenerateUdp × GenerateUdpIn N × List (Word N) :=
  match s.state with
  | .META =>
    match i.metaIn with
    | [] => (s, i, [])
    | m :: rest =>
      ({ state := if 8 * N ≤ UDP_HEADER_SIZE then .HEADER else .PARTIAL_HEADER
         header := setHeader s.header m.myPort m.theirPort m.length
         idx := 0 },
        { i with metaIn := rest }, [])
  | .HEADER =>
    let lane : Axi.Lane := ⟨0, true⟩
    let full : Word N := ⟨List.replicate N lane, false, List.length_replicate⟩
    ({ s with
        idx := s.idx + 1
        state := if remainingLength (8 * N) UDP_HEADER_SIZE s.idx < N then .PARTIAL_HEADER else .HEADER },
      i, [overlay (s.consume N) full])
  | .PARTIAL_HEADER =>
    match i.input with
    | [] => (s, i, [])
    | currWord :: rest =>
      ({ s with idx := s.idx + 1, state := if currWord.last then .META else .BODY },
        { i with input := rest }, [overlay (s.consume N) currWord])
  | .BODY =>
    match i.input with
    | [] => (s, i, [])
    | currWord :: rest =>
      ({ s with state := if currWord.last then .META else .BODY }, { i with input := rest }, [currWord])

/-! ## `split_tx_meta` and `merge_rx_meta` -/

@[ext]
structure SplitOut where
  metaOut0 : List IpMeta := []
  metaOut1 : List UdpMeta := []

def splitTxMeta (metaIn : List IpUdpMeta) : List IpUdpMeta × SplitOut :=
  match metaIn with
  | [] => ([], {})
  | m :: rest =>
    let tempLen := m.length + 8
    (rest, ⟨[.of m.theirAddress tempLen], [{ theirPort := m.theirPort, myPort := m.myPort, length := tempLen }]⟩)

@[ext]
structure MergeIn where
  ipMetaIn : List IpMeta := []
  udpMetaIn : List UdpMeta := []

def mergeRxMeta (i : MergeIn) : MergeIn × List IpUdpMeta :=
  match i.ipMetaIn, i.udpMetaIn with
  | meta0 :: ips, meta1 :: udps =>
    (⟨ips, udps⟩,
      if meta1.valid then [⟨meta0.theirAddress.setWidth 128, meta1.theirPort, meta1.myPort, meta1.length⟩] else [])
  | _, _ => (i, [])

end FpgaNetworkStack.Udp
