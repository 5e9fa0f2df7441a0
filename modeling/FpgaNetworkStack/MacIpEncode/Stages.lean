import FpgaNetworkStack.Ipv4.HeaderRemoval
import FpgaNetworkStack.Toe.Checksum

/-!
# The stages of `mac_ip_encode`

The destination of a packet is looked up while its header checksum is computed and put in; with the reply the packet
gets an Ethernet header or is dropped.
-/

namespace FpgaNetworkStack.MacIpEncode

open Lib
open Axi (Lane Word Packet Ends Framed LShift octets length_octets overlay overlay_lanes lshiftWordByOctet)
open IpHandler (IPV4_HEADER_SIZE SubSums Total getDstAddr destination)
open Roce (PacketHeader Parsed parsed_clear)
open Toe (reverse16 setHalfword withChecksum)
open Ipv4 (ComputeSums512 SumsOut computeIpv4Checksum512)

variable {N : Nat}

def ETH_HEADER_SIZE : Nat := 112

structure ArpTableReply where
  macAddress : BitVec 48
  hit : Bool
  deriving DecidableEq

/-- The header of a frame: `setDstAddress`, `setSrcAddress`, `setEthertype`. -/
def ethHeader (dstAddress srcAddress : BitVec 48) (ethertype : BitVec 16) : BitVec ETH_HEADER_SIZE :=
  reverse16 ethertype ++ (srcAddress ++ dstAddress)

/-! ## `extract_ip_address` -/

structure ExtractIpAddress (N : Nat) where
  header : PacketHeader (8 * N) IPV4_HEADER_SIZE := {}
  metaWritten : Bool := false

@[ext]
structure ExtractOut (N : Nat) where
  dataOut : List (Word N) := []
  arpTableOut : List (BitVec 32) := []

/-- The address that is looked up: the destination on the subnet, else the gateway. -/
def nextHop (regSubNetMask regDefaultGateway dstIpAddress : BitVec 32) : BitVec 32 :=
  if dstIpAddress &&& regSubNetMask = regDefaultGateway &&& regSubNetMask then dstIpAddress else regDefaultGateway

def extractIpAddress (regSubNetMask regDefaultGateway : BitVec 32) (s : ExtractIpAddress N) (dataIn : List (Word N)) :
    ExtractIpAddress N × List (Word N) × ExtractOut N :=
  match dataIn with
  | [] => (s, [], {})
  | currWord :: rest =>
    let header := s.header.parseWord currWord.data
    let isNew := header.ready && !s.metaWritten
    ({ header := if currWord.last then header.clear else header
       metaWritten := !currWord.last && (s.metaWritten || isNew) },
      rest,
      { dataOut := [currWord]
        arpTableOut := if isNew then [nextHop regSubNetMask regDefaultGateway (getDstAddr header.header)] else [] })

/-! ## `mac_compute_ipv4_checksum` and `mac_finalize_ipv4_checksum`

Their bodies are those of `compute_ipv4_checksum` and `finalize_ipv4_checksum`. -/

def macComputeIpv4Checksum (skipChecksum : Bool) := computeIpv4Checksum512 skipChecksum

def macFinalizeIpv4Checksum := Toe.finalizeIpv4Checksum 32

/-! ## `insert_ip_checksum` -/

structure InsertIpChecksum where
  wordCount : BitVec 4 := 0
  checksum : BitVec 16 := 0

@[ext]
structure InsertIn (N : Nat) where
  dataIn : List (Word N)
  checksumFifoIn : List (BitVec 16)

def insertIpChecksum (s : InsertIpChecksum) (i : InsertIn N) : InsertIpChecksum × InsertIn N × List (Word N) :=
  if s.wordCount = 0 then
    match i.dataIn, i.checksumFifoIn with
    | currWord :: rest, checksum :: checksums =>
      (⟨if currWord.last then 0 else 1, checksum⟩, ⟨rest, checksums⟩,
        [if 8 < N then setHalfword 10 (reverse16 checksum) currWord else currWord])
    | _, _ => (s, i, [])
  else if s.wordCount = 1 then
    match i.dataIn with
    | [] => (s, i, [])
    | currWord :: rest =>
      ({ s with wordCount := if currWord.last then 0 else 2 }, { i with dataIn := rest },
        [if N = 8 then setHalfword 2 (reverse16 s.checksum) currWord else currWord])
  else
    match i.dataIn with
    | [] => (s, i, [])
    | currWord :: rest =>
      (if currWord.last then { s with wordCount := 0 } else s, { i with dataIn := rest }, [currWord])

/-! ## `handle_arp_reply` -/

inductive HarState where
  | ARP | FWD | DROP
  deriving DecidableEq, Repr

@[ext]
structure HandleIn (N : Nat) where
  arpTableIn : List ArpTableReply
  dataIn : List (Word N)

@[ext]
structure HandleOut (N : Nat) where
  headerOut : List (BitVec ETH_HEADER_SIZE) := []
  dataOut : List (Word N) := []

def handleArpReply (myMacAddress : BitVec 48) (s : HarState) (i : HandleIn N) : HarState × HandleIn N × HandleOut N :=
  match s with
  | .ARP =>
    match i.arpTableIn, i.dataIn with
    | reply :: replies, word :: rest =>
      if reply.hit then
        (if word.last then .ARP else .FWD, ⟨replies, rest⟩,
          { headerOut := [ethHeader reply.macAddress myMacAddress 0x0800], dataOut := [word] })
      else (if word.last then .ARP else .DROP, ⟨replies, rest⟩, {})
    | _, _ => (s, i, {})
  | .FWD =>
    match i.dataIn with
    | [] => (s, i, {})
    | word :: rest => (if word.last then .ARP else .FWD, { i with dataIn := rest }, { dataOut := [word] })
  | .DROP =>
    match i.dataIn with
    | [] => (s, i, {})
    | word :: rest => (if word.last then .ARP else .DROP, { i with dataIn := rest }, {})

/-! ## `mac_lshiftWordByOctet`

The body is that of `lshiftWordByOctet`. -/

def macLshiftWordByOctet (N : Nat) := lshiftWordByOctet (N := N) (ETH_HEADER_SIZE % (8 * N) / 8)

/-! ## `insert_ethernet_header` -/

inductive GeState where
  | HEADER | PARTIAL_HEADER | BODY
  deriving DecidableEq, Repr

def GeState.start (N : Nat) : GeState := if 8 * N ≤ ETH_HEADER_SIZE then .HEADER else .PARTIAL_HEADER

structure InsertEthernetHeader where
  geState : GeState
  header : BitVec ETH_HEADER_SIZE := 0
  /-- Words of the header that were written. -/
  idx : Nat := 0

@[ext]
structure EthernetIn (N : Nat) where
  headerIn : List (BitVec ETH_HEADER_SIZE)
  dataIn : List (Word N)

def consumeWord (N : Nat) (header : BitVec ETH_HEADER_SIZE) (idx : Nat) : List (BitVec 8) :=
  ((octets 14 header).drop (idx * N)).take N

theorem length_full (N : Nat) : (List.replicate N (⟨0, true⟩ : Lane)).length = N := List.length_replicate

def insertEthernetHeader (s : InsertEthernetHeader) (i : EthernetIn N) :
    InsertEthernetHeader × EthernetIn N × List (Word N) :=
  match s.geState with
  | .HEADER =>
    match i.headerIn with
    | [] => (s, i, [])
    | header :: headers =>
      let full : Word N := ⟨List.replicate N ⟨0, true⟩, false, length_full N⟩
      (⟨.PARTIAL_HEADER, header, 1⟩, { i with headerIn := headers }, [overlay (consumeWord N header 0) full])
  | .PARTIAL_HEADER =>
    if 8 * N ≤ ETH_HEADER_SIZE then
      match i.dataIn with
      | [] => (s, i, [])
      | currWord :: rest =>
        ({ s with geState := if currWord.last then .start N else .BODY, idx := s.idx + 1 },
          { i with dataIn := rest }, [overlay (consumeWord N s.header s.idx) currWord])
    else
      match i.headerIn, i.dataIn with
      | header :: headers, currWord :: rest =>
        (⟨if currWord.last then .start N else .BODY, header, 1⟩, ⟨headers, rest⟩,
          [overlay (consumeWord N header 0) currWord])
      | _, _ => (s, i, [])
  | .BODY =>
    match i.dataIn with
    | [] => (s, i, [])
    | currWord :: rest =>
      ({ s with geState := if currWord.last then .start N else .BODY }, { i with dataIn := rest }, [currWord])

/-! ## One packet -/

section

variable {w : Word 64} {ws : List (Word 64)} {bytes : List (BitVec 8)}

structure ExtractIpAddress.Idle (s : ExtractIpAddress N) : Prop where
  header : Parsed s.header []
  metaWritten : s.metaWritten = false

theorem ExtractIpAddress.idle_init : ({} : ExtractIpAddress 64).Idle := by
  refine ⟨⟨⟨?_, fun _ => rfl⟩, ?_⟩, rfl⟩
  · simp [IPV4_HEADER_SIZE]
  · intro i _ hi
    simp at hi

variable (regSubNetMask regDefaultGateway : BitVec 32)

theorem extract_behind (s : ExtractIpAddress 64) (w : Word 64) (rest : List (Word 64))
    (hs : s.header.ready = true ∧ s.metaWritten = true) :
    ∃ t, extractIpAddress regSubNetMask regDefaultGateway s (w :: rest) = (t, rest, { dataOut := [w] }) ∧
      (w.last = false → t.header.ready = true ∧ t.metaWritten = true) ∧ (w.last = true → t.Idle) := by
  have hparse : s.header.parseWord w.data = s.header := by rw [PacketHeader.parseWord, if_pos hs.1]
  refine ⟨_, by simp only [extractIpAddress, hparse, hs.1, hs.2]; rfl, ?_, ?_⟩
  · intro hlast
    rw [hlast]
    exact ⟨hs.1, rfl⟩
  · intro hlast
    rw [hlast]
    exact ⟨parsed_clear (by decide) _, rfl⟩

theorem extract_packet {s : ExtractIpAddress 64} (hs : s.Idle) (h : Packet ws bytes) (hlen : 20 ≤ bytes.length)
    (rest : List (Word 64)) :
    ∃ os t, Runs (extractIpAddress regSubNetMask regDefaultGateway) s (ws ++ rest) os t rest ∧ t.Idle ∧
      os.flatMap (·.dataOut) = ws ∧
      os.flatMap (·.arpTableOut) = [nextHop regSubNetMask regDefaultGateway (destination bytes)] := by
  obtain ⟨w, ws, rfl⟩ := List.exists_cons_of_ne_nil h.ne_nil
  have hnext := hs.header.parseWord w.data
  have hfull : IPV4_HEADER_SIZE ≤ 1 * (8 * 64) := by decide
  have hready : (s.header.parseWord w.data).ready = true := hnext.fed.ready.trans (decide_eq_true hfull)
  have hheader : (s.header.parseWord w.data).header = Axi.headerOf 20 bytes := by
    rw [hnext.header_eq hfull]
    have hpacket : Packet ([w] ++ ws) bytes := h
    exact hpacket.header_bytes (n := 20) (Nat.le_of_lt (by rw [List.length_singleton]; decide)) hlen
  let t : ExtractIpAddress 64 :=
    { header := if w.last then (s.header.parseWord w.data).clear else s.header.parseWord w.data
      metaWritten := !w.last }
  have hcall : extractIpAddress regSubNetMask regDefaultGateway s (w :: (ws ++ rest)) = (t, ws ++ rest,
      { dataOut := [w], arpTableOut := [nextHop regSubNetMask regDefaultGateway (destination bytes)] }) := by
    simp [extractIpAddress, hready, hheader, hs.metaWritten, t, Ipv4.getDstAddr_headerOf]
  obtain ⟨u, hrun, hu⟩ := Ends.runs_first (fun ws => ws)
    (fun s : ExtractIpAddress 64 => s.header.ready = true ∧ s.metaWritten = true) ExtractIpAddress.Idle _
    (extract_behind regSubNetMask regDefaultGateway) h.ends rest hcall
    (fun hlast => by
      show (if w.last then _ else _ : PacketHeader _ _).ready = true ∧ (!w.last) = true
      rw [hlast]
      exact ⟨hready, rfl⟩)
    (fun hlast => by
      refine ⟨?_, congrArg not hlast⟩
      show Parsed (if w.last then _ else _) []
      rw [hlast]
      exact parsed_clear (by decide) _)
  refine ⟨_, u, hrun, hu, ?_, ?_⟩
  · rw [List.flatMap_cons, List.flatMap_map]
    exact congrArg (w :: ·) (List.flatMap_singleton' ws)
  · rw [List.flatMap_cons, List.flatMap_map, List.flatMap_eq_nil_iff.mpr fun _ _ => rfl]
    rfl

/-! ### The checksum goes in -/

theorem insertIp_behind (checksums : List (BitVec 16)) (s : InsertIpChecksum) (w : Word 64) (rest : List (Word 64))
    (hs : s.wordCount = 1 ∨ s.wordCount = 2) :
    ∃ t, insertIpChecksum s ⟨w :: rest, checksums⟩ = (t, ⟨rest, checksums⟩, [w]) ∧
      (w.last = false → t.wordCount = 1 ∨ t.wordCount = 2) ∧ (w.last = true → t.wordCount = 0) := by
  refine ⟨{ s with wordCount := if w.last then 0 else 2 }, ?_, ?_, ?_⟩
  · obtain ⟨count, checksum⟩ := s
    rcases hs with rfl | rfl
    · simp [insertIpChecksum]
    · cases hlast : w.last <;> simp [insertIpChecksum, hlast]
  · intro hlast
    exact .inr (by simp [hlast])
  · intro hlast
    simp [hlast]

theorem insertIp_packet {s : InsertIpChecksum} (hs : s.wordCount = 0) (h : Packet ws bytes) (hlen : 20 ≤ bytes.length)
    (checksum : BitVec 16) (checksums : List (BitVec 16)) (rest : List (Word 64)) :
    ∃ os t, Runs insertIpChecksum s ⟨ws ++ rest, checksum :: checksums⟩ os t ⟨rest, checksums⟩ ∧ t.wordCount = 0 ∧
      Packet os.flatten (withChecksum 10 checksum bytes) := by
  obtain ⟨w, ws, rfl⟩ := List.exists_cons_of_ne_nil h.ne_nil
  have hcall : insertIpChecksum s ⟨w :: (ws ++ rest), checksum :: checksums⟩ =
      (⟨if w.last then 0 else 1, checksum⟩, ⟨ws ++ rest, checksums⟩, [setHalfword 10 (reverse16 checksum) w]) := by
    simp [insertIpChecksum, hs]
  obtain ⟨t, hrun, ht⟩ := Ends.runs_first (fun ws => (⟨ws, checksums⟩ : InsertIn 64))
    (fun s : InsertIpChecksum => s.wordCount = 1 ∨ s.wordCount = 2) (fun s => s.wordCount = 0) _
    (insertIp_behind checksums) h.ends rest hcall (fun hlast => .inl (by simp [hlast])) (fun hlast => by simp [hlast])
  refine ⟨_, t, hrun, ht, ?_⟩
  rw [List.flatten_cons, ← List.flatMap_def, List.flatMap_singleton']
  exact Toe.setHalfword_packet checksum (by omega) (by decide) h

/-! ### The reply decides -/

theorem handle_packet (myMacAddress : BitVec 48) (h : Packet ws bytes) (reply : ArpTableReply) (replies : List ArpTableReply)
    (rest : List (Word 64)) :
    ∃ os, Runs (handleArpReply myMacAddress) .ARP ⟨reply :: replies, ws ++ rest⟩ os .ARP ⟨replies, rest⟩ ∧
      os.flatMap (·.headerOut) = (if reply.hit then [ethHeader reply.macAddress myMacAddress 0x0800] else []) ∧
      os.flatMap (·.dataOut) = if reply.hit then ws else [] := by
  obtain ⟨w, ws, rfl⟩ := List.exists_cons_of_ne_nil h.ne_nil
  cases hhit : reply.hit with
  | true =>
    have hcall : handleArpReply myMacAddress .ARP ⟨reply :: replies, w :: (ws ++ rest)⟩ =
        (if w.last then .ARP else .FWD, ⟨replies, ws ++ rest⟩,
          { headerOut := [ethHeader reply.macAddress myMacAddress 0x0800], dataOut := [w] }) := by
      simp [handleArpReply, hhit]
    obtain ⟨t, hrun, rfl⟩ := Ends.runs_first (fun ws => (⟨replies, ws⟩ : HandleIn 64)) (· = HarState.FWD)
      (· = HarState.ARP) (fun w => { dataOut := [w] })
      (by
        rintro s w rest rfl
        exact ⟨if w.last then .ARP else .FWD, rfl, fun hlast => by simp [hlast], fun hlast => by simp [hlast]⟩)
      h.ends rest hcall (fun hlast => by simp [hlast]) (fun hlast => by simp [hlast])
    refine ⟨_, hrun, ?_, ?_⟩
    · rw [List.flatMap_cons, List.flatMap_map, List.flatMap_eq_nil_iff.mpr fun _ _ => rfl]
      rfl
    · rw [List.flatMap_cons, List.flatMap_map]
      exact congrArg (w :: ·) (List.flatMap_singleton' ws)
  | false =>
    have hcall : handleArpReply myMacAddress .ARP ⟨reply :: replies, w :: (ws ++ rest)⟩ =
        (if w.last then .ARP else .DROP, ⟨replies, ws ++ rest⟩, {}) := by
      simp [handleArpReply, hhit]
    obtain ⟨t, hrun, rfl⟩ := Ends.runs_first (fun ws => (⟨replies, ws⟩ : HandleIn 64)) (· = HarState.DROP)
      (· = HarState.ARP) (fun _ => {})
      (by
        rintro s w rest rfl
        exact ⟨if w.last then .ARP else .DROP, rfl, fun hlast => by simp [hlast], fun hlast => by simp [hlast]⟩)
      h.ends rest hcall (fun hlast => by simp [hlast]) (fun hlast => by simp [hlast])
    refine ⟨_, hrun, ?_, ?_⟩
    · rw [List.flatMap_cons, List.flatMap_map, List.flatMap_eq_nil_iff.mpr fun _ _ => rfl]
      rfl
    · rw [List.flatMap_cons, List.flatMap_map, List.flatMap_eq_nil_iff.mpr fun _ _ => rfl]
      rfl

/-! ### The header goes in front -/

theorem ethernet_packet {s : InsertEthernetHeader} (hs : s.geState = .PARTIAL_HEADER) {q : List (BitVec 8)}
    (hq : q.length = 14) (h : Packet ws (q ++ bytes)) (header : BitVec ETH_HEADER_SIZE)
    (headers : List (BitVec ETH_HEADER_SIZE)) (rest : List (Word 64)) :
    ∃ os t, Runs insertEthernetHeader s ⟨header :: headers, ws ++ rest⟩ os t ⟨headers, rest⟩ ∧
      t.geState = .PARTIAL_HEADER ∧ Packet os.flatten (octets 14 header ++ bytes) := by
  obtain ⟨w, ws, rfl⟩ := List.exists_cons_of_ne_nil h.ne_nil
  have hconsume : consumeWord 64 header 0 = octets 14 header := by
    rw [consumeWord, Nat.zero_mul, List.drop_zero, List.take_of_length_le (by rw [length_octets]; decide)]
  have hcall : insertEthernetHeader s ⟨header :: headers, w :: (ws ++ rest)⟩ =
      (⟨if w.last then .PARTIAL_HEADER else .BODY, header, 1⟩, ⟨headers, ws ++ rest⟩, [overlay (octets 14 header) w]) := by
    simp [insertEthernetHeader, hs, ETH_HEADER_SIZE, GeState.start, hconsume]
  obtain ⟨t, hrun, ht⟩ := Ends.runs_first (fun ws => (⟨headers, ws⟩ : EthernetIn 64))
    (fun s : InsertEthernetHeader => s.geState = .BODY) (fun s => s.geState = .PARTIAL_HEADER) (fun w => [w])
    (by
      intro s w rest hs
      refine ⟨{ s with geState := if w.last then .PARTIAL_HEADER else .BODY }, ?_, ?_, ?_⟩
      · simp [insertEthernetHeader, hs, ETH_HEADER_SIZE, GeState.start]
      · exact fun hlast => by simp [hlast]
      · exact fun hlast => by simp [hlast])
    h.ends rest hcall (fun hlast => by simp [hlast]) (fun hlast => by simp [hlast])
  refine ⟨_, t, hrun, ht, ?_⟩
  rw [List.flatten_cons, ← List.flatMap_def, List.flatMap_singleton']
  exact h.replace (by rw [hq]; decide) rfl
    fun ls hls => overlay_lanes hls (by rw [length_octets, hq])

end

end FpgaNetworkStack.MacIpEncode
