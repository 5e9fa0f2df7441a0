import FpgaNetworkStack.Udp.Net
import FpgaNetworkStack.Udp.Stages
import Mathlib.Data.List.Forall2

/-!
# Datagrams from end to end

The payload and the ports of a datagram come through, for those to the listen port.  The address does not: it is
taken from the upper 32 bits of the 128 and given back in the lower ones.
-/

namespace FpgaNetworkStack.Udp

open Lib
open Axi (Word Packet Packets LShift RShift lshiftWordByOctet lshift_packets lshift_idle rshiftWordByOctet
  rshift_packets rshift_idle octets length_octets)
open Roce (IpUdpMeta Supported)

variable {N : Nat} {port : BitVec 16}

structure Datagram where
  theirAddress : BitVec 128
  theirPort : BitVec 16
  myPort : BitVec 16
  payload : List (BitVec 8)

namespace Datagram

variable (d : Datagram)

/-- What is given to the transmit side. -/
def request : IpUdpMeta := ⟨d.theirAddress, d.theirPort, d.myPort, BitVec.ofNat 16 d.payload.length⟩

def length : BitVec 16 := BitVec.ofNat 16 d.payload.length + 8

/-- The receiver is the other side. -/
def ipMeta : IpMeta := .of d.theirAddress d.length

def udpMeta : UdpMeta := { theirPort := d.theirPort, myPort := d.myPort, length := d.length }

def rxUdpMeta (port : BitVec 16) : UdpMeta := ⟨d.myPort, d.theirPort, d.length, d.theirPort == port⟩

def received : IpUdpMeta := ⟨d.ipMeta.theirAddress.setWidth 128, d.myPort, d.theirPort, d.length⟩

end Datagram

/-- The header announces the datagram. -/
structure Announces (header : BitVec UDP_HEADER_SIZE) (d : Datagram) : Prop where
  srcPort : getSrcPort header = d.myPort
  dstPort : getDstPort header = d.theirPort
  length : getLength header = d.length

/-- The words carry the datagrams with their headers. -/
inductive Sent : List (Word N) → List Datagram → Prop
  | nil : Sent [] []
  | cons {ws ws' : List (Word N)} {header : BitVec UDP_HEADER_SIZE} {d : Datagram} {ds : List Datagram}
      (h : Packet ws (octets 8 header ++ d.payload)) (announces : Announces header d) (rest : Sent ws' ds) :
      Sent (ws ++ ws') (d :: ds)

def matching (port : BitVec 16) (ds : List Datagram) : List Datagram := ds.filter fun d => d.theirPort == port

/-! ## Process by process -/

theorem split_datagrams (ds : List Datagram) :
    ∃ so, Runs splitProc () (ds.map Datagram.request) so () [] ∧
      so.flatMap (·.metaOut0) = ds.map Datagram.ipMeta ∧ so.flatMap (·.metaOut1) = ds.map Datagram.udpMeta := by
  induction ds with
  | nil => exact ⟨[], .refl _ _, rfl, rfl⟩
  | cons d ds ih =>
    obtain ⟨so, hrun, h0, h1⟩ := ih
    refine ⟨⟨[d.ipMeta], [d.udpMeta]⟩ :: so, .call rfl hrun, ?_, ?_⟩
    · rw [List.flatMap_cons, h0]
      rfl
    · rw [List.flatMap_cons, h1]
      rfl

variable {ds : List Datagram}

theorem generate_datagrams (hN : Supported N) :
    ∀ {ws : List (Word N)} {s : GenerateUdp}, s.state = .META →
      Packets ws (ds.map fun d => List.replicate (8 % N) 0 ++ d.payload) →
      ∃ go t, Runs generateUdp s ⟨ds.map Datagram.udpMeta, ws⟩ go t ⟨[], []⟩ ∧ t.state = .META ∧ Sent go.flatten ds := by
  induction ds with
  | nil =>
    intro ws s hs hws
    cases hws
    exact ⟨[], s, .refl _ _, hs, .nil⟩
  | cons d ds ih =>
    intro ws s hs hws
    rw [List.map_cons] at hws
    cases hws with
    | @cons ws ws' _ _ h hrest =>
      obtain ⟨os, t, hrun, ht, hpacket⟩ := generate_packet (ds.map Datagram.udpMeta) ws' hN hs d.udpMeta h
      obtain ⟨go, u, hmore, hu, hsent⟩ := ih ht hrest
      refine ⟨os ++ go, u, hrun.trans hmore, hu, ?_⟩
      rw [List.flatten_append]
      exact .cons hpacket ⟨getSrcPort_setHeader _ _ _ _, getDstPort_setHeader _ _ _ _, getLength_setHeader _ _ _ _⟩
        hsent

theorem metaOf_announced {header : BitVec UDP_HEADER_SIZE} {d : Datagram} (h : Announces header d) :
    metaOf port header = d.rxUdpMeta port := by
  rw [metaOf, h.srcPort, h.dstPort, h.length]
  rfl

/-- The metadata of every datagram comes out, and the packets of those to the listen port. -/
theorem process_datagrams (port : BitVec 16) (hN : Supported N) {ws : List (Word N)} (h : Sent ws ds) :
    ∀ {s : ProcessUdp N}, s.Idle → (∀ d ∈ ds, d.payload ≠ []) →
      ∃ po t bss, Runs (processUdp port) s ws po t [] ∧ t.Idle ∧
        po.flatMap (·.metaOut) = ds.map (·.rxUdpMeta port) ∧ Packets (po.flatMap (·.output)) bss ∧
        bss.map (·.drop (8 % N)) = (matching port ds).map Datagram.payload := by
  induction h with
  | nil =>
    intro s hs _
    exact ⟨[], s, [], .refl _ _, hs, rfl, .nil, rfl⟩
  | @cons ws ws' header d ds h announces _ ih =>
    intro s hs hpayload
    obtain ⟨hd, hds⟩ := List.forall_mem_cons.mp hpayload
    obtain ⟨os, t, p, out, hrun, ht, hmeta, hout, hpacket, hp⟩ := process_packet port hN hs hd h ws'
    obtain ⟨po, u, bss, hmore, hu, hmetas, houts, hbss⟩ := ih ht hds
    have hall : (os ++ po).flatMap (·.metaOut) = (d :: ds).map (·.rxUdpMeta port) := by
      rw [List.flatMap_append, hmeta, hmetas, metaOf_announced announces]
      rfl
    by_cases hport : d.theirPort = port
    · -- passed on, with what is in front of the payload
      have hmatch : matching port (d :: ds) = d :: matching port ds := List.filter_cons_of_pos (beq_iff_eq.mpr hport)
      rw [passed, if_pos (announces.dstPort.trans hport)] at hout
      refine ⟨os ++ po, u, (p ++ d.payload) :: bss, hrun.trans hmore, hu, hall, ?_, ?_⟩
      · rw [List.flatMap_append, hout]
        exact .cons hpacket houts
      · rw [List.map_cons, hbss, hmatch, List.map_cons, List.drop_left' hp]
    · have hmatch : matching port (d :: ds) = matching port ds :=
        List.filter_cons_of_neg (fun heq => hport (beq_iff_eq.mp heq))
      rw [passed, if_neg (fun heq => hport (announces.dstPort.symm.trans heq))] at hout
      refine ⟨os ++ po, u, bss, hrun.trans hmore, hu, hall, ?_, ?_⟩
      · rw [List.flatMap_append, hout, List.nil_append]
        exact houts
      · rw [hbss, hmatch]

theorem merge_datagrams (port : BitVec 16) (ds : List Datagram) :
    ∃ mo, Runs mergeProc () ⟨ds.map Datagram.ipMeta, ds.map (·.rxUdpMeta port)⟩ mo () ⟨[], []⟩ ∧
      mo.flatten = (matching port ds).map Datagram.received := by
  induction ds with
  | nil => exact ⟨[], .refl _ _, rfl⟩
  | cons d ds ih =>
    obtain ⟨mo, hrun, hmo⟩ := ih
    refine ⟨_, .call rfl hrun, ?_⟩
    rw [List.flatten_cons, hmo]
    by_cases hport : d.theirPort = port
    · have hmatch : matching port (d :: ds) = d :: matching port ds := List.filter_cons_of_pos (beq_iff_eq.mpr hport)
      have hvalid : (d.rxUdpMeta port).valid = true := beq_iff_eq.mpr hport
      rw [hmatch, if_pos hvalid]
      rfl
    · have hmatch : matching port (d :: ds) = matching port ds :=
        List.filter_cons_of_neg (fun heq => hport (beq_iff_eq.mp heq))
      have hvalid : ¬(d.rxUdpMeta port).valid = true := fun heq => hport (beq_iff_eq.mp heq)
      rw [hmatch, if_neg hvalid]
      rfl

/-! ## From end to end -/

/-- The datagrams are given to the transmit side: their records, and words that carry the payloads. -/
def start (ds : List Datagram) (ws : List (Word N)) : UdpNet N :=
  { sAxisTxMeta := ds.map Datagram.request, sAxisTxData := ws }

/-- The record belongs to the datagram, seen from the other side. -/
structure RecordOf (m : IpUdpMeta) (d : Datagram) : Prop where
  theirAddress : m.theirAddress = d.theirAddress
  theirPort : m.theirPort = d.myPort
  myPort : m.myPort = d.theirPort
  length : m.length.toNat = d.payload.length + 8

/-- The datagrams to the listen port have been received, and nothing else. -/
structure RoundTrip (port : BitVec 16) (ds : List Datagram) (n : UdpNet N) : Prop where
  metas : List.Forall₂ RecordOf n.mAxisRxMeta (matching port ds)
  data : Packets n.mAxisRxData ((matching port ds).map Datagram.payload)

theorem shiftOffset_eq (N : Nat) : shiftOffset N = 8 % N := by
  show 8 * 8 % (8 * N) / 8 = 8 % N
  rw [Nat.mul_mod_mul_left, Nat.mul_div_cancel_left _ (by decide)]

theorem start_finishes (hN : Supported N) (port : BitVec 16) (hds : ∀ d ∈ ds, d.payload ≠ [])
    {ws : List (Word N)} (hws : Packets ws (ds.map Datagram.payload)) :
    ∃ data, Finishes port (start ds ws) ((matching port ds).map Datagram.received) data ∧
      Packets data ((matching port ds).map Datagram.payload) := by
  have hpos : 0 < N := by rcases hN with rfl | rfl | rfl | rfl <;> decide
  have hoff : shiftOffset N < N := by
    rw [shiftOffset_eq]
    exact Nat.mod_lt 8 hpos
  have hoff' : shiftOffset N ≤ 32 := by
    rw [shiftOffset_eq]
    exact Nat.le_trans (Nat.mod_le 8 N) (by decide)
  obtain ⟨so, hsplit, hip, hudp⟩ := split_datagrams ds
  obtain ⟨lo, l, hlshift, hl, hshifted⟩ := lshift_packets (Nat.le_of_lt hoff) hoff' hws LShift.idle_init
  rw [List.map_map, shiftOffset_eq] at hshifted
  obtain ⟨go, g, hgenerate, hg, hsent⟩ := generate_datagrams hN (s := {}) rfl hshifted
  obtain ⟨po, p, bss, hprocess, hp, hmetas, houts, hbss⟩ := process_datagrams port hN hsent
    ProcessUdp.idle_init hds
  obtain ⟨ro, r, hrshift, hr, hdata⟩ := rshift_packets hoff houts (RShift.idle_init (shiftOffset N))
  rw [shiftOffset_eq, hbss] at hdata
  obtain ⟨mo, hmerge, hmo⟩ := merge_datagrams port ds
  have hidle : generateUdp g ⟨[], []⟩ = (g, (⟨[], []⟩ : GenerateUdpIn N), []) := by simp only [generateUdp, hg]
  rw [← hudp] at hgenerate
  rw [← hip, ← hmetas] at hmerge
  refine ⟨ro.flatten, ?_, hdata⟩
  rw [← hmo]
  exact .intro (n := start ds ws) ⟨hsplit, rfl⟩ ⟨hlshift, lshift_idle hl⟩ ⟨hgenerate, hidle⟩ ⟨hprocess, rfl⟩
    ⟨hrshift, rshift_idle hr⟩ ⟨hmerge, rfl⟩

/-- The upper 32 bits in the place of the lower ones are the address they come from only if nothing is set. -/
theorem address_eq_iff (addr : BitVec 128) (len : BitVec 16) :
    (IpMeta.of addr len).theirAddress.setWidth 128 = addr ↔ addr = 0 := by
  constructor
  · intro h
    -- the lower 32 bits are the upper 32 bits, and those are not among them
    have hlow : addr.toNat / 2 ^ 96 % 2 ^ 32 % 2 ^ 128 = addr.toNat := by
      have hnat := congrArg BitVec.toNat h
      rw [BitVec.toNat_setWidth, IpMeta.of, BitVec.extractLsb'_toNat, Nat.shiftRight_eq_div_pow] at hnat
      exact hnat
    have hsmall : addr.toNat < 2 ^ 96 := by
      rw [← hlow]
      omega
    rw [Nat.div_eq_of_lt hsmall] at hlow
    exact BitVec.eq_of_toNat_eq hlow.symm
  · rintro rfl
    rfl

theorem received_iff {d : Datagram} (hlen : d.payload.length ≤ 65507) : RecordOf d.received d ↔ d.theirAddress = 0 := by
  constructor
  · intro h
    exact (address_eq_iff _ _).mp h.theirAddress
  · intro h
    refine ⟨(address_eq_iff _ _).mpr h, rfl, rfl, ?_⟩
    show (BitVec.ofNat 16 d.payload.length + 8).toNat = _
    rw [BitVec.toNat_add, BitVec.toNat_ofNat]
    show (d.payload.length % 2 ^ 16 + 8) % 2 ^ 16 = _
    omega

theorem records_iff (hlen : ∀ d ∈ ds, d.payload.length ≤ 65507) :
    List.Forall₂ RecordOf (ds.map Datagram.received) ds ↔ ∀ d ∈ ds, d.theirAddress = 0 := by
  rw [List.forall₂_map_left_iff, List.forall₂_same]
  exact forall₂_congr fun d hd => received_iff (hlen d hd)

theorem mem_matching {d : Datagram} : d ∈ matching port ds ↔ d ∈ ds ∧ d.theirPort = port := by
  rw [matching, List.mem_filter, beq_iff_eq]

/-- At rest the datagrams to the listen port have been received, with the address as it comes back. -/
theorem rest_round_trip (hN : Supported N)
    (hds : ∀ d ∈ ds, d.payload ≠ [] ∧ d.payload.length ≤ 65507) {ws : List (Word N)}
    (hws : Packets ws (ds.map Datagram.payload)) {t : UdpNet N}
    (hreach : Reach (UdpNet.step port) anyStep (start ds ws) t) (hrest : t.AtRest port) :
    RoundTrip port ds t ↔ ∀ d ∈ ds, d.theirPort = port → d.theirAddress = 0 := by
  obtain ⟨data, hfinishes, hdata⟩ := start_finishes hN port (fun d hd => (hds d hd).1) hws
  obtain ⟨hmetas, hout⟩ := (hfinishes.reach hreach).at_rest hrest
  have hlen : ∀ d ∈ matching port ds, d.payload.length ≤ 65507 := fun d hd => (hds d (mem_matching.mp hd).1).2
  have hrecords := records_iff hlen
  constructor
  · intro h d hd hport
    have hforall := h.metas
    rw [hmetas] at hforall
    exact hrecords.mp hforall d (mem_matching.mpr ⟨hd, hport⟩)
  · intro h
    refine ⟨?_, by rw [hout]; exact hdata⟩
    rw [hmetas]
    exact hrecords.mpr fun d hd => h d (mem_matching.mp hd).1 (mem_matching.mp hd).2

theorem start_rest (hN : Supported N) (hds : ∀ d ∈ ds, d.payload ≠ []) {ws : List (Word N)}
    (hws : Packets ws (ds.map Datagram.payload)) {n : UdpNet N}
    (hreach : Reach (UdpNet.step port) anyStep (start ds ws) n) :
    ∃ t, Reach (UdpNet.step port) anyStep n t ∧ t.AtRest port := by
  obtain ⟨data, hfinishes, -⟩ := start_finishes hN port hds hws
  exact (hfinishes.reach hreach).rest

/-- In whatever order the processes are called, they can come to rest; and at rest the datagrams to the listen port
have been received as they were sent if and only if their addresses are 0. -/
theorem datagrams_round_trip (hN : Supported N) (port : BitVec 16) (ds : List Datagram)
    (hds : ∀ d ∈ ds, d.payload ≠ [] ∧ d.payload.length ≤ 65507) (ws : List (Word N))
    (hws : Packets ws (ds.map Datagram.payload)) :
    (∀ n, Reach (UdpNet.step port) anyStep (start ds ws) n →
      ∃ t, Reach (UdpNet.step port) anyStep n t ∧ t.AtRest port) ∧
    ∀ t, Reach (UdpNet.step port) anyStep (start ds ws) t → t.AtRest port →
      (RoundTrip port ds t ↔ ∀ d ∈ ds, d.theirPort = port → d.theirAddress = 0) :=
  ⟨fun _ hreach => start_rest hN (fun d hd => (hds d hd).1) hws hreach,
    fun _ hreach hrest => rest_round_trip hN hds hws hreach hrest⟩

/-- One byte of payload in a word of 64 bits. -/
def oneByte (b : BitVec 8) : Word 8 := ⟨⟨b, true⟩ :: List.replicate 7 {}, true, rfl⟩

theorem packet_oneByte (b : BitVec 8) : Packet [oneByte b] [b] :=
  .last rfl ⟨List.replicate 7 {}, rfl, Axi.unkept_replicate 7⟩

/-- Two datagrams, the second one to another port. -/
def twoDatagrams : List Datagram := [⟨0, 7, 9, [1]⟩, ⟨0x0a01d4d1000000000000000000000000, 8, 9, [2]⟩]

theorem datagrams_round_trip_two :
    ∃ t, Reach (UdpNet.step 7) anyStep (start twoDatagrams [oneByte 1, oneByte 2]) t ∧ t.AtRest 7 ∧
      RoundTrip 7 twoDatagrams t := by
  have hws : Packets [oneByte 1, oneByte 2] (twoDatagrams.map Datagram.payload) :=
    .cons (packet_oneByte 1) (.cons (packet_oneByte 2) .nil)
  have hround := datagrams_round_trip (N := 8) (.inl rfl) 7 twoDatagrams (by decide) _ hws
  obtain ⟨t, hreach, hrest⟩ := hround.1 _ (Reach.refl _)
  exact ⟨t, hreach, hrest, (hround.2 t hreach hrest).mpr (by decide)⟩

/-- The address of a datagram to the listen port does not come back. -/
theorem address_lost :
    ∃ t, Reach (UdpNet.step 8) anyStep (start twoDatagrams [oneByte 1, oneByte 2]) t ∧ t.AtRest 8 ∧
      ¬RoundTrip 8 twoDatagrams t := by
  have hws : Packets [oneByte 1, oneByte 2] (twoDatagrams.map Datagram.payload) :=
    .cons (packet_oneByte 1) (.cons (packet_oneByte 2) .nil)
  have hstart : Reach (UdpNet.step 8) anyStep (start twoDatagrams [oneByte 1, oneByte 2]) _ := Reach.refl _
  obtain ⟨t, hreach, hrest⟩ := start_rest (.inl rfl) (by decide) hws hstart
  refine ⟨t, hreach, hrest, ?_⟩
  rw [rest_round_trip (.inl rfl) (by decide) hws hreach hrest]
  decide

end FpgaNetworkStack.Udp
