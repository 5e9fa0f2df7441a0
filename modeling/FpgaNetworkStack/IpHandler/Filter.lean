import FpgaNetworkStack.IpHandler.Flow

/-!
# The filter from end to end

Checksum, address, protocol and data of a packet go different ways and meet again.  Each queue gets one token for
each packet, so they always belong to the same packet.
-/

namespace FpgaNetworkStack.IpHandler

open Lib
open Axi (Word Packet Packets Framed RShift rshift_packets rshift_idle)

variable {myIpAddress : BitVec 32} {fs ps : List (Framed 64)}

/-- A frame as it may come in: an IPv4 header is complete. -/
structure WellFormed (f : Framed 64) : Prop where
  length : 34 ≤ f.bytes.length
  header : etherType f.bytes = IPv4 → 14 + 2 * headerHalfwords (ipPacket f.bytes) ≤ f.bytes.length

def start (fs : List (Framed 64)) : IpNet := { sAxisRaw := fs.flatMap Framed.words }

def ipPackets (type : BitVec 16) (fs : List (Framed 64)) : List (List (BitVec 8)) :=
  (ofType type fs).map fun f => ipPacket f.bytes

/-- The words are those of the packets after `cut_length`. -/
def Cut (ws : List (Word 64)) (ips : List (List (BitVec 8))) : Prop :=
  ∃ ps : List (Framed 64), ps.map Framed.bytes = ips ∧ ws = ps.flatMap fun p => cutWords p.words

/-- Every frame has gone where it belongs, and nowhere else. -/
structure Filtered (myIpAddress : BitVec 32) (fs : List (Framed 64)) (out : Delivered) : Prop where
  arp : out.arp = (ofType ARP fs).flatMap Framed.words
  icmp : Cut out.icmp ((ipPackets IPv4 fs).filter (goesTo myIpAddress ICMP))
  udp : Cut out.udp ((ipPackets IPv4 fs).filter (goesTo myIpAddress UDP))
  tcp : Cut out.tcp ((ipPackets IPv4 fs).filter (goesTo myIpAddress TCP))
  roce : out.roce = out.udp
  icmpv6 : Packets out.icmpv6 ((ipPackets IPv6 fs).filter fun ip => nextHeader ip == ICMPv6)
  ipv6Udp : Packets out.ipv6Udp ((ipPackets IPv6 fs).filter fun ip => nextHeader ip == UDP)

/-! ## The packets behind the Ethernet header -/

theorem mem_ofType {type : BitVec 16} {f : Framed 64} : f ∈ ofType type fs ↔ f ∈ fs ∧ etherType f.bytes = type := by
  rw [ofType, List.mem_filter, beq_iff_eq]

theorem shift_frames (type : BitVec 16) (fs : List (Framed 64)) :
    ∃ (fo : List (List (Word 64))) (t : RShift 64) (ps : List (Framed 64)),
      Runs (Axi.rshiftWordByOctet shiftOffset) (.init shiftOffset) ((ofType type fs).flatMap Framed.words) fo t [] ∧
        t.Idle shiftOffset ∧ ps.flatMap Framed.words = fo.flatten ∧ ps.map Framed.bytes = ipPackets type fs := by
  obtain ⟨fo, t, hrun, ht, hpackets⟩ := rshift_packets (by decide) (Framed.packets (ofType type fs))
    (RShift.idle_init shiftOffset)
  obtain ⟨ps, hwords, hbytes⟩ := hpackets.framed
  refine ⟨fo, t, ps, hrun, ht, hwords, ?_⟩
  rw [hbytes, List.map_map]
  rfl

theorem mem_ipPackets {type : BitVec 16} (hps : ps.map Framed.bytes = ipPackets type fs) {p : Framed 64} (hp : p ∈ ps) :
    ∃ f ∈ fs, etherType f.bytes = type ∧ p.bytes = ipPacket f.bytes := by
  have hmem : p.bytes ∈ ipPackets type fs := hps ▸ List.mem_map_of_mem hp
  obtain ⟨f, hf, heq⟩ := List.mem_map.mp hmem
  exact ⟨f, (mem_ofType.mp hf).1, (mem_ofType.mp hf).2, heq.symm⟩

theorem length_ipPacket (bytes : List (BitVec 8)) : (ipPacket bytes).length = bytes.length - 14 := List.length_drop

theorem hasHeader_of (hfs : ∀ f ∈ fs, WellFormed f) (hps : ps.map Framed.bytes = ipPackets IPv4 fs) :
    ∀ p ∈ ps, HasHeader p.bytes := by
  intro p hp
  obtain ⟨f, hf, htype, hbytes⟩ := mem_ipPackets hps hp
  have hlength := (hfs f hf).length
  have hheader := (hfs f hf).header htype
  rw [hbytes]
  refine ⟨?_, ?_⟩ <;> rw [length_ipPacket] <;> omega

theorem fixed_of (hfs : ∀ f ∈ fs, WellFormed f) {type : BitVec 16} (hps : ps.map Framed.bytes = ipPackets type fs) :
    ∀ p ∈ ps, 20 ≤ p.bytes.length := by
  intro p hp
  obtain ⟨f, hf, -, hbytes⟩ := mem_ipPackets hps hp
  have hlength := (hfs f hf).length
  rw [hbytes, length_ipPacket]
  omega

theorem filter_bytes {ips : List (List (BitVec 8))} (hps : ps.map Framed.bytes = ips) (q : List (BitVec 8) → Bool) :
    (ps.filter fun p => q p.bytes).map Framed.bytes = ips.filter q := by
  rw [← hps, List.filter_map]
  rfl

/-! ## From end to end -/

theorem start_finishes (hfs : ∀ f ∈ fs, WellFormed f) (myIpAddress : BitVec 32) :
    ∃ out, Finishes myIpAddress (start fs) out ∧ Filtered myIpAddress fs out := by
  have hlength : ∀ f ∈ fs, 14 ≤ f.bytes.length := fun f hf => Nat.le_trans (by decide) (hfs f hf).length
  obtain ⟨eo, e, hdetect, htypes, hframes⟩ := detectEth_frames (HeaderReader.idle_init (by decide)) hlength
  obtain ⟨ro, r, hroute, hr, harp, hip, hipv6⟩ := route_frames (s := {}) rfl fs
  obtain ⟨fo, f4, ps, hshift4, hf4, hwords, hbytes⟩ := shift_frames IPv4 fs
  obtain ⟨so, f6, qs, hshift6, hf6, hwords6, hbytes6⟩ := shift_frames IPv6 fs
  have hheader := hasHeader_of hfs hbytes
  obtain ⟨xo, x, hextract, hxdata, hxprotocol, hxvalid⟩ := extract_packets myIpAddress
    (HeaderReader.idle_init (by decide)) (fixed_of hfs hbytes)
  obtain ⟨co, c, hcompute, hcdata, hcsums⟩ := compute_packets (s := {}) ⟨rfl, rfl⟩ ps
  obtain ⟨ko, hcheck, hko⟩ := check_packets hheader
  obtain ⟨po, hdropper, hpdata, hpvalid⟩ := dropper_packets myIpAddress ps
  obtain ⟨uo, hcut, huo⟩ := cut_packets (passed myIpAddress ps)
  obtain ⟨do4, d4, hdetect4, hd4, hicmp, hudp, htcp⟩ := detect4_packets myIpAddress (s := {}) rfl ps
  obtain ⟨do6, d6, hdetect6, hicmpv6, hipv6Udp⟩ := detect6_packets (s := {}) rfl (fixed_of hfs hbytes6)
  have hduplicate := duplicate_words (do4.flatMap (·.udpDataOut))
  -- what a process reads is what the processes before it have written
  rw [← htypes, ← hframes] at hroute
  rw [← hip] at hshift4
  rw [← hipv6] at hshift6
  rw [hwords] at hextract
  rw [← hxdata] at hcompute
  rw [← hcsums] at hcheck
  rw [dropperInput, ← hcdata, ← hko, ← hxvalid] at hdropper
  rw [← hpdata] at hcut
  rw [detect4Input, ← hxprotocol, ← hpvalid, ← huo] at hdetect4
  rw [hwords6] at hdetect6
  have hrouteIdle : routeByEthProtocol r ⟨[], []⟩ = (r, (⟨[], []⟩ : RouteIn 64), {}) := by
    simp only [routeByEthProtocol, hr]
  have hdetect4Idle : detectIpv4Protocol d4 ⟨[], [], []⟩ = (d4, (⟨[], [], []⟩ : Detect4In 64), {}) := by
    simp only [detectIpv4Protocol, hd4]
  refine ⟨_, .intro (n := start fs) ⟨hdetect, rfl⟩ ⟨hroute, hrouteIdle⟩ ⟨hshift4, rshift_idle hf4⟩
    ⟨hshift6, rshift_idle hf6⟩ ⟨hextract, rfl⟩ ⟨hcompute, rfl⟩ ⟨hcheck, rfl⟩ ⟨hdropper, rfl⟩ ⟨hcut, rfl⟩
    ⟨hdetect4, hdetect4Idle⟩ ⟨hdetect6, rfl⟩ ⟨hduplicate, rfl⟩, ?_⟩
  have hcopy : ((do4.flatMap (·.udpDataOut)).map fun w => [w]).flatten = do4.flatMap (·.udpDataOut) :=
    Axi.flatten_singletons _
  exact
    { arp := harp
      icmp := ⟨_, filter_bytes hbytes (goesTo myIpAddress ICMP), hicmp⟩
      udp := ⟨_, filter_bytes hbytes (goesTo myIpAddress UDP), hcopy.trans hudp⟩
      tcp := ⟨_, filter_bytes hbytes (goesTo myIpAddress TCP), htcp⟩
      roce := rfl
      icmpv6 := by
        have hpackets := Framed.packets (qs.filter fun p => nextHeader p.bytes == ICMPv6)
        rw [filter_bytes hbytes6 (fun ip => nextHeader ip == ICMPv6), ← hicmpv6] at hpackets
        exact hpackets
      ipv6Udp := by
        have hpackets := Framed.packets (qs.filter fun p => nextHeader p.bytes == UDP)
        rw [filter_bytes hbytes6 (fun ip => nextHeader ip == UDP), ← hipv6Udp] at hpackets
        exact hpackets }

/-- In whatever order the processes are called, they can come to rest; and at rest every frame has gone where it
belongs: an IPv4 packet whose checksum and destination are right to the output of its protocol. -/
theorem frames_filtered (myIpAddress : BitVec 32) (fs : List (Framed 64)) (hfs : ∀ f ∈ fs, WellFormed f) :
    (∀ n, Reach (IpNet.step myIpAddress) anyStep (start fs) n →
      ∃ t, Reach (IpNet.step myIpAddress) anyStep n t ∧ t.AtRest myIpAddress) ∧
    ∀ t, Reach (IpNet.step myIpAddress) anyStep (start fs) t → t.AtRest myIpAddress →
      Filtered myIpAddress fs t.delivered := by
  obtain ⟨out, hfinishes, hfiltered⟩ := start_finishes hfs myIpAddress
  constructor
  · intro n hreach
    exact (hfinishes.reach hreach).rest
  · intro t hreach hrest
    rw [(hfinishes.reach hreach).at_rest hrest]
    exact hfiltered

def oneWord (bytes : List (BitVec 8)) (hlen : bytes.length ≤ 64) : Framed 64 where
  words := [⟨bytes.map Axi.Lane.kept ++ List.replicate (64 - bytes.length) {}, true, by simp [hlen]⟩]
  bytes := bytes
  packet := .last rfl ⟨_, rfl, Axi.unkept_replicate _⟩

/-- A TCP packet to 255.255.255.255. -/
def broadcast : Framed 64 :=
  oneWord ([0, 0, 0, 0, 0, 0, 0, 0, 0, 0, 0, 0, 0x08, 0x00] ++
    [0x45, 0, 0, 20, 0, 0, 0, 0, 0x40, 0x06, 0x9C, 0x12, 0x0A, 0x01, 0xD4, 0xD1, 0xFF, 0xFF, 0xFF, 0xFF]) (by decide)

theorem frames_filtered_broadcast :
    ∃ t, Reach (IpNet.step 0) anyStep (start [broadcast]) t ∧ t.AtRest 0 ∧ Filtered 0 [broadcast] t.delivered ∧
      (ipPackets IPv4 [broadcast]).filter (goesTo 0 TCP) = [ipPacket broadcast.bytes] := by
  have hwell : ∀ f ∈ [broadcast], WellFormed f := by
    intro f hf
    rw [List.mem_singleton.mp hf]
    exact ⟨by decide, fun _ => by decide⟩
  have hfiltered := frames_filtered 0 [broadcast] hwell
  obtain ⟨t, hreach, hrest⟩ := hfiltered.1 _ (Reach.refl _)
  exact ⟨t, hreach, hrest, hfiltered.2 t hreach hrest, by decide⟩

end FpgaNetworkStack.IpHandler
