import FpgaNetworkStack.MacIpEncode.Net

/-!
# The frames that are sent

A packet is looked up with the reply that it gets.  One whose lookup misses leaves nothing behind; one whose lookup hits
is sent in one frame, with its checksum.
-/

namespace FpgaNetworkStack.MacIpEncode

open Lib
open Axi (Word Packet Packets Framed octets length_octets)
open IpHandler (SubSums Total checksumOk)
open Toe (withChecksum)
open Ipv4 (halfAt halfAt_lt ihl Measured partSum)

/-- An IPv4 packet without options. -/
structure Outgoing (p : Framed 64) : Prop where
  ihl : ihl p.bytes = 5
  length : 20 ≤ p.bytes.length

theorem Outgoing.measured {p : Framed 64} (h : Outgoing p) : Measured p := ⟨h.length, by rw [h.ihl]; exact h.length⟩

/-! ## The checksum -/

/-- The sum of the header without the checksum field, and its complement. -/
def fieldSum (ip : List (BitVec 8)) : Nat := onesSum 65536 ((List.range 10).map fun i => if i = 5 then 0 else halfAt ip i)

def headerChecksum (ip : List (BitVec 8)) : BitVec 16 := ~~~BitVec.ofNat 16 (fieldSum ip)

theorem folds_fieldSum (ip : List (BitVec 8)) :
    Folds 65536 (fieldSum ip) (partSum (fun i => !true || i != 5) ip 10) := by
  have hlist : partSum (fun i => !true || i != 5) ip 10 =
      ((List.range 10).map fun i => if i = 5 then 0 else halfAt ip i).sum := by
    rw [partSum]
    refine congrArg List.sum (List.map_congr_left fun i _ => ?_)
    by_cases hi : i = 5 <;> simp [hi]
  rw [hlist]
  apply folds_onesSum (by decide)
  intro x hx
  obtain ⟨i, -, rfl⟩ := List.mem_map.mp hx
  by_cases hi : i = 5
  · simp [hi]
  · rw [if_neg hi]
    exact halfAt_lt ip i

variable {ip : List (BitVec 8)}

theorem finalize_eq {sums : SubSums} (h : Total sums 32 (partSum (fun i => !true || i != 5) ip 10)) :
    (Toe.addSubSums 32 sums).extractLsb' 0 16 = headerChecksum ip := by
  obtain ⟨e, he, hfolds⟩ := Toe.addSubSums_eq (.inr (.inr (.inr rfl))) h
  have hsum : e.toNat = fieldSum ip := hfolds.unique (folds_fieldSum ip)
  have hlt := hfolds.lt
  apply BitVec.eq_of_toNat_eq
  rw [he, BitVec.extractLsb'_toNat, BitVec.toNat_not, Nat.shiftRight_zero, headerChecksum, BitVec.toNat_not,
    BitVec.toNat_ofNat, ← hsum]
  omega

theorem halfAt_withChecksum (hlen : 20 ≤ ip.length) (checksum : BitVec 16) (i : Nat) :
    halfAt (withChecksum 10 checksum ip) i = if i = 5 then checksum.toNat else halfAt ip i := by
  have h10 : 10 < ip.length := by omega
  have h11 : 11 < ip.length := by omega
  by_cases hi : i = 5
  · have hbytes : checksum.extractLsb' 8 8 ++ checksum.extractLsb' 0 8 = checksum := BitVec.extractLsb'_append_extractLsb'
    rw [if_pos hi, hi, halfAt, withChecksum, List.getD_eq_getElem?_getD, List.getD_eq_getElem?_getD]
    rw [List.getElem?_set_ne (by decide), List.getElem?_set_self h10, List.getElem?_set_self (by rwa [List.length_set])]
    exact congrArg BitVec.toNat hbytes
  · have hbyte (k : Nat) (h0 : k ≠ 10) (h1 : k ≠ 11) : (withChecksum 10 checksum ip).getD k 0 = ip.getD k 0 := by
      rw [withChecksum, List.getD_eq_getElem?_getD, List.getElem?_set_ne (Ne.symm h1), List.getElem?_set_ne (Ne.symm h0),
        ← List.getD_eq_getElem?_getD]
    rw [if_neg hi, halfAt, hbyte _ (by omega) (by omega), hbyte _ (by omega) (by omega), ← halfAt]

/-- With this checksum the header verifies. -/
theorem checksumOk_headerChecksum (hihl : ihl ip = 5) (hlen : 20 ≤ ip.length) :
    checksumOk (withChecksum 10 (headerChecksum ip) ip) = true := by
  have hfolds := folds_fieldSum ip
  have hlt := hfolds.lt
  have hchecksum : (headerChecksum ip).toNat = 65535 - fieldSum ip := by
    rw [headerChecksum, BitVec.toNat_not, BitVec.toNat_ofNat, Nat.mod_eq_of_lt hlt]
  generalize headerChecksum ip = checksum at hchecksum ⊢
  have hfirst : ihl (withChecksum 10 checksum ip) = 5 := by
    rw [← hihl, ihl, withChecksum, List.getD_eq_getElem?_getD, List.getElem?_set_ne (by decide),
      List.getElem?_set_ne (by decide), ← List.getD_eq_getElem?_getD, ← ihl]
  have hhalfwords : IpHandler.halfwords (withChecksum 10 checksum ip) =
      (List.range 10).map fun i => if i = 5 then checksum.toNat else halfAt ip i := by
    change (List.range (2 * ihl (withChecksum 10 checksum ip))).map (halfAt (withChecksum 10 checksum ip)) = _
    rw [hfirst]
    exact List.map_congr_left fun i _ => halfAt_withChecksum hlen checksum i
  -- the field takes the sum to all ones
  have hall := hfolds.add (folds_self (B := 65536) checksum.isLt)
  have hsum : partSum (fun i => !true || i != 5) ip 10 + checksum.toNat =
      ((List.range 10).map fun i => if i = 5 then checksum.toNat else halfAt ip i).sum := by
    simp only [partSum, List.range_succ, List.range_zero, List.map_append, List.map_cons, List.map_nil, List.nil_append,
      List.sum_append, List.sum_cons, List.sum_nil]
    simp
    omega
  rw [hsum] at hall
  rw [checksumOk, hhalfwords, ← hall.eq_onesSum (by decide) ?_, onesAdd, hchecksum, beq_iff_eq]
  · omega
  · intro x hx
    obtain ⟨i, -, rfl⟩ := List.mem_map.mp hx
    by_cases hi : i = 5
    · rw [if_pos hi]
      exact checksum.isLt
    · rw [if_neg hi]
      exact halfAt_lt ip i

/-! ## Stage by stage -/

section

variable {ps : List (Framed 64)} (hps : ∀ p ∈ ps, Outgoing p)
include hps

theorem extract_packets (c : Config) : ∃ os t,
    Runs (extractIpAddress c.regSubNetMask c.regDefaultGateway) {} (ps.flatMap (·.words)) os t [] ∧
      os.flatMap (·.dataOut) = ps.flatMap (·.words) ∧ (os.flatMap (·.arpTableOut)).length = ps.length := by
  obtain ⟨oss, t, hrun, -, hoss⟩ := runs_blocks ExtractIpAddress.Idle Outgoing
    (fun p (os : List (ExtractOut 64)) => os.flatMap (·.dataOut) = p.words ∧
      os.flatMap (·.arpTableOut) = [nextHop c.regSubNetMask c.regDefaultGateway (IpHandler.destination p.bytes)])
    (List.flatMap (·.words)) (fun s p ps hs hp => by
      obtain ⟨os, t, hrun, ht, hdata, hout⟩ := extract_packet c.regSubNetMask c.regDefaultGateway hs p.packet hp.length
        (ps.flatMap (·.words))
      exact ⟨os, t, hrun, ht, hdata, hout⟩) ps ExtractIpAddress.idle_init hps
  refine ⟨oss.flatten, t, hrun, flatMap_blocks (fun _ _ h => h.1) hoss, ?_⟩
  rw [flatMap_blocks (fun _ _ h => h.2) hoss, List.length_flatMap]
  simp

theorem compute_packets : ∃ os t, Runs (macComputeIpv4Checksum true) {} (ps.flatMap (·.words)) os t [] ∧
    os.flatMap (·.dataOut) = ps.flatMap (·.words) ∧
    ∃ fo, Runs macFinalizeIpv4Checksum () (os.flatMap (·.subSumFifoOut)) fo () [] ∧
      fo.flatten = ps.map fun p => headerChecksum p.bytes := by
  obtain ⟨oss, t, hrun, -, hoss⟩ := runs_blocks (f := macComputeIpv4Checksum true) Ipv4.ComputeSums512.Idle Outgoing
    (fun p os => os.flatMap (·.dataOut) = p.words ∧
      ∃ r, os.flatMap (·.subSumFifoOut) = [r] ∧ Total r 32 (partSum (fun i => !true || i != 5) p.bytes 10))
    (List.flatMap (·.words)) (fun s p ps hs hp => by
      obtain ⟨os, t, r, hrun, ht, hdata, hout, htotal⟩ := Ipv4.sums512 true hs hp.measured (ps.flatMap (·.words))
      rw [hp.ihl] at htotal
      exact ⟨os, t, hrun, ht, hdata, r, hout, htotal⟩) ps (show Ipv4.ComputeSums512.Idle {} from ⟨rfl, rfl⟩) hps
  refine ⟨oss.flatten, t, hrun, flatMap_blocks (fun _ _ h => h.1) hoss, ?_⟩
  clear hrun hps
  -- one record for each packet
  induction hoss with
  | nil => exact ⟨[], .refl _ _, rfl⟩
  | @cons p os ps oss hos _ ih =>
    obtain ⟨fo, hrun, hfo⟩ := ih
    obtain ⟨-, r, hr, htotal⟩ := hos
    rw [List.flatten_cons, List.flatMap_append, hr, List.map_cons]
    refine ⟨_, .call rfl hrun, ?_⟩
    rw [List.flatten_cons, hfo, finalize_eq htotal]
    rfl

def corrected (p : Framed 64) : List (BitVec 8) := withChecksum 10 (headerChecksum p.bytes) p.bytes

theorem insert_packets : ∃ os t,
    Runs insertIpChecksum {} ⟨ps.flatMap (·.words), ps.map fun p => headerChecksum p.bytes⟩ os t ⟨[], []⟩ ∧
      t.wordCount = 0 ∧ Packets os.flatten (ps.map corrected) := by
  obtain ⟨oss, t, hrun, ht, hoss⟩ := runs_blocks (fun s : InsertIpChecksum => s.wordCount = 0) Outgoing
    (fun p os => Packet (os.flatMap id) (corrected p))
    (fun ps => (⟨ps.flatMap (·.words), ps.map fun p => headerChecksum p.bytes⟩ : InsertIn 64)) (fun s p ps hs hp => by
      obtain ⟨os, t, hrun, ht, hpacket⟩ := insertIp_packet hs p.packet hp.length (headerChecksum p.bytes)
        (ps.map fun p => headerChecksum p.bytes) (ps.flatMap (·.words))
      rw [← List.flatMap_id] at hpacket
      exact ⟨os, t, hrun, ht, hpacket⟩) ps (show ({} : InsertIpChecksum).wordCount = 0 from rfl) hps
  have hpackets := Packets.blocks (fun _ _ h => h) hoss
  rw [List.flatMap_id] at hpackets
  exact ⟨oss.flatten, t, hrun, ht, hpackets⟩

end

theorem table_replies (replies : List ArpTableReply) :
    ∀ requests : List (BitVec 32), requests.length = replies.length →
      ∃ os, Runs arpTable replies requests os [] [] ∧ os.flatten = replies := by
  induction replies with
  | nil =>
    intro requests hlen
    rw [List.length_eq_zero_iff.mp hlen]
    exact ⟨[], .refl _ _, rfl⟩
  | cons reply replies ih =>
    intro requests hlen
    obtain ⟨request, requests, rfl⟩ := List.exists_cons_of_length_eq_add_one hlen
    obtain ⟨os, hrun, hos⟩ := ih requests (Nat.succ.inj hlen)
    exact ⟨_, .call rfl hrun, by rw [List.flatten_cons, hos, List.singleton_append]⟩

/-- The packets whose lookup hit. -/
def hits {α : Type} (ds : List (α × ArpTableReply)) : List (α × ArpTableReply) := ds.filter (·.2.hit)

def headerFor (myMacAddress : BitVec 48) (reply : ArpTableReply) : BitVec ETH_HEADER_SIZE :=
  ethHeader reply.macAddress myMacAddress 0x0800

section

variable (myMacAddress : BitVec 48) {α : Type} (bytesOf : α → List (BitVec 8))

/-- Only the packets whose lookup hit are passed on, with a header for each. -/
theorem handle_packets (ds : List (α × ArpTableReply)) :
    ∀ {ws : List (Word 64)}, Packets ws (ds.map fun d => bytesOf d.1) →
      ∃ os, Runs (handleArpReply myMacAddress) .ARP ⟨ds.map (·.2), ws⟩ os .ARP ⟨[], []⟩ ∧
        os.flatMap (·.headerOut) = (hits ds).map (fun d => headerFor myMacAddress d.2) ∧
        Packets (os.flatMap (·.dataOut)) ((hits ds).map fun d => bytesOf d.1) := by
  induction ds with
  | nil =>
    intro ws hws
    cases hws
    exact ⟨[], .refl _ _, rfl, .nil⟩
  | cons d ds ih =>
    intro ws hws
    rw [List.map_cons] at hws
    cases hws with
    | @cons ws ws' _ _ h hrest =>
      obtain ⟨os, hrun, hheader, hdata⟩ := handle_packet myMacAddress h d.2 (ds.map (·.2)) ws'
      obtain ⟨os', hmore, hheaders, hpackets⟩ := ih hrest
      refine ⟨os ++ os', hrun.trans hmore, ?_⟩
      rw [List.flatMap_append, List.flatMap_append, hheader, hdata, hheaders]
      by_cases hhit : d.2.hit = true
      · have hhits : hits (d :: ds) = d :: hits ds := List.filter_cons_of_pos hhit
        rw [if_pos hhit, if_pos hhit, hhits]
        exact ⟨rfl, .cons h hpackets⟩
      · have hhits : hits (d :: ds) = hits ds := List.filter_cons_of_neg hhit
        rw [if_neg hhit, if_neg hhit, hhits]
        exact ⟨rfl, hpackets⟩

theorem ethernet_packets (ds : List (α × ArpTableReply)) :
    ∀ {ws : List (Word 64)} {s : InsertEthernetHeader}, s.geState = .PARTIAL_HEADER →
      Packets ws (ds.map fun d => List.replicate 14 0 ++ bytesOf d.1) →
      ∃ os t, Runs insertEthernetHeader s ⟨ds.map fun d => headerFor myMacAddress d.2, ws⟩ os t ⟨[], []⟩ ∧
        t.geState = .PARTIAL_HEADER ∧
        Packets os.flatten (ds.map fun d => octets 14 (headerFor myMacAddress d.2) ++ bytesOf d.1) := by
  induction ds with
  | nil =>
    intro ws s hs hws
    cases hws
    exact ⟨[], s, .refl _ _, hs, .nil⟩
  | cons d ds ih =>
    intro ws s hs hws
    rw [List.map_cons] at hws
    cases hws with
    | @cons ws ws' _ _ h hrest =>
      obtain ⟨os, t, hrun, ht, hpacket⟩ := ethernet_packet hs List.length_replicate h (headerFor myMacAddress d.2)
        (ds.map fun d => headerFor myMacAddress d.2) ws'
      obtain ⟨os', u, hmore, hu, hpackets⟩ := ih ht hrest
      refine ⟨os ++ os', u, hrun.trans hmore, hu, ?_⟩
      rw [List.flatten_append]
      exact .cons hpacket hpackets

end

/-! ## From end to end -/

/-- The frame of a packet with the reply that it gets: the addresses, the type of IPv4, and the packet. -/
def frameOf (myMacAddress : BitVec 48) (d : Framed 64 × ArpTableReply) : List (BitVec 8) :=
  octets 6 d.2.macAddress ++ octets 6 myMacAddress ++ [0x08, 0x00] ++ corrected d.1

-- three fields, from the lowest on
theorem octets_headerFor (myMacAddress : BitVec 48) (reply : ArpTableReply) :
    octets 14 (headerFor myMacAddress reply) = octets 6 reply.macAddress ++ octets 6 myMacAddress ++ [0x08, 0x00] := by
  have haddresses : octets 12 (myMacAddress ++ reply.macAddress) = octets 6 reply.macAddress ++ octets 6 myMacAddress :=
    Axi.octets_append (k := 6) (l := 6) myMacAddress reply.macAddress
  have hall : octets 14 (headerFor myMacAddress reply) =
      octets 12 (myMacAddress ++ reply.macAddress) ++ octets 2 (Toe.reverse16 0x0800) :=
    Axi.octets_append (k := 12) (l := 2) (Toe.reverse16 0x0800) (myMacAddress ++ reply.macAddress)
  rw [hall, haddresses]
  rfl

def start (ds : List (Framed 64 × ArpTableReply)) : EncodeNet :=
  { dataIn := ds.flatMap (·.1.words), replies := ds.map (·.2) }

theorem start_finishes (c : Config) {ds : List (Framed 64 × ArpTableReply)} (hds : ∀ d ∈ ds, Outgoing d.1) :
    ∃ data, Finishes c (start ds) data ∧ Packets data ((hits ds).map (frameOf c.myMacAddress)) := by
  have hps : ∀ p ∈ ds.map (·.1), Outgoing p := List.forall_mem_map.mpr hds
  obtain ⟨xo, x, hextract, hdata, hlen⟩ := extract_packets hps c
  obtain ⟨co, s, hcompute, hdata', fo, hfinalize, hchecksums⟩ := compute_packets hps
  obtain ⟨io, i, hinsert, hi, hinserted⟩ := insert_packets hps
  obtain ⟨ao, htable, hreplies⟩ := table_replies (ds.map (·.2)) (xo.flatMap (·.arpTableOut))
    (by rw [hlen, List.length_map, List.length_map])
  rw [List.map_map] at hinserted
  obtain ⟨ho, hhandle, hheaders, hhandled⟩ := handle_packets c.myMacAddress corrected ds hinserted
  obtain ⟨lo, l, hlshift, hl, hshifted⟩ := Axi.lshift_packets (show 14 ≤ 64 by decide) (show 14 ≤ 32 by decide) hhandled
    Axi.LShift.idle_init
  rw [List.map_map] at hshifted
  obtain ⟨eo, e, hethernet, he, hframes⟩ := ethernet_packets c.myMacAddress corrected (hits ds)
    (s := { geState := .start 64 }) rfl hshifted
  have hframe : (fun d : Framed 64 × ArpTableReply => octets 14 (headerFor c.myMacAddress d.2) ++ corrected d.1) =
      frameOf c.myMacAddress := by
    funext d
    rw [octets_headerFor, frameOf]
  rw [hframe] at hframes
  have hwords : (ds.map (·.1)).flatMap (·.words) = ds.flatMap (·.1.words) := List.flatMap_map ..
  rw [← hdata] at hcompute
  rw [← hdata', ← hchecksums] at hinsert
  rw [← hreplies] at hhandle
  rw [← hheaders] at hethernet
  rw [hwords] at hextract
  refine ⟨eo.flatten, ?_, hframes⟩
  refine .intro (n := start ds) ⟨hextract, rfl⟩ ⟨htable, rfl⟩ ⟨hcompute, rfl⟩ ⟨hfinalize, rfl⟩ ⟨hinsert, ?_⟩
    ⟨hhandle, rfl⟩ ⟨hlshift, Axi.lshift_idle hl⟩ ⟨hethernet, ?_⟩
  · simp [insertIpChecksum, hi]
  · simp [insertEthernetHeader, he, ETH_HEADER_SIZE]

/-- In whatever order the processes are called, they can come to rest; and at rest there is one frame for each packet
whose lookup hit, with a checksum with which the header verifies. -/
theorem frames_sent (c : Config) (ds : List (Framed 64 × ArpTableReply)) (hds : ∀ d ∈ ds, Outgoing d.1) :
    (∀ n, Reach (EncodeNet.step c) anyStep (start ds) n →
      ∃ t, Reach (EncodeNet.step c) anyStep n t ∧ t.AtRest c) ∧
    (∀ t, Reach (EncodeNet.step c) anyStep (start ds) t → t.AtRest c →
      Packets t.dataOut ((hits ds).map (frameOf c.myMacAddress))) ∧
    ∀ d ∈ ds, checksumOk (corrected d.1) = true := by
  obtain ⟨data, hfinishes, hframes⟩ := start_finishes c hds
  refine ⟨fun n hreach => (hfinishes.reach hreach).rest, fun t hreach hrest => ?_, fun d hd => ?_⟩
  · rw [(hfinishes.reach hreach).at_rest hrest]
    exact hframes
  · exact checksumOk_headerChecksum (hds d hd).ihl (hds d hd).length

/-- A packet whose lookup misses in front of one whose lookup hits. -/
def missAndHit : List (Framed 64 × ArpTableReply) :=
  [(Ipv4.word512 0x45, ⟨0, false⟩), (Ipv4.word512 0x45, ⟨0xE59D02350A00, true⟩)]

theorem frames_sent_missAndHit :
    ∃ t, Reach (EncodeNet.step ⟨0x4A2B6F3C1E02, 0x00FFFFFF, 0x01D4010A⟩) anyStep (start missAndHit) t ∧
      t.AtRest ⟨0x4A2B6F3C1E02, 0x00FFFFFF, 0x01D4010A⟩ ∧
      Packets t.dataOut [frameOf 0x4A2B6F3C1E02 (Ipv4.word512 0x45, ⟨0xE59D02350A00, true⟩)] := by
  have hds : ∀ d ∈ missAndHit, Outgoing d.1 := by
    intro d hd
    rcases List.mem_pair.mp hd with rfl | rfl <;> constructor <;> decide
  obtain ⟨hrest, hsent, -⟩ := frames_sent ⟨0x4A2B6F3C1E02, 0x00FFFFFF, 0x01D4010A⟩ missAndHit hds
  obtain ⟨t, hreach, ht⟩ := hrest _ (Reach.refl _)
  exact ⟨t, hreach, ht, hsent t hreach ht⟩

end FpgaNetworkStack.MacIpEncode
