import FpgaNetworkStack.IpHandler.CutLength
import FpgaNetworkStack.IpHandler.Filter
import FpgaNetworkStack.MacIpEncode.Frames

/-!
# From one stack to another

`mac_ip_encode` makes frames of IPv4 packets, `ethernet_frame_padding` fills up the short ones, and `ip_handler` of the
stack at the other end takes them apart.  The processes of all three are called in any order.
-/

namespace FpgaNetworkStack.Ethernet

open Lib
open Axi (Lane Word Packet Packets Framed)
open MacIpEncode (ArpTableReply Config EncodeNet Outgoing corrected frameOf hits)
open IpHandler (Delivered IPv4 IpNet addressOk checksumOk cutWords etherType goesTo halfwords headerHalfwords ipPacket
  ipPackets ofType protocol totalLength)

variable {N : Nat}

/-! ## `ethernet_frame_padding` -/

/-- Zeros take the place of the bytes that are not kept. -/
def padWord (w : Word N) : Word N where
  lanes := w.lanes.map fun l => if l.keep then l else ⟨0, true⟩
  last := w.last
  length_eq := (List.length_map _).trans w.length_eq

/-- Only a frame of one word is filled up; `state` is true behind the first word of a longer one. -/
def ethernetFramePadding (state : Bool) (dataIn : List (Word N)) : Bool × List (Word N) × List (Word N) :=
  match state, dataIn with
  | state, [] => (state, [], [])
  | false, currWord :: rest => if currWord.last then (false, rest, [padWord currWord]) else (true, rest, [currWord])
  | true, currWord :: rest => (!currWord.last, rest, [currWord])

theorem padding_waits : Waits (ethernetFramePadding (N := N)) [] := by
  intro state dataIn
  cases dataIn with
  | nil => exact .inl (by cases state <;> rfl)
  | cons w ws =>
    right
    intro more
    cases state with
    | true => rfl
    | false => cases hw : w.last <;> simp [ethernetFramePadding, hw]

def padded (N : Nat) (bytes : List (BitVec 8)) : List (BitVec 8) := bytes ++ List.replicate (N - bytes.length) 0

theorem padWord_holds {w : Word N} {bs : List (BitVec 8)} (h : w.Holds bs) : (padWord w).Holds (padded N bs) := by
  obtain ⟨rest, hlanes, hrest⟩ := h
  have hlen := w.length_eq
  rw [hlanes, List.length_append, List.length_map] at hlen
  refine ⟨[], ?_, fun l hl => (List.not_mem_nil hl).elim⟩
  show w.lanes.map _ = _
  rw [hlanes, padded, List.append_nil, List.map_append, List.map_append, List.map_map, List.map_replicate]
  congr 1
  apply List.eq_replicate_iff.mpr
  refine ⟨by rw [List.length_map]; omega, fun l hl => ?_⟩
  obtain ⟨l', hl', rfl⟩ := List.mem_map.mp hl
  rw [hrest l' hl']
  rfl

theorem padding_packet {ws : List (Word N)} {bs : List (BitVec 8)} (h : Packet ws bs) (rest : List (Word N)) :
    ∃ os t, Runs ethernetFramePadding false (ws ++ rest) os t rest ∧ t = false ∧ Packet os.flatten (padded N bs) := by
  obtain ⟨os, t, w, ws', hrun, ht, rfl, hos⟩ := Axi.forward_first (f := ethernetFramePadding) (fun ws => ws) (· = true)
    (· = false) (g := fun w => if w.last then padWord w else w) (s := false)
    (by rintro _ w rest rfl hw; simp [ethernetFramePadding, hw]) (by rintro _ w rest rfl hw; simp [ethernetFramePadding, hw])
    (by intro w rest; cases hw : w.last <;> simp [ethernetFramePadding, hw]) h rest
  refine ⟨os, t, hrun, ht, ?_⟩
  rw [hos]
  cases h with
  | last hw hholds =>
    rw [if_pos hw]
    exact .last hw (padWord_holds hholds)
  | @cons _ _ b b' hw hlanes h =>
    have hb : N - (b ++ b').length = 0 := by
      rw [List.length_append, Word.length_full hlanes]
      omega
    rw [padded, hb, List.replicate_zero, List.append_nil, hw]
    exact .cons hw hlanes h

/-! ## The three together -/

structure Link where
  encode : EncodeNet
  state : Bool := false
  handler : IpNet := { sAxisRaw := [] }

inductive LinkProc where
  | encode (p : MacIpEncode.Proc)
  | padding
  | handler (p : IpHandler.Proc)

section

variable (c : Config) (myIpAddress : BitVec 32)

def Link.call (t : Link) : LinkProc → Link
  | .encode p => { t with encode := t.encode.call c p }
  | .padding =>
    let r := ethernetFramePadding t.state t.encode.dataOut
    { encode := { t.encode with dataOut := r.2.1 }
      state := r.1
      handler := { t.handler with sAxisRaw := t.handler.sAxisRaw ++ r.2.2 } }
  | .handler p => { t with handler := t.handler.call myIpAddress p }

def Link.step (t : Link) (p : LinkProc) : Option Link := some (t.call c myIpAddress p)

def Link.AtRest (t : Link) : Prop := ∀ p, t.call c myIpAddress p = t

/-- What is still to come goes through the padding to the handler, which then has delivered `out`. -/
inductive Finishes (t : Link) (out : Delivered) : Prop
  | intro {data os s j} (encode : MacIpEncode.Finishes c t.encode (t.encode.dataOut ++ data))
      (padding : Rests ethernetFramePadding [] t.state (t.encode.dataOut ++ data) os s j)
      (handler : IpHandler.Finishes myIpAddress { t.handler with sAxisRaw := t.handler.sAxisRaw ++ os.flatten } out)

end

variable {c : Config} {myIpAddress : BitVec 32} {t : Link} {out : Delivered}

/-- Frames may be taken from the output. -/
theorem output {n : EncodeNet} {data : List (Word 64)} (h : MacIpEncode.Finishes c n data) :
    ∃ later, data = n.dataOut ++ later ∧ ∀ q, MacIpEncode.Finishes c { n with dataOut := q } (q ++ later) := by
  obtain ⟨extract, table, compute, finalize, insert, handle, lshift, ethernet⟩ := h
  exact ⟨_, rfl, fun q => .intro (n := { n with dataOut := q }) extract table compute finalize insert handle lshift
    ethernet⟩

/-- Frames that come in later do not change what a call does. -/
theorem call_later (n : IpNet) (p : IpHandler.Proc) (later : List (Word 64)) :
    n.call myIpAddress p = n ∨ ({ n with sAxisRaw := n.sAxisRaw ++ later } : IpNet).call myIpAddress p =
      { n.call myIpAddress p with sAxisRaw := (n.call myIpAddress p).sAxisRaw ++ later } := by
  cases p with
  | detectEth =>
    cases hin : n.sAxisRaw with
    | nil =>
      have hidle : IpHandler.detectEthProtocol n.detectEth n.sAxisRaw = (n.detectEth, n.sAxisRaw, {}) := by
        rw [hin]
        rfl
      exact .inl (by simp [IpNet.call, hidle])
    | cons w ws => exact .inr (by simp [IpNet.call, IpHandler.detectEthProtocol, hin])
  | _ => exact .inr rfl

theorem Finishes.call (h : Finishes c myIpAddress t out) (p : LinkProc) :
    Finishes c myIpAddress (t.call c myIpAddress p) out := by
  obtain ⟨encode, padding, handler⟩ := h
  cases p with
  | encode p =>
    have hcall := encode.call p
    obtain ⟨later, hlater, -⟩ := output hcall
    rw [hlater] at hcall padding
    exact .intro (t := t.call c myIpAddress (.encode p)) hcall padding handler
  | padding =>
    obtain ⟨os, padding', hos⟩ := padding.called padding_waits
    obtain ⟨later, hlater, hmore⟩ := output encode
    rw [flatten_called hos, ← List.append_assoc] at handler
    rw [List.append_cancel_left hlater] at padding'
    exact .intro (t := t.call c myIpAddress .padding) (hmore _) padding' handler
  | @handler p =>
    rcases call_later t.handler p _ with hidle | hmore
    · have hcall : t.call c myIpAddress (.handler p) = t := by rw [Link.call, hidle]
      rw [hcall]
      exact .intro encode padding handler
    · have hcall := handler.call p
      rw [hmore] at hcall
      exact .intro (t := t.call c myIpAddress (.handler p)) encode padding hcall

theorem Finishes.reach {u : Link} (h : Finishes c myIpAddress t out)
    (hreach : Reach (Link.step c myIpAddress) anyStep t u) : Finishes c myIpAddress u out := by
  refine Reach.invariant (P := fun t => Finishes c myIpAddress t out) hreach h ?_
  intro u p v hu _ hs
  cases Option.some.inj hs
  exact hu.call p

theorem Finishes.at_rest (h : Finishes c myIpAddress t out) (hrest : t.AtRest c myIpAddress) :
    t.handler.delivered = out := by
  obtain ⟨encode, padding, handler⟩ := h
  have hpadding := hrest .padding
  have hidle : ethernetFramePadding t.state t.encode.dataOut = (t.state, t.encode.dataOut, []) :=
    Prod.ext (congrArg Link.state hpadding) (Prod.ext (congrArg (fun u => u.encode.dataOut) hpadding)
      (List.append_right_eq_self.mp (congrArg (fun u => u.handler.sAxisRaw) hpadding)))
  have hdata := encode.at_rest fun p => congrArg Link.encode (hrest (.encode p))
  rw [← hdata] at padding
  obtain ⟨-, -, hos⟩ := padding.at_rest hidle
  rw [List.flatten_eq_nil_iff.mpr hos, List.append_nil] at handler
  exact handler.at_rest fun p => congrArg Link.handler (hrest (.handler p))

theorem run_padding (c : Config) (myIpAddress : BitVec 32) (t : Link) : ∀ os s i,
    Runs ethernetFramePadding t.state t.encode.dataOut os s i →
    Reach (Link.step c myIpAddress) anyStep t
      { encode := { t.encode with dataOut := i }, state := s
        handler := { t.handler with sAxisRaw := t.handler.sAxisRaw ++ os.flatten } } :=
  Runs.reach LinkProc.padding (fun s i os => by simp [Link.step, Link.call]) (by simp)

theorem Finishes.rest (h : Finishes c myIpAddress t out) :
    ∃ u, Reach (Link.step c myIpAddress) anyStep t u ∧ u.AtRest c myIpAddress := by
  obtain ⟨encode, -, -⟩ := id h
  -- first the encoder, then the padding, then the handler
  obtain ⟨n, hn, hnrest⟩ := encode.rest
  have h1 : Reach (Link.step c myIpAddress) anyStep t { t with encode := n } :=
    hn.map (fun n => { t with encode := n }) .encode fun _ _ _ hs => by cases hs; rfl
  obtain @⟨_, os, s, i, encode', padding, handler⟩ := h.reach h1
  rw [← encode'.at_rest hnrest] at padding
  have h2 := h1.trans (run_padding c myIpAddress _ _ _ _ padding.run)
  obtain ⟨m, hm, hmrest⟩ := handler.rest
  have h3 : Reach (Link.step c myIpAddress) anyStep _ ⟨{ n with dataOut := i }, s, m⟩ :=
    hm.map (fun m => (⟨{ n with dataOut := i }, s, m⟩ : Link)) LinkProc.handler fun _ _ _ hs => by cases hs; rfl
  refine ⟨_, h2.trans h3, ?_⟩
  have hidle : ({ n with dataOut := i } : EncodeNet).Idle c := { hnrest.idle with }
  rintro (p | _ | p)
  · exact congrArg (fun n => (⟨n, _, m⟩ : Link)) (hidle.at_rest p)
  · simp [Link.call, padding.rest]
  · exact congrArg (fun m => (⟨_, _, m⟩ : Link)) (hmrest p)

/-! ## The packets that arrive -/

/-- What `ip_handler` gets behind the Ethernet header: padding follows a short packet. -/
def received (p : Framed 64) : List (BitVec 8) := corrected p ++ List.replicate (50 - p.bytes.length) 0

/-- The packet states its length. -/
structure Sendable (p : Framed 64) : Prop extends Outgoing p where
  total : totalLength p.bytes = p.bytes.length

theorem getD_corrected (p : Framed 64) {k : Nat} (h10 : k ≠ 10) (h11 : k ≠ 11) :
    (corrected p).getD k 0 = p.bytes.getD k 0 := by
  rw [corrected, Toe.withChecksum, List.getD_eq_getElem?_getD, List.getElem?_set_ne (Ne.symm h11),
    List.getElem?_set_ne (Ne.symm h10), ← List.getD_eq_getElem?_getD]

theorem length_corrected (p : Framed 64) : (corrected p).length = p.bytes.length := by
  rw [corrected, Toe.withChecksum, List.length_set, List.length_set]

variable {p : Framed 64}

theorem getD_received (hp : Sendable p) {k : Nat} (hk : k < 20) : (received p).getD k 0 = (corrected p).getD k 0 := by
  have hlen := hp.length
  rw [received, List.getD_append]
  rw [length_corrected]
  omega

theorem received_fields (hp : Sendable p) :
    headerHalfwords (received p) = 10 ∧ checksumOk (received p) = true ∧
      totalLength (received p) = p.bytes.length ∧ protocol (received p) = protocol p.bytes ∧
      ∀ ip, addressOk ip (received p) = addressOk ip p.bytes := by
  have hbyte {k : Nat} (hk : k < 20) (h10 : k ≠ 10) (h11 : k ≠ 11) : (received p).getD k 0 = p.bytes.getD k 0 :=
    (getD_received hp hk).trans (getD_corrected p h10 h11)
  have hheader : headerHalfwords (received p) = 10 := by
    rw [headerHalfwords, hbyte (by decide) (by decide) (by decide)]
    exact congrArg (2 * ·) hp.ihl
  have hcorrected : headerHalfwords (corrected p) = 10 := by
    rw [← hheader, headerHalfwords, headerHalfwords, getD_received hp (by decide)]
  refine ⟨hheader, ?_, ?_, hbyte (by decide) (by decide) (by decide), fun ip => ?_⟩
  · rw [← MacIpEncode.checksumOk_headerChecksum hp.ihl hp.length]
    show checksumOk _ = checksumOk (corrected p)
    rw [checksumOk, checksumOk]
    congr 2
    rw [halfwords, halfwords, hheader, hcorrected]
    refine List.map_congr_left fun k hk => ?_
    rw [List.mem_range] at hk
    rw [getD_received hp (by omega), getD_received hp (by omega)]
  · rw [← hp.total, totalLength, totalLength]
    rw [hbyte (by decide) (by decide) (by decide), hbyte (by decide) (by decide) (by decide)]
  · rw [addressOk, addressOk, IpHandler.destination, IpHandler.destination]
    rw [hbyte (by decide) (by decide) (by decide), hbyte (by decide) (by decide) (by decide),
      hbyte (by decide) (by decide) (by decide), hbyte (by decide) (by decide) (by decide)]

/-- `cut_length` takes the padding off again. -/
theorem cut_received {q : Framed 64} (hp : Sendable p) (hq : q.bytes = received p) :
    Packet (cutWords q.words) (corrected p) := by
  have hlen := hp.length
  obtain ⟨-, -, htotal, -, -⟩ := received_fields hp
  rw [← hq] at htotal
  have hlength : q.bytes.length = p.bytes.length + (50 - p.bytes.length) := by
    rw [hq, received, List.length_append, List.length_replicate, length_corrected]
  have hright : IpHandler.CutsRight512 q := by
    obtain ⟨hle, hge⟩ := q.packet.length_bytes
    unfold IpHandler.CutsRight512
    rw [htotal]
    split <;> omega
  have hcut := IpHandler.cutWords_packet q.packet (by omega)
  rw [← (IpHandler.cutBytes512_iff ⟨by omega, by omega⟩).mpr hright, htotal, hq, received,
    List.take_left' (length_corrected p)] at hcut
  exact hcut

theorem cut_all {es : List (Framed 64 × ArpTableReply)} (hes : ∀ d ∈ es, Sendable d.1) :
    ∀ {qs : List (Framed 64)}, qs.map Framed.bytes = es.map (fun d => received d.1) →
      Packets (qs.flatMap fun q => cutWords q.words) (es.map fun d => corrected d.1) := by
  induction es with
  | nil =>
    intro qs hqs
    rw [List.map_eq_nil_iff.mp hqs]
    exact .nil
  | cons d es ih =>
    intro qs hqs
    obtain ⟨q, qs, rfl, hq, hqs⟩ := List.map_eq_cons_iff.mp hqs
    obtain ⟨hd, hes⟩ := List.forall_mem_cons.mp hes
    exact .cons (cut_received hd hq) (ih hes hqs)

/-- The packets to `ip` or to everyone with one protocol, as they are sent: each with its checksum. -/
def sentTo (ip : BitVec 32) (pr : BitVec 8) (ds : List (Framed 64 × ArpTableReply)) : List (List (BitVec 8)) :=
  ((hits ds).filter fun d => addressOk ip d.1.bytes && protocol d.1.bytes == pr).map fun d => corrected d.1

/-- Every packet whose lookup hit is at the output of its protocol when it is for `ip`, without padding and in order;
nothing else is at any output. -/
structure Carried (ip : BitVec 32) (ds : List (Framed 64 × ArpTableReply)) (out : Delivered) : Prop where
  icmp : Packets out.icmp (sentTo ip IpHandler.ICMP ds)
  udp : Packets out.udp (sentTo ip IpHandler.UDP ds)
  tcp : Packets out.tcp (sentTo ip IpHandler.TCP ds)
  roce : out.roce = out.udp
  arp : out.arp = []
  icmpv6 : out.icmpv6 = []
  ipv6Udp : out.ipv6Udp = []

theorem cut_sent {ip : BitVec 32} {pr : BitVec 8} {ds : List (Framed 64 × ArpTableReply)} {ws : List (Word 64)}
    (hds : ∀ d ∈ hits ds, Sendable d.1)
    (h : IpHandler.Cut ws (((hits ds).map fun d => received d.1).filter (goesTo ip pr))) :
    Packets ws (sentTo ip pr ds) := by
  obtain ⟨qs, hqs, rfl⟩ := h
  refine cut_all (fun d hd => hds d (List.mem_filter.mp hd).1) (hqs.trans ?_)
  rw [List.filter_map]
  congr 1
  refine List.filter_congr fun d hd => ?_
  obtain ⟨-, hchecksum, -, hprotocol, haddress⟩ := received_fields (hds d hd)
  rw [Function.comp_apply, goesTo, IpHandler.accepted, hchecksum, hprotocol, haddress, Bool.true_and]

theorem no_words {ws : List (Word 64)} (h : Packets ws []) : ws = [] := by
  cases h
  rfl

theorem frame_fields (mac : BitVec 48) {d : Framed 64 × ArpTableReply} (hd : Sendable d.1) :
    etherType (padded 64 (frameOf mac d)) = IPv4 ∧
      ipPacket (padded 64 (frameOf mac d)) = received d.1 ∧ 34 ≤ (padded 64 (frameOf mac d)).length := by
  have hlen := hd.length
  have hfront : (Axi.octets 6 d.2.macAddress ++ Axi.octets 6 mac ++ [0x08, 0x00]).length = 14 := rfl
  have hframe : (frameOf mac d).length = 14 + d.1.bytes.length := by
    rw [frameOf, List.length_append, hfront, length_corrected]
  refine ⟨(by decide : (0x08#8 ++ 0x00#8 : BitVec 16) = IPv4), ?_, ?_⟩
  · rw [padded, hframe, frameOf, List.append_assoc, ipPacket, List.drop_left' hfront, received, Nat.sub_add_eq]
  · rw [padded, List.length_append, hframe]
    omega

/-- In whatever order the processes are called, they can come to rest; and at rest the packets have been carried over. -/
theorem packets_carried (c : Config) (ip : BitVec 32) (ds : List (Framed 64 × ArpTableReply))
    (hds : ∀ d ∈ ds, Sendable d.1) :
    (∀ t, Reach (Link.step c ip) anyStep { encode := MacIpEncode.start ds } t →
      ∃ u, Reach (Link.step c ip) anyStep t u ∧ u.AtRest c ip) ∧
    ∀ t, Reach (Link.step c ip) anyStep { encode := MacIpEncode.start ds } t → t.AtRest c ip →
      Carried ip ds t.handler.delivered := by
  have hhits : ∀ d ∈ hits ds, Sendable d.1 := fun d hd => hds d (List.mem_filter.mp hd).1
  obtain ⟨data, hencode, hframes⟩ := MacIpEncode.start_finishes c fun d hd => (hds d hd).toOutgoing
  obtain ⟨os, s, hpad, -, hpadded⟩ := hframes.stage (f := ethernetFramePadding) (padded 64)
    (fun s _ _ rest (hs : s = false) h => by subst hs; exact padding_packet h rest) rfl
  obtain ⟨fs, hwords, hbytes⟩ := hpadded.framed
  rw [List.map_map] at hbytes
  have hframe : ∀ f ∈ fs, ∃ d ∈ hits ds, padded 64 (frameOf c.myMacAddress d) = f.bytes := by
    intro f hf
    have hmem : f.bytes ∈ fs.map Framed.bytes := List.mem_map_of_mem hf
    rw [hbytes] at hmem
    exact List.mem_map.mp hmem
  have htype : ∀ f ∈ fs, etherType f.bytes = IPv4 := by
    intro f hf
    obtain ⟨d, hd, hbytes⟩ := hframe f hf
    rw [← hbytes]
    exact (frame_fields _ (hhits d hd)).1
  have hwell : ∀ f ∈ fs, IpHandler.WellFormed f := by
    intro f hf
    obtain ⟨d, hd, hbytes⟩ := hframe f hf
    obtain ⟨-, hip, hlength⟩ := frame_fields c.myMacAddress (hhits d hd)
    rw [hbytes] at hip hlength
    refine ⟨hlength, fun _ => ?_⟩
    rw [hip, (received_fields (hhits d hd)).1]
    exact hlength
  obtain ⟨out, hhandler, hfiltered⟩ := IpHandler.start_finishes hwell ip
  have hfinishes : Finishes c ip { encode := MacIpEncode.start ds } out := by
    have hdata : MacIpEncode.Finishes c (MacIpEncode.start ds) ((MacIpEncode.start ds).dataOut ++ data) := hencode
    refine .intro hdata ⟨hpad, by cases s <;> rfl⟩ ?_
    rw [IpHandler.start, hwords] at hhandler
    exact hhandler
  have hother {type : BitVec 16} (h : IPv4 ≠ type) : ofType type fs = [] :=
    List.filter_eq_nil_iff.mpr fun f hf => by rw [htype f hf, beq_iff_eq]; exact h
  have hipPackets : ipPackets IPv4 fs = (hits ds).map fun d => received d.1 := by
    have hall : ofType IPv4 fs = fs :=
      List.filter_eq_self.mpr fun f hf => by rw [htype f hf, beq_self_eq_true]
    have hmap : (fs.map fun f => ipPacket f.bytes) = (fs.map Framed.bytes).map ipPacket :=
      (List.map_map ..).symm
    rw [ipPackets, hall, hmap, hbytes, List.map_map]
    exact List.map_congr_left fun d hd => (frame_fields _ (hhits d hd)).2.1
  have hnone : ipPackets IpHandler.IPv6 fs = [] := by
    rw [ipPackets, hother (by decide)]
    rfl
  refine ⟨fun t hreach => (hfinishes.reach hreach).rest, fun t hreach hrest => ?_⟩
  rw [(hfinishes.reach hreach).at_rest hrest]
  obtain ⟨harp, hicmp, hudp, htcp, hroce, hicmpv6, hipv6Udp⟩ := hfiltered
  rw [hipPackets] at hicmp hudp htcp
  rw [hnone] at hicmpv6 hipv6Udp
  rw [hother (by decide)] at harp
  refine ⟨cut_sent hhits hicmp, cut_sent hhits hudp, cut_sent hhits htcp, hroce, harp, no_words hicmpv6,
    no_words hipv6Udp⟩

/-- A packet of 20 bytes to everyone. -/
def shortPacket : Framed 64 :=
  .single [0x45, 0, 0, 20, 0, 0, 0, 0, 0x40, 0x06, 0, 0, 0x0A, 0x01, 0xD4, 0xD1, 0xFF, 0xFF, 0xFF, 0xFF] (by decide)

theorem packets_carried_short :
    ∃ t, Reach (Link.step ⟨1, 2, 3⟩ 0) anyStep { encode := MacIpEncode.start [(shortPacket, ⟨4, true⟩)] } t ∧
      t.AtRest ⟨1, 2, 3⟩ 0 ∧ Carried 0 [(shortPacket, ⟨4, true⟩)] t.handler.delivered ∧
      sentTo 0 IpHandler.TCP [(shortPacket, ⟨4, true⟩)] = [corrected shortPacket] := by
  have hds : ∀ d ∈ [(shortPacket, (⟨4, true⟩ : ArpTableReply))], Sendable d.1 := by
    intro d hd
    rw [List.mem_singleton.mp hd]
    exact ⟨⟨by decide, by decide⟩, by decide⟩
  obtain ⟨hrest, hcarried⟩ := packets_carried ⟨1, 2, 3⟩ 0 _ hds
  obtain ⟨t, hreach, ht⟩ := hrest _ (Reach.refl _)
  exact ⟨t, hreach, ht, hcarried t hreach ht, by decide⟩

end FpgaNetworkStack.Ethernet
