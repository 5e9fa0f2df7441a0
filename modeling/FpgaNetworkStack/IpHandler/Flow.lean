import FpgaNetworkStack.IpHandler.Checksum
import FpgaNetworkStack.IpHandler.Net

/-!
# Packet after packet

What each process makes of a sequence of packets: one token for each of them in every queue, and its words.
-/

namespace FpgaNetworkStack.IpHandler

open Lib
open Axi (Word Packet Ends Framed headerOf)

section

variable {N : Nat} {ο β : Type} {first body : Word N → ο} {g : ο → List β}

/-- What is written for the words of a packet, with the first one apart. -/
def emitFirst (first body : Word N → ο) : List (Word N) → List ο
  | [] => []
  | w :: ws => first w :: ws.map body

theorem emitFirst_words {g : ο → List (Word N)} (hfirst : ∀ w, g (first w) = [w]) (hbody : ∀ w, g (body w) = [w])
    (ws : List (Word N)) : (emitFirst first body ws).flatMap g = ws := by
  cases ws with
  | nil => rfl
  | cons w ws =>
    rw [emitFirst, List.flatMap_cons, hfirst, List.flatMap_map, List.singleton_append]
    simp only [hbody, List.flatMap_singleton']

theorem emitFirst_once {x : β} (hfirst : ∀ w, g (first w) = [x]) (hbody : ∀ w, g (body w) = []) {ws : List (Word N)}
    (hws : ws ≠ []) : (emitFirst first body ws).flatMap g = [x] := by
  cases ws with
  | nil => exact absurd rfl hws
  | cons w ws =>
    rw [emitFirst, List.flatMap_cons, hfirst, List.flatMap_map]
    simp only [hbody, List.flatMap_eq_nil_iff.mpr fun _ _ => rfl, List.append_nil]

theorem map_select {g : ο → List (Word N)} {p : Bool} (hbody : ∀ w, g (body w) = if p = true then [w] else [])
    (ws : List (Word N)) : (ws.map body).flatMap g = if p = true then ws else [] := by
  rw [List.flatMap_map]
  simp only [hbody]
  cases p with
  | true => simp only [if_true, List.flatMap_singleton']
  | false => simp

end

/-! ## `detect_eth_protocol` -/

def detectEthWrites (f : Framed 64) : List (DetectEthOut 64) :=
  emitFirst (fun w => { etherTypeFifo := [etherType f.bytes], dataOut := [w] }) (fun w => { dataOut := [w] }) f.words

theorem detectEth_body (s : HeaderReader 64 ETH_HEADER_SIZE) (w : Word 64) (rest : List (Word 64)) (hs : s.Busy) :
    ∃ t, detectEthProtocol s (w :: rest) = (t, rest, { dataOut := [w] }) ∧ (w.last = false → t.Busy) ∧
      (w.last = true → t.Idle) := by
  obtain ⟨hread, hmore, hend⟩ := hs.read (by decide) w
  exact ⟨_, by simp only [detectEthProtocol, hread, List.map_nil], hmore, hend⟩

theorem detectEth_frame (s : HeaderReader 64 ETH_HEADER_SIZE) (f : Framed 64) (fs : List (Framed 64)) (hs : s.Idle)
    (hlen : 14 ≤ f.bytes.length) :
    ∃ t, Runs detectEthProtocol s ((f :: fs).flatMap Framed.words) (detectEthWrites f) t (fs.flatMap Framed.words) ∧
      t.Idle := by
  obtain ⟨words, bytes, h⟩ := f
  cases words with
  | nil => exact absurd rfl h.ne_nil
  | cons w ws =>
    obtain ⟨hread, hmore, hend⟩ := HeaderReader.Idle.read (n := 14) hs (by decide) (by decide) h hlen
    have htype : (HeaderReader.read s w).2.map getEthertype = [etherType bytes] :=
      (congrArg (List.map getEthertype) hread).trans (congrArg (fun t => [t]) (getEthertype_headerOf bytes))
    refine Ends.runs_first (fun ws => ws) HeaderReader.Busy HeaderReader.Idle _ detectEth_body h.ends _ ?_ hmore hend
    simp only [detectEthProtocol, List.flatMap_cons, List.cons_append, htype]
    rfl

theorem detectEth_frames {s : HeaderReader 64 ETH_HEADER_SIZE} (hs : s.Idle) {fs : List (Framed 64)}
    (hlen : ∀ f ∈ fs, 14 ≤ f.bytes.length) :
    ∃ eo t, Runs detectEthProtocol s (fs.flatMap Framed.words) eo t [] ∧
      eo.flatMap (·.etherTypeFifo) = fs.map (fun f => etherType f.bytes) ∧
      eo.flatMap (·.dataOut) = fs.flatMap Framed.words := by
  obtain ⟨t, hrun, -⟩ := runs_each HeaderReader.Idle (fun f => 14 ≤ f.bytes.length) _ _ detectEth_frame fs hs hlen
  have htype : ∀ f, (detectEthWrites f).flatMap (·.etherTypeFifo) = [etherType f.bytes] := by
    intro f
    refine emitFirst_once ?_ ?_ f.packet.ne_nil <;> exact fun _ => rfl
  have hdata : ∀ f, (detectEthWrites f).flatMap (·.dataOut) = f.words := by
    intro f
    refine emitFirst_words ?_ ?_ f.words <;> exact fun _ => rfl
  refine ⟨_, t, hrun, ?_, flatMap_each hdata fs⟩
  rw [flatMap_each htype, List.map_eq_flatMap]

/-! ## `route_by_eth_protocol` -/

/-- The frames of one Ethernet protocol. -/
def ofType (type : BitVec 16) (fs : List (Framed 64)) : List (Framed 64) := fs.filter fun f => etherType f.bytes == type

def routeWrites (f : Framed 64) : List (RouteOut 64) := f.words.map (routeWord (etherType f.bytes) true)

theorem route_body (type : BitVec 16) (types : List (BitVec 16)) (s : Route) (w : Word 64) (rest : List (Word 64))
    (hs : s.repFsmState = true ∧ s.repEtherType = type) :
    ∃ t, routeByEthProtocol s ⟨types, w :: rest⟩ = (t, ⟨types, rest⟩, routeWord type true w) ∧
      (w.last = false → t.repFsmState = true ∧ t.repEtherType = type) ∧ (w.last = true → t.repFsmState = false) := by
  obtain ⟨st, et⟩ := s
  obtain ⟨rfl, rfl⟩ : st = true ∧ et = type := hs
  refine ⟨⟨!w.last, et⟩, rfl, ?_, ?_⟩
  · intro hlast
    exact ⟨by rw [hlast]; rfl, rfl⟩
  · intro hlast
    show (!w.last) = false
    rw [hlast]
    rfl

theorem route_frame (s : Route) (f : Framed 64) (fs : List (Framed 64)) (hs : s.repFsmState = false) (_ : True) :
    ∃ t, Runs routeByEthProtocol s ⟨(f :: fs).map (fun f => etherType f.bytes), (f :: fs).flatMap Framed.words⟩
      (routeWrites f) t ⟨fs.map (fun f => etherType f.bytes), fs.flatMap Framed.words⟩ ∧ t.repFsmState = false := by
  obtain ⟨words, bytes, h⟩ := f
  cases words with
  | nil => exact absurd rfl h.ne_nil
  | cons w ws =>
    let types := fs.map fun f => etherType f.bytes
    let t : Route := { repFsmState := !w.last, repEtherType := etherType bytes }
    have hcall : routeByEthProtocol s ⟨etherType bytes :: types, w :: (ws ++ fs.flatMap Framed.words)⟩ =
        (t, ⟨types, ws ++ fs.flatMap Framed.words⟩, routeWord (etherType bytes) true w) := by
      obtain ⟨st, et⟩ := s
      cases hs
      rfl
    refine Ends.runs_first (fun ws => (⟨types, ws⟩ : RouteIn 64))
      (fun s : Route => s.repFsmState = true ∧ s.repEtherType = etherType bytes)
      (fun s : Route => s.repFsmState = false) _ (route_body (etherType bytes) types) h.ends _ hcall ?_ ?_
    · intro hlast
      exact ⟨by simp [t, hlast], rfl⟩
    · intro hlast
      simp [t, hlast]

-- a word goes to one output at most
theorem routeWord_arp (type : BitVec 16) (w : Word 64) :
    (routeWord type true w).arpDataOut = if (type == ARP) = true then [w] else [] := by
  unfold routeWord
  split
  · next h =>
      rw [h]
      rfl
  · next h =>
      rw [if_neg fun heq => h (beq_iff_eq.mp heq)]
      split
      · rfl
      · split <;> rfl

theorem routeWord_ipv4 (type : BitVec 16) (w : Word 64) :
    (routeWord type true w).ipDataOut = if (type == IPv4) = true then [w] else [] := by
  unfold routeWord
  split
  · next h =>
      rw [h]
      rfl
  · split
    · next h =>
        rw [h.1]
        rfl
    · next h =>
        rw [if_neg fun heq => h ⟨beq_iff_eq.mp heq, rfl⟩]
        split <;> rfl

theorem routeWord_ipv6 (type : BitVec 16) (w : Word 64) :
    (routeWord type true w).ipv6DataOut = if (type == IPv6) = true then [w] else [] := by
  unfold routeWord
  split
  · next h =>
      rw [h]
      rfl
  · split
    · next h =>
        rw [h.1]
        rfl
    · split
      · next h =>
          rw [h.1]
          rfl
      · next h => rw [if_neg fun heq => h ⟨beq_iff_eq.mp heq, rfl⟩]

theorem route_frames {s : Route} (hs : s.repFsmState = false) (fs : List (Framed 64)) :
    ∃ ro t, Runs routeByEthProtocol s ⟨fs.map (fun f => etherType f.bytes), fs.flatMap Framed.words⟩ ro t ⟨[], []⟩ ∧
      t.repFsmState = false ∧
      ro.flatMap (·.arpDataOut) = (ofType ARP fs).flatMap Framed.words ∧
      ro.flatMap (·.ipDataOut) = (ofType IPv4 fs).flatMap Framed.words ∧
      ro.flatMap (·.ipv6DataOut) = (ofType IPv6 fs).flatMap Framed.words := by
  obtain ⟨t, hrun, ht⟩ := runs_each (f := routeByEthProtocol) (fun s => s.repFsmState = false) (fun _ => True)
    (fun fs : List (Framed 64) => (⟨fs.map (fun f => etherType f.bytes), fs.flatMap Framed.words⟩ : RouteIn 64))
    routeWrites (by exact route_frame) fs hs (fun _ _ => trivial)
  have harp : ∀ f : Framed 64, (routeWrites f).flatMap (·.arpDataOut) =
      if (etherType f.bytes == ARP) = true then f.words else [] := fun f => map_select (routeWord_arp _) f.words
  have hip : ∀ f : Framed 64, (routeWrites f).flatMap (·.ipDataOut) =
      if (etherType f.bytes == IPv4) = true then f.words else [] := fun f => map_select (routeWord_ipv4 _) f.words
  have hipv6 : ∀ f : Framed 64, (routeWrites f).flatMap (·.ipv6DataOut) =
      if (etherType f.bytes == IPv6) = true then f.words else [] := fun f => map_select (routeWord_ipv6 _) f.words
  refine ⟨_, t, hrun, ht, ?_, ?_, ?_⟩
  · rw [flatMap_each harp, flatMap_if]
    rfl
  · rw [flatMap_each hip, flatMap_if]
    rfl
  · rw [flatMap_each hipv6, flatMap_if]
    rfl

/-! ## `extract_ip_meta` -/

def extractWrites (myIpAddress : BitVec 32) (p : Framed 64) : List (ExtractOut 64) :=
  emitFirst (fun w =>
      { dataOut := [w], ipv4Protocol := [protocol p.bytes], validIpAddressFifo := [addressOk myIpAddress p.bytes] })
    (fun w => { dataOut := [w] }) p.words

theorem extract_body (myIpAddress : BitVec 32) (s : HeaderReader 64 IPV4_HEADER_SIZE) (w : Word 64)
    (rest : List (Word 64)) (hs : s.Busy) :
    ∃ t, extractIpMeta myIpAddress s (w :: rest) = (t, rest, { dataOut := [w] }) ∧ (w.last = false → t.Busy) ∧
      (w.last = true → t.Idle) := by
  obtain ⟨hread, hmore, hend⟩ := hs.read (by decide) w
  exact ⟨_, by simp only [extractIpMeta, hread, List.map_nil], hmore, hend⟩

theorem extract_packet (myIpAddress : BitVec 32) (s : HeaderReader 64 IPV4_HEADER_SIZE) (p : Framed 64)
    (ps : List (Framed 64)) (hs : s.Idle) (hlen : 20 ≤ p.bytes.length) :
    ∃ t, Runs (extractIpMeta myIpAddress) s ((p :: ps).flatMap Framed.words) (extractWrites myIpAddress p) t
      (ps.flatMap Framed.words) ∧ t.Idle := by
  obtain ⟨words, bytes, h⟩ := p
  cases words with
  | nil => exact absurd rfl h.ne_nil
  | cons w ws =>
    obtain ⟨hread, hmore, hend⟩ := HeaderReader.Idle.read (n := 20) hs (by decide) (by decide) h hlen
    have hprotocol : (HeaderReader.read s w).2.map getProtocol = [protocol bytes] :=
      (congrArg (List.map getProtocol) hread).trans (congrArg (fun t => [t]) (getProtocol_headerOf bytes))
    have hvalid : (HeaderReader.read s w).2.map (validIpAddress myIpAddress) = [addressOk myIpAddress bytes] :=
      (congrArg (List.map (validIpAddress myIpAddress)) hread).trans
        (congrArg (fun t => [t]) (validIpAddress_headerOf myIpAddress bytes))
    refine Ends.runs_first (fun ws => ws) HeaderReader.Busy HeaderReader.Idle _ (extract_body myIpAddress) h.ends _ ?_
      hmore hend
    simp only [extractIpMeta, List.flatMap_cons, List.cons_append, hprotocol, hvalid]
    rfl

variable {ps : List (Framed 64)}

theorem extract_packets (myIpAddress : BitVec 32) {s : HeaderReader 64 IPV4_HEADER_SIZE} (hs : s.Idle)
    (hlen : ∀ p ∈ ps, 20 ≤ p.bytes.length) :
    ∃ xo t, Runs (extractIpMeta myIpAddress) s (ps.flatMap Framed.words) xo t [] ∧
      xo.flatMap (·.dataOut) = ps.flatMap Framed.words ∧
      xo.flatMap (·.ipv4Protocol) = ps.map (fun p => protocol p.bytes) ∧
      xo.flatMap (·.validIpAddressFifo) = ps.map (fun p => addressOk myIpAddress p.bytes) := by
  obtain ⟨t, hrun, -⟩ := runs_each HeaderReader.Idle (fun p => 20 ≤ p.bytes.length) _ _ (extract_packet myIpAddress) ps
    hs hlen
  have hdata : ∀ p, (extractWrites myIpAddress p).flatMap (·.dataOut) = p.words := by
    intro p
    refine emitFirst_words ?_ ?_ p.words <;> exact fun _ => rfl
  have hprotocol : ∀ p, (extractWrites myIpAddress p).flatMap (·.ipv4Protocol) = [protocol p.bytes] := by
    intro p
    refine emitFirst_once ?_ ?_ p.packet.ne_nil <;> exact fun _ => rfl
  have hvalid : ∀ p, (extractWrites myIpAddress p).flatMap (·.validIpAddressFifo) = [addressOk myIpAddress p.bytes] := by
    intro p
    refine emitFirst_once ?_ ?_ p.packet.ne_nil <;> exact fun _ => rfl
  refine ⟨_, t, hrun, flatMap_each hdata ps, ?_, ?_⟩
  · rw [flatMap_each hprotocol, List.map_eq_flatMap]
  · rw [flatMap_each hvalid, List.map_eq_flatMap]

/-! ## The checksum -/

/-- Waiting for a packet. -/
structure ComputeChecksum.Idle (s : ComputeChecksum) : Prop where
  ipSums : s.ipSums = List.replicate 32 0
  firstWord : s.firstWord = true

def subSumsOf (p : Framed 64) : SubSums :=
  match p.words with
  | [] => []
  | w :: _ => addHeader (List.replicate 32 0) (w.data.extractLsb' 0 4) w.data

def computeWrites (p : Framed 64) : List ComputeOut :=
  emitFirst (fun w => { dataOut := [w], subSumFifoOut := [subSumsOf p] }) (fun w => { dataOut := [w] }) p.words

theorem compute_body (s : ComputeChecksum) (w : Word 64) (rest : List (Word 64)) (hs : s.firstWord = false) :
    ∃ t, computeIpv4Checksum s (w :: rest) = (t, rest, { dataOut := [w] }) ∧
      (w.last = false → t.firstWord = false) ∧ (w.last = true → t.Idle) := by
  refine ⟨{ ipSums := if w.last then List.replicate 32 0 else s.ipSums, ipHeaderLen := s.ipHeaderLen
            firstWord := w.last }, ?_, fun hlast => hlast, ?_⟩
  · simp [computeIpv4Checksum, hs]
  · intro hlast
    exact ⟨if_pos hlast, hlast⟩

theorem compute_packet (s : ComputeChecksum) (p : Framed 64) (ps : List (Framed 64)) (hs : s.Idle) (_ : True) :
    ∃ t, Runs computeIpv4Checksum s ((p :: ps).flatMap Framed.words) (computeWrites p) t (ps.flatMap Framed.words) ∧
      t.Idle := by
  obtain ⟨words, bytes, h⟩ := p
  cases words with
  | nil => exact absurd rfl h.ne_nil
  | cons w ws =>
    let sums := addHeader (List.replicate 32 0) (w.data.extractLsb' 0 4) w.data
    let t : ComputeChecksum :=
      { ipSums := if w.last then List.replicate 32 0 else sums, ipHeaderLen := w.data.extractLsb' 0 4
        firstWord := w.last }
    have hcall : computeIpv4Checksum s (w :: (ws ++ ps.flatMap Framed.words)) =
        (t, ws ++ ps.flatMap Framed.words, { dataOut := [w], subSumFifoOut := [sums] }) := by
      simp [computeIpv4Checksum, hs.ipSums, hs.firstWord, t, sums]
    refine Ends.runs_first (fun ws => ws) (fun s : ComputeChecksum => s.firstWord = false) ComputeChecksum.Idle _
      compute_body h.ends _ hcall (fun hlast => hlast) ?_
    intro hlast
    exact ⟨if_pos hlast, hlast⟩

theorem compute_packets {s : ComputeChecksum} (hs : s.Idle) (ps : List (Framed 64)) :
    ∃ co t, Runs computeIpv4Checksum s (ps.flatMap Framed.words) co t [] ∧
      co.flatMap (·.dataOut) = ps.flatMap Framed.words ∧ co.flatMap (·.subSumFifoOut) = ps.map subSumsOf := by
  obtain ⟨t, hrun, -⟩ := runs_each ComputeChecksum.Idle (fun _ => True) _ _ compute_packet ps hs (fun _ _ => trivial)
  have hdata : ∀ p, (computeWrites p).flatMap (·.dataOut) = p.words := by
    intro p
    refine emitFirst_words ?_ ?_ p.words <;> exact fun _ => rfl
  have hsums : ∀ p, (computeWrites p).flatMap (·.subSumFifoOut) = [subSumsOf p] := by
    intro p
    refine emitFirst_once ?_ ?_ p.packet.ne_nil <;> exact fun _ => rfl
  refine ⟨_, t, hrun, flatMap_each hdata ps, ?_⟩
  rw [flatMap_each hsums, List.map_eq_flatMap]

/-- The header is in the packet. -/
structure HasHeader (ip : List (BitVec 8)) : Prop where
  fixed : 20 ≤ ip.length
  full : 2 * headerHalfwords ip ≤ ip.length

theorem checksumValid_subSumsOf {p : Framed 64} (h : HasHeader p.bytes) :
    checksumValid (subSumsOf p) = checksumOk p.bytes := by
  obtain ⟨words, bytes, hpacket⟩ := p
  cases words with
  | nil => exact absurd rfl hpacket.ne_nil
  | cons w ws => exact checksumValid_packet hpacket (Nat.lt_of_lt_of_le (by decide) h.fixed) h.full

-- one verdict for each packet
theorem check_packets (h : ∀ p ∈ ps, HasHeader p.bytes) :
    ∃ ko, Runs checkProc () (ps.map subSumsOf) ko () [] ∧ ko.flatten = ps.map (fun p => checksumOk p.bytes) := by
  induction ps with
  | nil => exact ⟨[], .refl _ _, rfl⟩
  | cons p ps ih =>
    obtain ⟨hp, hps⟩ := List.forall_mem_cons.mp h
    obtain ⟨ko, hrun, hko⟩ := ih hps
    refine ⟨_, .call rfl hrun, ?_⟩
    rw [List.flatten_cons, hko, List.map_cons, ← checksumValid_subSumsOf hp]
    rfl

/-! ## `ip_invalid_dropper` -/

section

variable (myIpAddress : BitVec 32)

def passed (ps : List (Framed 64)) : List (Framed 64) := ps.filter fun p => accepted myIpAddress p.bytes

def dropperWord (valid : Bool) (w : Word 64) : DropperOut 64 := if valid then { dataOut := [w] } else {}

def dropperWrites (p : Framed 64) : List (DropperOut 64) :=
  { ipv4ValidFifoOut := [accepted myIpAddress p.bytes] } :: p.words.map (dropperWord (accepted myIpAddress p.bytes))

/-- The state in which a packet is forwarded or dropped. -/
def dropperState (valid : Bool) : DropperState := if valid then .FWD else .DROP

theorem dropper_body (checksums addresses : List Bool) (valid : Bool) (s : DropperState) (w : Word 64)
    (rest : List (Word 64)) (hs : s = dropperState valid) :
    ∃ t, ipInvalidDropper s ⟨w :: rest, checksums, addresses⟩ = (t, ⟨rest, checksums, addresses⟩, dropperWord valid w) ∧
      (w.last = false → t = dropperState valid) ∧ (w.last = true → t = .GET_VALID) := by
  subst hs
  refine ⟨if w.last then .GET_VALID else dropperState valid, ?_, ?_, ?_⟩
  · cases valid <;> rfl
  · intro hlast
    rw [hlast]
    rfl
  · intro hlast
    rw [hlast]
    rfl

/-- The three queues of the dropper. -/
def dropperInput (ps : List (Framed 64)) : DropperIn 64 :=
  ⟨ps.flatMap Framed.words, ps.map (fun p => checksumOk p.bytes), ps.map (fun p => addressOk myIpAddress p.bytes)⟩

theorem dropper_packet (s : DropperState) (p : Framed 64) (ps : List (Framed 64)) (hs : s = .GET_VALID) (_ : True) :
    ∃ t, Runs ipInvalidDropper s (dropperInput myIpAddress (p :: ps)) (dropperWrites myIpAddress p) t
      (dropperInput myIpAddress ps) ∧ t = .GET_VALID := by
  subst hs
  let checksums := ps.map fun p => checksumOk p.bytes
  let addresses := ps.map fun p => addressOk myIpAddress p.bytes
  have hcall : ipInvalidDropper .GET_VALID (dropperInput myIpAddress (p :: ps)) =
      (dropperState (accepted myIpAddress p.bytes), ⟨p.words ++ ps.flatMap Framed.words, checksums, addresses⟩,
        { ipv4ValidFifoOut := [accepted myIpAddress p.bytes] }) := rfl
  obtain ⟨t, hrun, ht⟩ := p.packet.ends.runs_body (fun ws => (⟨ws, checksums, addresses⟩ : DropperIn 64))
    (fun s => s = dropperState (accepted myIpAddress p.bytes)) (fun s => s = .GET_VALID) _
    (dropper_body checksums addresses (accepted myIpAddress p.bytes)) (ps.flatMap Framed.words) rfl
  exact ⟨t, .call hcall hrun, ht⟩

/-- A verdict for each packet, and the words of those that are let through. -/
theorem dropper_packets (ps : List (Framed 64)) :
    ∃ po, Runs ipInvalidDropper .GET_VALID (dropperInput myIpAddress ps) po .GET_VALID ⟨[], [], []⟩ ∧
      po.flatMap (·.dataOut) = (passed myIpAddress ps).flatMap Framed.words ∧
      po.flatMap (·.ipv4ValidFifoOut) = ps.map (fun p => accepted myIpAddress p.bytes) := by
  obtain ⟨t, hrun, ht⟩ := runs_each (f := ipInvalidDropper) (fun s => s = .GET_VALID) (fun _ => True)
    (dropperInput myIpAddress) (dropperWrites myIpAddress) (dropper_packet myIpAddress) ps rfl (fun _ _ => trivial)
  subst ht
  have hdata : ∀ p, (dropperWrites myIpAddress p).flatMap (·.dataOut) =
      if accepted myIpAddress p.bytes = true then p.words else [] := by
    intro p
    rw [dropperWrites, List.flatMap_cons, List.nil_append]
    refine map_select ?_ p.words
    intro w
    unfold dropperWord
    split <;> rfl
  have hvalid : ∀ p, (dropperWrites myIpAddress p).flatMap (·.ipv4ValidFifoOut) = [accepted myIpAddress p.bytes] := by
    intro p
    have hnone : (p.words.map (dropperWord (accepted myIpAddress p.bytes))).flatMap (·.ipv4ValidFifoOut) = [] := by
      rw [List.flatMap_map, List.flatMap_eq_nil_iff]
      intro w _
      unfold dropperWord
      split <;> rfl
    rw [dropperWrites, List.flatMap_cons, hnone, List.append_nil]
  refine ⟨_, hrun, ?_, ?_⟩
  · rw [flatMap_each hdata, flatMap_if]
    rfl
  · rw [flatMap_each hvalid, List.map_eq_flatMap]

end

/-! ## `cut_length` -/

/-- The words of a packet after `cut_length`. -/
def cutWords : List (Word 64) → List (Word 64)
  | [] => []
  | w :: ws => cutFirst w :: ws

theorem cutFirst_last (w : Word 64) : (cutFirst w).last = w.last := by
  unfold cutFirst
  split <;> rfl

theorem cutWords_ends {ws : List (Word 64)} (h : Ends ws) : Ends (cutWords ws) := by
  cases h with
  | @last w hlast => exact .last ((cutFirst_last w).trans hlast)
  | @cons w ws hlast h => exact .cons ((cutFirst_last w).trans hlast) h

theorem cut_body (s : CutState) (w : Word 64) (rest : List (Word 64)) (hs : s = .REST) :
    ∃ t, cutLength s (w :: rest) = (t, rest, [w]) ∧ (w.last = false → t = .REST) ∧ (w.last = true → t = .FIRST) := by
  subst hs
  refine ⟨if w.last then .FIRST else .REST, rfl, ?_, ?_⟩
  · intro hlast
    rw [hlast]
    rfl
  · intro hlast
    rw [hlast]
    rfl

theorem cut_packet (s : CutState) (p : Framed 64) (ps : List (Framed 64)) (hs : s = .FIRST) (_ : True) :
    ∃ t, Runs cutLength s ((p :: ps).flatMap Framed.words) ((cutWords p.words).map fun w => [w]) t
      (ps.flatMap Framed.words) ∧ t = .FIRST := by
  subst hs
  obtain ⟨words, bytes, h⟩ := p
  cases words with
  | nil => exact absurd rfl h.ne_nil
  | cons w ws =>
    refine Ends.runs_first (fun ws => ws) (fun s => s = CutState.REST) (fun s => s = .FIRST) (fun w => [w]) cut_body
      h.ends (ps.flatMap Framed.words) (i := w :: (ws ++ ps.flatMap Framed.words))
      (t := if w.last then .FIRST else .REST) rfl ?_ ?_
    · intro hlast
      rw [hlast]
      rfl
    · intro hlast
      rw [hlast]
      rfl

theorem cut_packets (ps : List (Framed 64)) :
    ∃ uo, Runs cutLength .FIRST (ps.flatMap Framed.words) uo .FIRST [] ∧
      uo.flatten = ps.flatMap (fun p => cutWords p.words) := by
  obtain ⟨t, hrun, ht⟩ := runs_each (f := cutLength) (fun s => s = .FIRST) (fun _ => True) _ _ cut_packet ps rfl
    (fun _ _ => trivial)
  subst ht
  exact ⟨_, hrun, flatten_each (fun p => Axi.flatten_singletons (cutWords p.words)) ps⟩

/-! ## `detect_ipv4_protocol` -/

theorem selectIpv4_icmp (pr : BitVec 8) (w : Word 64) :
    (selectIpv4 pr w).icmpDataOut = if (pr == ICMP) = true then [w] else [] := by
  unfold selectIpv4
  split
  · next h =>
      rw [h]
      rfl
  · next h =>
      rw [if_neg fun heq => h (beq_iff_eq.mp heq)]
      split
      · rfl
      · split <;> rfl

theorem selectIpv4_udp (pr : BitVec 8) (w : Word 64) :
    (selectIpv4 pr w).udpDataOut = if (pr == UDP) = true then [w] else [] := by
  unfold selectIpv4
  split
  · next h =>
      rw [h]
      rfl
  · split
    · next h =>
        rw [h]
        rfl
    · next h =>
        rw [if_neg fun heq => h (beq_iff_eq.mp heq)]
        split <;> rfl

theorem selectIpv4_tcp (pr : BitVec 8) (w : Word 64) :
    (selectIpv4 pr w).tcpDataOut = if (pr == TCP) = true then [w] else [] := by
  unfold selectIpv4
  split
  · next h =>
      rw [h]
      rfl
  · split
    · next h =>
        rw [h]
        rfl
    · split
      · next h =>
          rw [h]
          rfl
      · next h => rw [if_neg fun heq => h (beq_iff_eq.mp heq)]

section

variable (myIpAddress : BitVec 32)

/-- The packet is let through to one protocol. -/
def goesTo (pr : BitVec 8) (ip : List (BitVec 8)) : Bool := accepted myIpAddress ip && protocol ip == pr

def detect4Writes (p : Framed 64) : List (Detect4Out 64) :=
  {} :: if accepted myIpAddress p.bytes = true then (cutWords p.words).map (selectIpv4 (protocol p.bytes)) else []

/-- The three queues of `detect_ipv4_protocol`: the data is only there for the packets that were let through. -/
def detect4Input (ps : List (Framed 64)) : Detect4In 64 :=
  ⟨ps.map (fun p => protocol p.bytes), ps.map (fun p => accepted myIpAddress p.bytes),
    (passed myIpAddress ps).flatMap fun p => cutWords p.words⟩

theorem detect4_body (protocols : List (BitVec 8)) (valids : List Bool) (pr : BitVec 8) (s : Detect4) (w : Word 64)
    (rest : List (Word 64)) (hs : s = ⟨.PKG, pr⟩) :
    ∃ t, detectIpv4Protocol s ⟨protocols, valids, w :: rest⟩ = (t, ⟨protocols, valids, rest⟩, selectIpv4 pr w) ∧
      (w.last = false → t = ⟨.PKG, pr⟩) ∧ (w.last = true → t.dipState = .META) := by
  subst hs
  refine ⟨⟨if w.last then .META else .PKG, pr⟩, rfl, ?_, ?_⟩
  · intro hlast
    rw [hlast]
    rfl
  · intro hlast
    exact if_pos hlast

theorem detect4_packet (s : Detect4) (p : Framed 64) (ps : List (Framed 64)) (hs : s.dipState = .META) (_ : True) :
    ∃ t, Runs detectIpv4Protocol s (detect4Input myIpAddress (p :: ps)) (detect4Writes myIpAddress p) t
      (detect4Input myIpAddress ps) ∧ t.dipState = .META := by
  let protocols := ps.map fun p => protocol p.bytes
  let valids := ps.map fun p => accepted myIpAddress p.bytes
  let data := (passed myIpAddress ps).flatMap fun p => cutWords p.words
  cases hvalid : accepted myIpAddress p.bytes with
  | true =>
    have hinput : detect4Input myIpAddress (p :: ps) =
        ⟨protocol p.bytes :: protocols, true :: valids, cutWords p.words ++ data⟩ := by
      simp [detect4Input, passed, hvalid, protocols, valids, data]
    have hcall : detectIpv4Protocol s (detect4Input myIpAddress (p :: ps)) =
        (⟨.PKG, protocol p.bytes⟩, ⟨protocols, valids, cutWords p.words ++ data⟩, {}) := by
      rw [hinput]
      simp [detectIpv4Protocol, hs]
    obtain ⟨t, hrun, ht⟩ := (cutWords_ends p.packet.ends).runs_body
      (fun ws => (⟨protocols, valids, ws⟩ : Detect4In 64)) (fun s : Detect4 => s = ⟨.PKG, protocol p.bytes⟩)
      (fun s : Detect4 => s.dipState = .META) _ (detect4_body protocols valids (protocol p.bytes)) data rfl
    rw [detect4Writes, if_pos hvalid]
    exact ⟨t, .call hcall hrun, ht⟩
  | false =>
    have hinput : detect4Input myIpAddress (p :: ps) = ⟨protocol p.bytes :: protocols, false :: valids, data⟩ := by
      simp [detect4Input, passed, hvalid, protocols, valids, data]
    have hcall : detectIpv4Protocol s (detect4Input myIpAddress (p :: ps)) =
        (⟨.META, protocol p.bytes⟩, ⟨protocols, valids, data⟩, {}) := by
      rw [hinput]
      simp [detectIpv4Protocol, hs]
    rw [detect4Writes, if_neg (by rw [hvalid]; exact Bool.false_ne_true)]
    exact ⟨_, .one hcall, rfl⟩

theorem detect4_output {g : Detect4Out 64 → List (Word 64)} {pr : BitVec 8} (hnone : g {} = [])
    (hg : ∀ q w, g (selectIpv4 q w) = if (q == pr) = true then [w] else []) (ps : List (Framed 64)) :
    (ps.flatMap (detect4Writes myIpAddress)).flatMap g =
      (ps.filter fun p => goesTo myIpAddress pr p.bytes).flatMap fun p => cutWords p.words := by
  have hone : ∀ p : Framed 64, (detect4Writes myIpAddress p).flatMap g =
      if goesTo myIpAddress pr p.bytes = true then cutWords p.words else [] := by
    intro p
    rw [detect4Writes, List.flatMap_cons, hnone, List.nil_append]
    by_cases hvalid : accepted myIpAddress p.bytes = true
    · rw [if_pos hvalid, map_select (hg (protocol p.bytes)), goesTo, hvalid, Bool.true_and]
    · rw [if_neg hvalid, goesTo, Bool.eq_false_iff.mpr hvalid, Bool.false_and, if_neg Bool.false_ne_true]
      rfl
  rw [flatMap_each hone, flatMap_if]

theorem detect4_packets {s : Detect4} (hs : s.dipState = .META) (ps : List (Framed 64)) :
    ∃ do4 t, Runs detectIpv4Protocol s (detect4Input myIpAddress ps) do4 t ⟨[], [], []⟩ ∧ t.dipState = .META ∧
      do4.flatMap (·.icmpDataOut) =
        (ps.filter fun p => goesTo myIpAddress ICMP p.bytes).flatMap (fun p => cutWords p.words) ∧
      do4.flatMap (·.udpDataOut) =
        (ps.filter fun p => goesTo myIpAddress UDP p.bytes).flatMap (fun p => cutWords p.words) ∧
      do4.flatMap (·.tcpDataOut) =
        (ps.filter fun p => goesTo myIpAddress TCP p.bytes).flatMap (fun p => cutWords p.words) := by
  obtain ⟨t, hrun, ht⟩ := runs_each (f := detectIpv4Protocol) (fun s => s.dipState = .META) (fun _ => True)
    (detect4Input myIpAddress) (detect4Writes myIpAddress) (detect4_packet myIpAddress) ps hs (fun _ _ => trivial)
  exact ⟨_, t, hrun, ht, detect4_output myIpAddress rfl selectIpv4_icmp ps,
    detect4_output myIpAddress rfl selectIpv4_udp ps, detect4_output myIpAddress rfl selectIpv4_tcp ps⟩

end

/-! ## `detect_ipv6_protocol` and the copy for RoCE -/

/-- The next header of an IPv6 packet. -/
def nextHeader (ip : List (BitVec 8)) : BitVec 8 := ip.getD 6 0

theorem selectIpv6_icmpv6 (next : BitVec 8) (w : Word 64) :
    (selectIpv6 next w).icmpv6DataOut = if (next == ICMPv6) = true then [w] else [] := by
  unfold selectIpv6
  split
  · next h =>
      rw [h]
      rfl
  · next h =>
      rw [if_neg fun heq => h (beq_iff_eq.mp heq)]
      split <;> rfl

theorem selectIpv6_udp (next : BitVec 8) (w : Word 64) :
    (selectIpv6 next w).ipv6UdpDataOut = if (next == UDP) = true then [w] else [] := by
  unfold selectIpv6
  split
  · next h =>
      rw [h]
      rfl
  · split
    · next h =>
        rw [h]
        rfl
    · next h => rw [if_neg fun heq => h (beq_iff_eq.mp heq)]

theorem detect6_body (next : BitVec 8) (s : Detect6) (w : Word 64) (rest : List (Word 64)) (hs : s = ⟨true, next⟩) :
    ∃ t, detectIpv6Protocol s (w :: rest) = (t, rest, selectIpv6 next w) ∧ (w.last = false → t = ⟨true, next⟩) ∧
      (w.last = true → t.state = false) := by
  subst hs
  refine ⟨⟨!w.last, next⟩, rfl, ?_, ?_⟩
  · intro hlast
    rw [hlast]
    rfl
  · intro hlast
    show (!w.last) = false
    rw [hlast]
    rfl

theorem detect6_packet (s : Detect6) (p : Framed 64) (ps : List (Framed 64)) (hs : s.state = false)
    (hlen : 20 ≤ p.bytes.length) :
    ∃ t, Runs detectIpv6Protocol s ((p :: ps).flatMap Framed.words)
      (p.words.map (selectIpv6 (nextHeader p.bytes))) t (ps.flatMap Framed.words) ∧ t.state = false := by
  obtain ⟨words, bytes, h⟩ := p
  cases words with
  | nil => exact absurd rfl h.ne_nil
  | cons w ws =>
    have hnext : w.data.extractLsb' 48 8 = nextHeader bytes :=
      h.first_octet (k := 6) (by decide) (Nat.lt_of_lt_of_le (by decide) hlen)
    have hcall : detectIpv6Protocol s (w :: (ws ++ ps.flatMap Framed.words)) =
        (⟨!w.last, nextHeader bytes⟩, ws ++ ps.flatMap Framed.words, selectIpv6 (nextHeader bytes) w) := by
      simp [detectIpv6Protocol, hs, hnext]
    refine Ends.runs_first (fun ws => ws) (fun s : Detect6 => s = ⟨true, nextHeader bytes⟩)
      (fun s : Detect6 => s.state = false) _ (detect6_body (nextHeader bytes)) h.ends _ hcall ?_ ?_
    · intro hlast
      rw [hlast]
      rfl
    · intro hlast
      show (!w.last) = false
      rw [hlast]
      rfl

theorem detect6_packets {s : Detect6} (hs : s.state = false)
    (hlen : ∀ p ∈ ps, 20 ≤ p.bytes.length) :
    ∃ do6 t, Runs detectIpv6Protocol s (ps.flatMap Framed.words) do6 t [] ∧
      do6.flatMap (·.icmpv6DataOut) = (ps.filter fun p => nextHeader p.bytes == ICMPv6).flatMap Framed.words ∧
      do6.flatMap (·.ipv6UdpDataOut) = (ps.filter fun p => nextHeader p.bytes == UDP).flatMap Framed.words := by
  obtain ⟨t, hrun, -⟩ := runs_each (f := detectIpv6Protocol) (fun s => s.state = false)
    (fun p => 20 ≤ p.bytes.length) _ _ detect6_packet ps hs hlen
  have hicmp : ∀ p : Framed 64, (p.words.map (selectIpv6 (nextHeader p.bytes))).flatMap (·.icmpv6DataOut) =
      if (nextHeader p.bytes == ICMPv6) = true then p.words else [] := fun p => map_select (selectIpv6_icmpv6 _) p.words
  have hudp : ∀ p : Framed 64, (p.words.map (selectIpv6 (nextHeader p.bytes))).flatMap (·.ipv6UdpDataOut) =
      if (nextHeader p.bytes == UDP) = true then p.words else [] := fun p => map_select (selectIpv6_udp _) p.words
  refine ⟨_, t, hrun, ?_, ?_⟩
  · rw [flatMap_each hicmp, flatMap_if]
  · rw [flatMap_each hudp, flatMap_if]

theorem duplicate_words (ws : List (Word 64)) : Runs duplicateProc () ws (ws.map fun w => [w]) () [] := by
  induction ws with
  | nil => exact .refl _ _
  | cons w ws ih => exact .call rfl ih

end FpgaNetworkStack.IpHandler
