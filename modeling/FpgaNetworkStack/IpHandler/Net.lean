import FpgaNetworkStack.IpHandler.Engine

/-!
# `ip_handler_core`

Twelve processes and the queues between them.  Each process may be called at any time; in whatever order they are
called, the system comes to rest in one state.
-/

namespace FpgaNetworkStack.IpHandler

open Lib
open Axi (Word RShift rshiftWordByOctet rshift_waits)

/-- The bytes of the Ethernet header that do not fill a word. -/
def shiftOffset : Nat := (ETH_HEADER_SIZE % 512) / 8

structure IpNet where
  sAxisRaw : List (Word 64)
  detectEth : HeaderReader 64 ETH_HEADER_SIZE := {}
  route : Route := {}
  shift4 : RShift 64 := .init shiftOffset
  shift6 : RShift 64 := .init shiftOffset
  extract : HeaderReader 64 IPV4_HEADER_SIZE := {}
  compute : ComputeChecksum := {}
  dropper : DropperState := .GET_VALID
  cut : CutState := .FIRST
  detect4 : Detect4 := {}
  detect6 : Detect6 := {}
  etherTypeFifo : List (BitVec 16) := []
  ethDataFifo : List (Word 64) := []
  ipv4ShiftFifo : List (Word 64) := []
  ipv6ShiftFifo : List (Word 64) := []
  ipDataFifo : List (Word 64) := []
  ipv6DataFifo : List (Word 64) := []
  ipDataMetaFifo : List (Word 64) := []
  ipv4ProtocolFifo : List (BitVec 8) := []
  validIpAddressFifo : List Bool := []
  ipDataCheckFifo : List (Word 64) := []
  subSumsFifo : List SubSums := []
  validChecksumFifo : List Bool := []
  ipDataDropFifo : List (Word 64) := []
  ipv4ValidFifo : List Bool := []
  ipDataCutFifo : List (Word 64) := []
  udpDataFifo : List (Word 64) := []
  mAxisArp : List (Word 64) := []
  mAxisIcmpv6 : List (Word 64) := []
  mAxisIpv6Udp : List (Word 64) := []
  mAxisIcmp : List (Word 64) := []
  mAxisUdp : List (Word 64) := []
  mAxisTcp : List (Word 64) := []
  mAxisRoce : List (Word 64) := []

inductive Proc where
  | detectEth | route | shift4 | shift6 | extract | compute | check | dropper | cut | detect4 | detect6 | duplicate

/-- The processes without static variables. -/
def checkProc (_ : Unit) (i : List SubSums) : Unit × List SubSums × List Bool := ((), checkIpv4Checksum i)

def duplicateProc (_ : Unit) (i : List (Word 64)) : Unit × List (Word 64) × List (Word 64) := ((), duplicateStream i)

def IpNet.call (myIpAddress : BitVec 32) (n : IpNet) : Proc → IpNet
  | .detectEth =>
    let r := detectEthProtocol n.detectEth n.sAxisRaw
    { n with
      detectEth := r.1
      sAxisRaw := r.2.1
      etherTypeFifo := n.etherTypeFifo ++ r.2.2.etherTypeFifo
      ethDataFifo := n.ethDataFifo ++ r.2.2.dataOut }
  | .route =>
    let r := routeByEthProtocol n.route ⟨n.etherTypeFifo, n.ethDataFifo⟩
    { n with
      route := r.1
      etherTypeFifo := r.2.1.etherTypeFifoIn
      ethDataFifo := r.2.1.dataIn
      mAxisArp := n.mAxisArp ++ r.2.2.arpDataOut
      ipv4ShiftFifo := n.ipv4ShiftFifo ++ r.2.2.ipDataOut
      ipv6ShiftFifo := n.ipv6ShiftFifo ++ r.2.2.ipv6DataOut }
  | .shift4 =>
    let r := rshiftWordByOctet shiftOffset n.shift4 n.ipv4ShiftFifo
    { n with shift4 := r.1, ipv4ShiftFifo := r.2.1, ipDataFifo := n.ipDataFifo ++ r.2.2 }
  | .shift6 =>
    let r := rshiftWordByOctet shiftOffset n.shift6 n.ipv6ShiftFifo
    { n with shift6 := r.1, ipv6ShiftFifo := r.2.1, ipv6DataFifo := n.ipv6DataFifo ++ r.2.2 }
  | .extract =>
    let r := extractIpMeta myIpAddress n.extract n.ipDataFifo
    { n with
      extract := r.1
      ipDataFifo := r.2.1
      ipDataMetaFifo := n.ipDataMetaFifo ++ r.2.2.dataOut
      ipv4ProtocolFifo := n.ipv4ProtocolFifo ++ r.2.2.ipv4Protocol
      validIpAddressFifo := n.validIpAddressFifo ++ r.2.2.validIpAddressFifo }
  | .compute =>
    let r := computeIpv4Checksum n.compute n.ipDataMetaFifo
    { n with
      compute := r.1
      ipDataMetaFifo := r.2.1
      ipDataCheckFifo := n.ipDataCheckFifo ++ r.2.2.dataOut
      subSumsFifo := n.subSumsFifo ++ r.2.2.subSumFifoOut }
  | .check =>
    let r := checkProc () n.subSumsFifo
    { n with subSumsFifo := r.2.1, validChecksumFifo := n.validChecksumFifo ++ r.2.2 }
  | .dropper =>
    let r := ipInvalidDropper n.dropper ⟨n.ipDataCheckFifo, n.validChecksumFifo, n.validIpAddressFifo⟩
    { n with
      dropper := r.1
      ipDataCheckFifo := r.2.1.dataIn
      validChecksumFifo := r.2.1.validChecksumFifoIn
      validIpAddressFifo := r.2.1.validIpAddressFifoIn
      ipDataDropFifo := n.ipDataDropFifo ++ r.2.2.dataOut
      ipv4ValidFifo := n.ipv4ValidFifo ++ r.2.2.ipv4ValidFifoOut }
  | .cut =>
    let r := cutLength n.cut n.ipDataDropFifo
    { n with cut := r.1, ipDataDropFifo := r.2.1, ipDataCutFifo := n.ipDataCutFifo ++ r.2.2 }
  | .detect4 =>
    let r := detectIpv4Protocol n.detect4 ⟨n.ipv4ProtocolFifo, n.ipv4ValidFifo, n.ipDataCutFifo⟩
    { n with
      detect4 := r.1
      ipv4ProtocolFifo := r.2.1.ipv4ProtocolIn
      ipv4ValidFifo := r.2.1.ipv4ValidIn
      ipDataCutFifo := r.2.1.dataIn
      mAxisIcmp := n.mAxisIcmp ++ r.2.2.icmpDataOut
      udpDataFifo := n.udpDataFifo ++ r.2.2.udpDataOut
      mAxisTcp := n.mAxisTcp ++ r.2.2.tcpDataOut }
  | .detect6 =>
    let r := detectIpv6Protocol n.detect6 n.ipv6DataFifo
    { n with
      detect6 := r.1
      ipv6DataFifo := r.2.1
      mAxisIcmpv6 := n.mAxisIcmpv6 ++ r.2.2.icmpv6DataOut
      mAxisIpv6Udp := n.mAxisIpv6Udp ++ r.2.2.ipv6UdpDataOut }
  | .duplicate =>
    let r := duplicateProc () n.udpDataFifo
    { n with udpDataFifo := r.2.1, mAxisUdp := n.mAxisUdp ++ r.2.2, mAxisRoce := n.mAxisRoce ++ r.2.2 }

def IpNet.step (myIpAddress : BitVec 32) (n : IpNet) (p : Proc) : Option IpNet := some (n.call myIpAddress p)

def IpNet.AtRest (myIpAddress : BitVec 32) (n : IpNet) : Prop := ∀ p, n.call myIpAddress p = n

/-! ## Processes wait for their input -/

section

variable {N : Nat}

instance : Append (RouteIn N) := ⟨fun i j => ⟨i.etherTypeFifoIn ++ j.etherTypeFifoIn, i.dataIn ++ j.dataIn⟩⟩

instance : Append (DropperIn N) := ⟨fun i j =>
  ⟨i.dataIn ++ j.dataIn, i.validChecksumFifoIn ++ j.validChecksumFifoIn,
    i.validIpAddressFifoIn ++ j.validIpAddressFifoIn⟩⟩

instance : Append (Detect4In N) := ⟨fun i j =>
  ⟨i.ipv4ProtocolIn ++ j.ipv4ProtocolIn, i.ipv4ValidIn ++ j.ipv4ValidIn, i.dataIn ++ j.dataIn⟩⟩

theorem route_waits : Waits (routeByEthProtocol (N := N)) {} := by
  rintro ⟨st, et⟩ ⟨types, ws⟩
  cases st with
  | false =>
    cases types with
    | nil => exact .inl rfl
    | cons t types =>
      cases ws with
      | nil => exact .inl rfl
      | cons w ws => exact .inr fun _ => rfl
  | true =>
    cases ws with
    | nil => exact .inl rfl
    | cons w ws => exact .inr fun _ => rfl

theorem extract_waits (myIpAddress : BitVec 32) : Waits (extractIpMeta (N := N) myIpAddress) {} := by
  intro s i
  cases i with
  | nil => exact .inl rfl
  | cons w ws => exact .inr fun _ => rfl

theorem compute_waits : Waits computeIpv4Checksum {} := by
  intro s i
  cases i with
  | nil => exact .inl rfl
  | cons w ws => exact .inr fun _ => rfl

theorem check_waits : Waits checkProc [] := by
  intro s i
  cases i with
  | nil => exact .inl rfl
  | cons x i => exact .inr fun _ => rfl

theorem dropper_waits : Waits (ipInvalidDropper (N := N)) {} := by
  rintro s ⟨ws, checksums, addresses⟩
  cases s with
  | GET_VALID =>
    cases checksums with
    | nil => exact .inl rfl
    | cons c checksums =>
      cases addresses with
      | nil => exact .inl rfl
      | cons a addresses => exact .inr fun _ => rfl
  | FWD | DROP =>
    cases ws with
    | nil => exact .inl rfl
    | cons w ws => exact .inr fun _ => rfl

theorem cut_waits : Waits cutLength [] := by
  intro s i
  cases i with
  | nil => exact .inl (by cases s <;> rfl)
  | cons w ws => exact .inr fun _ => by cases s <;> rfl

theorem detect4_waits : Waits (detectIpv4Protocol (N := N)) {} := by
  rintro ⟨st, protocol⟩ ⟨protocols, valids, ws⟩
  cases st with
  | META =>
    cases protocols with
    | nil => exact .inl rfl
    | cons p protocols =>
      cases valids with
      | nil => exact .inl rfl
      | cons v valids => exact .inr fun _ => rfl
  | PKG =>
    cases ws with
    | nil => exact .inl rfl
    | cons w ws => exact .inr fun _ => rfl

theorem detect6_waits : Waits (detectIpv6Protocol (N := N)) {} := by
  intro s i
  cases i with
  | nil => exact .inl rfl
  | cons w ws => exact .inr fun _ => rfl

theorem duplicate_waits : Waits duplicateProc [] := by
  intro s i
  cases i with
  | nil => exact .inl rfl
  | cons w ws => exact .inr fun _ => rfl

end

/-! ## Coming to rest -/

/-- What is delivered at the outputs. -/
structure Delivered where
  arp : List (Word 64)
  icmpv6 : List (Word 64)
  ipv6Udp : List (Word 64)
  icmp : List (Word 64)
  udp : List (Word 64)
  tcp : List (Word 64)
  roce : List (Word 64)

def IpNet.delivered (n : IpNet) : Delivered :=
  ⟨n.mAxisArp, n.mAxisIcmpv6, n.mAxisIpv6Udp, n.mAxisIcmp, n.mAxisUdp, n.mAxisTcp, n.mAxisRoce⟩

variable {myIpAddress : BitVec 32} {n : IpNet} {out : Delivered}

/-- From here on each process comes to rest on what is in its queues and what is still put into them; then `out`
has been delivered. -/
inductive Finishes (myIpAddress : BitVec 32) (n : IpNet) : Delivered → Prop
  | intro {eo ro fo so xo co ko po uo do4 do6 oo} {e r f s x c p u d4 d6} {ei ri fi si xi ci ki pi ui di4 di6 oi}
      (detectEth : Rests detectEthProtocol {} n.detectEth n.sAxisRaw eo e ei)
      (route : Rests routeByEthProtocol {} n.route
        ⟨n.etherTypeFifo ++ eo.flatMap (·.etherTypeFifo), n.ethDataFifo ++ eo.flatMap (·.dataOut)⟩ ro r ri)
      (shift4 : Rests (rshiftWordByOctet shiftOffset) [] n.shift4 (n.ipv4ShiftFifo ++ ro.flatMap (·.ipDataOut)) fo f fi)
      (shift6 : Rests (rshiftWordByOctet shiftOffset) [] n.shift6 (n.ipv6ShiftFifo ++ ro.flatMap (·.ipv6DataOut)) so s si)
      (extract : Rests (extractIpMeta myIpAddress) {} n.extract (n.ipDataFifo ++ fo.flatten) xo x xi)
      (compute : Rests computeIpv4Checksum {} n.compute (n.ipDataMetaFifo ++ xo.flatMap (·.dataOut)) co c ci)
      (check : Rests checkProc [] () (n.subSumsFifo ++ co.flatMap (·.subSumFifoOut)) ko () ki)
      (dropper : Rests ipInvalidDropper {} n.dropper
        ⟨n.ipDataCheckFifo ++ co.flatMap (·.dataOut), n.validChecksumFifo ++ ko.flatten,
          n.validIpAddressFifo ++ xo.flatMap (·.validIpAddressFifo)⟩ po p pi)
      (cut : Rests cutLength [] n.cut (n.ipDataDropFifo ++ po.flatMap (·.dataOut)) uo u ui)
      (detect4 : Rests detectIpv4Protocol {} n.detect4
        ⟨n.ipv4ProtocolFifo ++ xo.flatMap (·.ipv4Protocol), n.ipv4ValidFifo ++ po.flatMap (·.ipv4ValidFifoOut),
          n.ipDataCutFifo ++ uo.flatten⟩ do4 d4 di4)
      (detect6 : Rests detectIpv6Protocol {} n.detect6 (n.ipv6DataFifo ++ so.flatten) do6 d6 di6)
      (duplicate : Rests duplicateProc [] () (n.udpDataFifo ++ do4.flatMap (·.udpDataOut)) oo () oi) :
      Finishes myIpAddress n
        { arp := n.mAxisArp ++ ro.flatMap (·.arpDataOut)
          icmpv6 := n.mAxisIcmpv6 ++ do6.flatMap (·.icmpv6DataOut)
          ipv6Udp := n.mAxisIpv6Udp ++ do6.flatMap (·.ipv6UdpDataOut)
          icmp := n.mAxisIcmp ++ do4.flatMap (·.icmpDataOut)
          udp := n.mAxisUdp ++ oo.flatten
          tcp := n.mAxisTcp ++ do4.flatMap (·.tcpDataOut)
          roce := n.mAxisRoce ++ oo.flatten }

theorem Finishes.call (h : Finishes myIpAddress n out) (p : Proc) : Finishes myIpAddress (n.call myIpAddress p) out := by
  obtain ⟨detectEth, route, shift4, shift6, extract, compute, check, dropper, cut, detect4, detect6, duplicate⟩ := h
  cases p with
  | detectEth =>
    obtain ⟨_, detectEth', ho⟩ := detectEth.step
    rw [flatMap_called rfl ho, flatMap_called rfl ho, ← List.append_assoc, ← List.append_assoc] at route
    exact .intro detectEth' route shift4 shift6 extract compute check dropper cut detect4 detect6 duplicate
  | route =>
    obtain ⟨_, route', ho⟩ := Rests.called route_waits (i := ⟨n.etherTypeFifo, n.ethDataFifo⟩) (x := ⟨_, _⟩) route
    rw [flatMap_called rfl ho, ← List.append_assoc] at shift4
    rw [flatMap_called rfl ho, ← List.append_assoc] at shift6
    rw [flatMap_called rfl ho, ← List.append_assoc]
    exact .intro detectEth route' shift4 shift6 extract compute check dropper cut detect4 detect6 duplicate
  | shift4 =>
    obtain ⟨_, shift4', ho⟩ := shift4.called (rshift_waits _)
    rw [flatten_called ho, ← List.append_assoc] at extract
    exact .intro detectEth route shift4' shift6 extract compute check dropper cut detect4 detect6 duplicate
  | shift6 =>
    obtain ⟨_, shift6', ho⟩ := shift6.called (rshift_waits _)
    rw [flatten_called ho, ← List.append_assoc] at detect6
    exact .intro detectEth route shift4 shift6' extract compute check dropper cut detect4 detect6 duplicate
  | extract =>
    obtain ⟨_, extract', ho⟩ := extract.called (extract_waits myIpAddress)
    rw [flatMap_called rfl ho, ← List.append_assoc] at compute
    rw [flatMap_called rfl ho, ← List.append_assoc] at dropper
    rw [flatMap_called rfl ho, ← List.append_assoc] at detect4
    exact .intro detectEth route shift4 shift6 extract' compute check dropper cut detect4 detect6 duplicate
  | compute =>
    obtain ⟨_, compute', ho⟩ := compute.called compute_waits
    rw [flatMap_called rfl ho, ← List.append_assoc] at check
    rw [flatMap_called rfl ho, ← List.append_assoc] at dropper
    exact .intro detectEth route shift4 shift6 extract compute' check dropper cut detect4 detect6 duplicate
  | check =>
    obtain ⟨_, check', ho⟩ := check.called check_waits
    rw [flatten_called ho, ← List.append_assoc] at dropper
    exact .intro detectEth route shift4 shift6 extract compute check' dropper cut detect4 detect6 duplicate
  | dropper =>
    obtain ⟨_, dropper', ho⟩ := Rests.called dropper_waits
      (i := ⟨n.ipDataCheckFifo, n.validChecksumFifo, n.validIpAddressFifo⟩) (x := ⟨_, _, _⟩) dropper
    rw [flatMap_called rfl ho, ← List.append_assoc] at cut
    rw [flatMap_called rfl ho, ← List.append_assoc] at detect4
    exact .intro detectEth route shift4 shift6 extract compute check dropper' cut detect4 detect6 duplicate
  | cut =>
    obtain ⟨_, cut', ho⟩ := cut.called cut_waits
    rw [flatten_called ho, ← List.append_assoc] at detect4
    exact .intro detectEth route shift4 shift6 extract compute check dropper cut' detect4 detect6 duplicate
  | detect4 =>
    obtain ⟨_, detect4', ho⟩ := Rests.called detect4_waits
      (i := ⟨n.ipv4ProtocolFifo, n.ipv4ValidFifo, n.ipDataCutFifo⟩) (x := ⟨_, _, _⟩) detect4
    rw [flatMap_called rfl ho, ← List.append_assoc] at duplicate
    rw [flatMap_called rfl ho, flatMap_called rfl ho, ← List.append_assoc, ← List.append_assoc]
    exact .intro (n := n.call myIpAddress .detect4) detectEth route shift4 shift6 extract compute check dropper cut detect4' detect6 duplicate
  | detect6 =>
    obtain ⟨_, detect6', ho⟩ := detect6.called detect6_waits
    rw [flatMap_called rfl ho, flatMap_called rfl ho, ← List.append_assoc, ← List.append_assoc]
    exact .intro (n := n.call myIpAddress .detect6) detectEth route shift4 shift6 extract compute check dropper cut detect4 detect6' duplicate
  | duplicate =>
    obtain ⟨_, duplicate', ho⟩ := duplicate.called duplicate_waits
    rw [flatten_called ho, ← List.append_assoc, ← List.append_assoc]
    exact .intro (n := n.call myIpAddress .duplicate) detectEth route shift4 shift6 extract compute check dropper cut detect4 detect6 duplicate'

theorem Finishes.reach {t : IpNet} (h : Finishes myIpAddress n out)
    (hreach : Reach (IpNet.step myIpAddress) anyStep n t) : Finishes myIpAddress t out := by
  refine Reach.invariant (P := fun n => Finishes myIpAddress n out) hreach h ?_
  intro u p v hu _ hs
  cases Option.some.inj hs
  exact hu.call p

/-- Every process is idle on what is in its queues. -/
structure IpNet.Idle (myIpAddress : BitVec 32) (n : IpNet) : Prop where
  detectEth : detectEthProtocol n.detectEth n.sAxisRaw = (n.detectEth, n.sAxisRaw, {})
  route : routeByEthProtocol n.route ⟨n.etherTypeFifo, n.ethDataFifo⟩ =
    (n.route, ⟨n.etherTypeFifo, n.ethDataFifo⟩, {})
  shift4 : rshiftWordByOctet shiftOffset n.shift4 n.ipv4ShiftFifo = (n.shift4, n.ipv4ShiftFifo, [])
  shift6 : rshiftWordByOctet shiftOffset n.shift6 n.ipv6ShiftFifo = (n.shift6, n.ipv6ShiftFifo, [])
  extract : extractIpMeta myIpAddress n.extract n.ipDataFifo = (n.extract, n.ipDataFifo, {})
  compute : computeIpv4Checksum n.compute n.ipDataMetaFifo = (n.compute, n.ipDataMetaFifo, {})
  check : checkProc () n.subSumsFifo = ((), n.subSumsFifo, [])
  dropper : ipInvalidDropper n.dropper ⟨n.ipDataCheckFifo, n.validChecksumFifo, n.validIpAddressFifo⟩ =
    (n.dropper, ⟨n.ipDataCheckFifo, n.validChecksumFifo, n.validIpAddressFifo⟩, {})
  cut : cutLength n.cut n.ipDataDropFifo = (n.cut, n.ipDataDropFifo, [])
  detect4 : detectIpv4Protocol n.detect4 ⟨n.ipv4ProtocolFifo, n.ipv4ValidFifo, n.ipDataCutFifo⟩ =
    (n.detect4, ⟨n.ipv4ProtocolFifo, n.ipv4ValidFifo, n.ipDataCutFifo⟩, {})
  detect6 : detectIpv6Protocol n.detect6 n.ipv6DataFifo = (n.detect6, n.ipv6DataFifo, {})
  duplicate : duplicateProc () n.udpDataFifo = ((), n.udpDataFifo, [])

-- a queue that does not change gets nothing
theorem IpNet.AtRest.idle (h : n.AtRest myIpAddress) : n.Idle myIpAddress where
  detectEth := by
    have hcall := h .detectEth
    have hout : (detectEthProtocol n.detectEth n.sAxisRaw).2.2 = {} := DetectEthOut.ext
      (List.append_right_eq_self.mp (congrArg IpNet.etherTypeFifo hcall))
      (List.append_right_eq_self.mp (congrArg IpNet.ethDataFifo hcall))
    exact Prod.ext (congrArg IpNet.detectEth hcall) (Prod.ext (congrArg IpNet.sAxisRaw hcall) hout)
  route := by
    have hcall := h .route
    have hout : (routeByEthProtocol n.route ⟨n.etherTypeFifo, n.ethDataFifo⟩).2.2 = {} := RouteOut.ext
      (List.append_right_eq_self.mp (congrArg IpNet.mAxisArp hcall))
      (List.append_right_eq_self.mp (congrArg IpNet.ipv4ShiftFifo hcall))
      (List.append_right_eq_self.mp (congrArg IpNet.ipv6ShiftFifo hcall))
    exact Prod.ext (congrArg IpNet.route hcall)
      (Prod.ext (RouteIn.ext (congrArg IpNet.etherTypeFifo hcall) (congrArg IpNet.ethDataFifo hcall)) hout)
  shift4 := by
    have hcall := h .shift4
    have hout := List.append_right_eq_self.mp (congrArg IpNet.ipDataFifo hcall)
    exact Prod.ext (congrArg IpNet.shift4 hcall) (Prod.ext (congrArg IpNet.ipv4ShiftFifo hcall) hout)
  shift6 := by
    have hcall := h .shift6
    have hout := List.append_right_eq_self.mp (congrArg IpNet.ipv6DataFifo hcall)
    exact Prod.ext (congrArg IpNet.shift6 hcall) (Prod.ext (congrArg IpNet.ipv6ShiftFifo hcall) hout)
  extract := by
    have hcall := h .extract
    have hout : (extractIpMeta myIpAddress n.extract n.ipDataFifo).2.2 = {} := ExtractOut.ext
      (List.append_right_eq_self.mp (congrArg IpNet.ipDataMetaFifo hcall))
      (List.append_right_eq_self.mp (congrArg IpNet.ipv4ProtocolFifo hcall))
      (List.append_right_eq_self.mp (congrArg IpNet.validIpAddressFifo hcall))
    exact Prod.ext (congrArg IpNet.extract hcall) (Prod.ext (congrArg IpNet.ipDataFifo hcall) hout)
  compute := by
    have hcall := h .compute
    have hout : (computeIpv4Checksum n.compute n.ipDataMetaFifo).2.2 = {} := ComputeOut.ext
      (List.append_right_eq_self.mp (congrArg IpNet.ipDataCheckFifo hcall))
      (List.append_right_eq_self.mp (congrArg IpNet.subSumsFifo hcall))
    exact Prod.ext (congrArg IpNet.compute hcall) (Prod.ext (congrArg IpNet.ipDataMetaFifo hcall) hout)
  check := by
    have hcall := h .check
    have hout := List.append_right_eq_self.mp (congrArg IpNet.validChecksumFifo hcall)
    exact Prod.ext rfl (Prod.ext (congrArg IpNet.subSumsFifo hcall) hout)
  dropper := by
    have hcall := h .dropper
    have hout : (ipInvalidDropper n.dropper ⟨n.ipDataCheckFifo, n.validChecksumFifo, n.validIpAddressFifo⟩).2.2 =
        {} := DropperOut.ext
      (List.append_right_eq_self.mp (congrArg IpNet.ipDataDropFifo hcall))
      (List.append_right_eq_self.mp (congrArg IpNet.ipv4ValidFifo hcall))
    exact Prod.ext (congrArg IpNet.dropper hcall)
      (Prod.ext (DropperIn.ext (congrArg IpNet.ipDataCheckFifo hcall) (congrArg IpNet.validChecksumFifo hcall) (congrArg IpNet.validIpAddressFifo hcall)) hout)
  cut := by
    have hcall := h .cut
    have hout := List.append_right_eq_self.mp (congrArg IpNet.ipDataCutFifo hcall)
    exact Prod.ext (congrArg IpNet.cut hcall) (Prod.ext (congrArg IpNet.ipDataDropFifo hcall) hout)
  detect4 := by
    have hcall := h .detect4
    have hout : (detectIpv4Protocol n.detect4 ⟨n.ipv4ProtocolFifo, n.ipv4ValidFifo, n.ipDataCutFifo⟩).2.2 =
        {} := Detect4Out.ext
      (List.append_right_eq_self.mp (congrArg IpNet.mAxisIcmp hcall))
      (List.append_right_eq_self.mp (congrArg IpNet.udpDataFifo hcall))
      (List.append_right_eq_self.mp (congrArg IpNet.mAxisTcp hcall))
    exact Prod.ext (congrArg IpNet.detect4 hcall)
      (Prod.ext (Detect4In.ext (congrArg IpNet.ipv4ProtocolFifo hcall) (congrArg IpNet.ipv4ValidFifo hcall) (congrArg IpNet.ipDataCutFifo hcall)) hout)
  detect6 := by
    have hcall := h .detect6
    have hout : (detectIpv6Protocol n.detect6 n.ipv6DataFifo).2.2 = {} := Detect6Out.ext
      (List.append_right_eq_self.mp (congrArg IpNet.mAxisIcmpv6 hcall))
      (List.append_right_eq_self.mp (congrArg IpNet.mAxisIpv6Udp hcall))
    exact Prod.ext (congrArg IpNet.detect6 hcall) (Prod.ext (congrArg IpNet.ipv6DataFifo hcall) hout)
  duplicate := by
    have hcall := h .duplicate
    have hout := List.append_right_eq_self.mp (congrArg IpNet.mAxisUdp hcall)
    exact Prod.ext rfl (Prod.ext (congrArg IpNet.udpDataFifo hcall) hout)

theorem IpNet.Idle.at_rest (h : n.Idle myIpAddress) : n.AtRest myIpAddress := by
  intro p
  cases p with
  | detectEth => simp [IpNet.call, h.detectEth]
  | route => simp [IpNet.call, h.route]
  | shift4 => simp [IpNet.call, h.shift4]
  | shift6 => simp [IpNet.call, h.shift6]
  | extract => simp [IpNet.call, h.extract]
  | compute => simp [IpNet.call, h.compute]
  | check => simp [IpNet.call, h.check]
  | dropper => simp [IpNet.call, h.dropper]
  | cut => simp [IpNet.call, h.cut]
  | detect4 => simp [IpNet.call, h.detect4]
  | detect6 => simp [IpNet.call, h.detect6]
  | duplicate => simp [IpNet.call, h.duplicate]

/-- What is to be delivered has been delivered when the system is at rest. -/
theorem Finishes.at_rest (h : Finishes myIpAddress n out) (hrest : n.AtRest myIpAddress) : n.delivered = out := by
  obtain ⟨detectEth, route, shift4, shift6, extract, compute, check, dropper, cut, detect4, detect6, duplicate⟩ := h
  have hidle := hrest.idle
  obtain ⟨-, -, heo⟩ := detectEth.at_rest hidle.detectEth
  rw [flatMap_idle rfl heo, flatMap_idle rfl heo, List.append_nil, List.append_nil] at route
  obtain ⟨-, -, hro⟩ := route.at_rest hidle.route
  rw [flatMap_idle rfl hro, List.append_nil] at shift4 shift6
  obtain ⟨-, -, hfo⟩ := shift4.at_rest hidle.shift4
  obtain ⟨-, -, hso⟩ := shift6.at_rest hidle.shift6
  rw [List.flatten_eq_nil_iff.mpr hfo, List.append_nil] at extract
  obtain ⟨-, -, hxo⟩ := extract.at_rest hidle.extract
  rw [flatMap_idle rfl hxo, List.append_nil] at compute
  obtain ⟨-, -, hco⟩ := compute.at_rest hidle.compute
  rw [flatMap_idle rfl hco, List.append_nil] at check
  obtain ⟨-, -, hko⟩ := check.at_rest hidle.check
  rw [flatMap_idle rfl hco, List.flatten_eq_nil_iff.mpr hko, flatMap_idle rfl hxo, List.append_nil, List.append_nil,
    List.append_nil] at dropper
  obtain ⟨-, -, hpo⟩ := dropper.at_rest hidle.dropper
  rw [flatMap_idle rfl hpo, List.append_nil] at cut
  obtain ⟨-, -, huo⟩ := cut.at_rest hidle.cut
  rw [flatMap_idle rfl hxo, flatMap_idle rfl hpo, List.flatten_eq_nil_iff.mpr huo, List.append_nil, List.append_nil,
    List.append_nil] at detect4
  obtain ⟨-, -, hdo4⟩ := detect4.at_rest hidle.detect4
  rw [List.flatten_eq_nil_iff.mpr hso, List.append_nil] at detect6
  obtain ⟨-, -, hdo6⟩ := detect6.at_rest hidle.detect6
  rw [flatMap_idle rfl hdo4, List.append_nil] at duplicate
  obtain ⟨-, -, hoo⟩ := duplicate.at_rest hidle.duplicate
  rw [flatMap_idle rfl hro, flatMap_idle rfl hdo6, flatMap_idle rfl hdo6, flatMap_idle rfl hdo4, flatMap_idle rfl hdo4,
    List.flatten_eq_nil_iff.mpr hoo]
  simp only [List.append_nil]
  rfl

/-! ## One process after the other -/

section

variable (myIpAddress : BitVec 32) (n : IpNet)

theorem run_detectEth : ∀ os t i, Runs detectEthProtocol n.detectEth n.sAxisRaw os t i →
    Reach (IpNet.step myIpAddress) anyStep n
      { n with
        detectEth := t
        sAxisRaw := i
        etherTypeFifo := n.etherTypeFifo ++ os.flatMap (·.etherTypeFifo)
        ethDataFifo := n.ethDataFifo ++ os.flatMap (·.dataOut) } :=
  Runs.reach Proc.detectEth (fun s i os => by simp [IpNet.step, IpNet.call]) (by simp)

theorem run_route : ∀ os t i, Runs routeByEthProtocol n.route ⟨n.etherTypeFifo, n.ethDataFifo⟩ os t i →
    Reach (IpNet.step myIpAddress) anyStep n
      { n with
        route := t
        etherTypeFifo := i.etherTypeFifoIn
        ethDataFifo := i.dataIn
        mAxisArp := n.mAxisArp ++ os.flatMap (·.arpDataOut)
        ipv4ShiftFifo := n.ipv4ShiftFifo ++ os.flatMap (·.ipDataOut)
        ipv6ShiftFifo := n.ipv6ShiftFifo ++ os.flatMap (·.ipv6DataOut) } :=
  Runs.reach Proc.route (fun s i os => by simp [IpNet.step, IpNet.call]) (by simp)

theorem run_shift4 : ∀ os t i, Runs (rshiftWordByOctet shiftOffset) n.shift4 n.ipv4ShiftFifo os t i →
    Reach (IpNet.step myIpAddress) anyStep n
      { n with
        shift4 := t
        ipv4ShiftFifo := i
        ipDataFifo := n.ipDataFifo ++ os.flatten } :=
  Runs.reach Proc.shift4 (fun s i os => by simp [IpNet.step, IpNet.call]) (by simp)

theorem run_shift6 : ∀ os t i, Runs (rshiftWordByOctet shiftOffset) n.shift6 n.ipv6ShiftFifo os t i →
    Reach (IpNet.step myIpAddress) anyStep n
      { n with
        shift6 := t
        ipv6ShiftFifo := i
        ipv6DataFifo := n.ipv6DataFifo ++ os.flatten } :=
  Runs.reach Proc.shift6 (fun s i os => by simp [IpNet.step, IpNet.call]) (by simp)

theorem run_extract : ∀ os t i, Runs (extractIpMeta myIpAddress) n.extract n.ipDataFifo os t i →
    Reach (IpNet.step myIpAddress) anyStep n
      { n with
        extract := t
        ipDataFifo := i
        ipDataMetaFifo := n.ipDataMetaFifo ++ os.flatMap (·.dataOut)
        ipv4ProtocolFifo := n.ipv4ProtocolFifo ++ os.flatMap (·.ipv4Protocol)
        validIpAddressFifo := n.validIpAddressFifo ++ os.flatMap (·.validIpAddressFifo) } :=
  Runs.reach Proc.extract (fun s i os => by simp [IpNet.step, IpNet.call]) (by simp)

theorem run_compute : ∀ os t i, Runs computeIpv4Checksum n.compute n.ipDataMetaFifo os t i →
    Reach (IpNet.step myIpAddress) anyStep n
      { n with
        compute := t
        ipDataMetaFifo := i
        ipDataCheckFifo := n.ipDataCheckFifo ++ os.flatMap (·.dataOut)
        subSumsFifo := n.subSumsFifo ++ os.flatMap (·.subSumFifoOut) } :=
  Runs.reach Proc.compute (fun s i os => by simp [IpNet.step, IpNet.call]) (by simp)

theorem run_check : ∀ os t i, Runs checkProc () n.subSumsFifo os t i →
    Reach (IpNet.step myIpAddress) anyStep n
      { n with
        subSumsFifo := i
        validChecksumFifo := n.validChecksumFifo ++ os.flatten } :=
  Runs.reach Proc.check (fun s i os => by simp [IpNet.step, IpNet.call]) (by simp)

theorem run_dropper : ∀ os t i,
    Runs ipInvalidDropper n.dropper ⟨n.ipDataCheckFifo, n.validChecksumFifo, n.validIpAddressFifo⟩ os t i →
    Reach (IpNet.step myIpAddress) anyStep n
      { n with
        dropper := t
        ipDataCheckFifo := i.dataIn
        validChecksumFifo := i.validChecksumFifoIn
        validIpAddressFifo := i.validIpAddressFifoIn
        ipDataDropFifo := n.ipDataDropFifo ++ os.flatMap (·.dataOut)
        ipv4ValidFifo := n.ipv4ValidFifo ++ os.flatMap (·.ipv4ValidFifoOut) } :=
  Runs.reach Proc.dropper (fun s i os => by simp [IpNet.step, IpNet.call]) (by simp)

theorem run_cut : ∀ os t i, Runs cutLength n.cut n.ipDataDropFifo os t i →
    Reach (IpNet.step myIpAddress) anyStep n
      { n with
        cut := t
        ipDataDropFifo := i
        ipDataCutFifo := n.ipDataCutFifo ++ os.flatten } :=
  Runs.reach Proc.cut (fun s i os => by simp [IpNet.step, IpNet.call]) (by simp)

theorem run_detect4 : ∀ os t i,
    Runs detectIpv4Protocol n.detect4 ⟨n.ipv4ProtocolFifo, n.ipv4ValidFifo, n.ipDataCutFifo⟩ os t i →
    Reach (IpNet.step myIpAddress) anyStep n
      { n with
        detect4 := t
        ipv4ProtocolFifo := i.ipv4ProtocolIn
        ipv4ValidFifo := i.ipv4ValidIn
        ipDataCutFifo := i.dataIn
        mAxisIcmp := n.mAxisIcmp ++ os.flatMap (·.icmpDataOut)
        udpDataFifo := n.udpDataFifo ++ os.flatMap (·.udpDataOut)
        mAxisTcp := n.mAxisTcp ++ os.flatMap (·.tcpDataOut) } :=
  Runs.reach Proc.detect4 (fun s i os => by simp [IpNet.step, IpNet.call]) (by simp)

theorem run_detect6 : ∀ os t i, Runs detectIpv6Protocol n.detect6 n.ipv6DataFifo os t i →
    Reach (IpNet.step myIpAddress) anyStep n
      { n with
        detect6 := t
        ipv6DataFifo := i
        mAxisIcmpv6 := n.mAxisIcmpv6 ++ os.flatMap (·.icmpv6DataOut)
        mAxisIpv6Udp := n.mAxisIpv6Udp ++ os.flatMap (·.ipv6UdpDataOut) } :=
  Runs.reach Proc.detect6 (fun s i os => by simp [IpNet.step, IpNet.call]) (by simp)

theorem run_duplicate : ∀ os t i, Runs duplicateProc () n.udpDataFifo os t i →
    Reach (IpNet.step myIpAddress) anyStep n
      { n with
        udpDataFifo := i
        mAxisUdp := n.mAxisUdp ++ os.flatten
        mAxisRoce := n.mAxisRoce ++ os.flatten } :=
  Runs.reach Proc.duplicate (fun s i os => by simp [IpNet.step, IpNet.call]) (by simp)

end

/-- The system can come to rest: one process after the other is called as long as it has something to do. -/
theorem Finishes.rest (h : Finishes myIpAddress n out) :
    ∃ t, Reach (IpNet.step myIpAddress) anyStep n t ∧ t.AtRest myIpAddress := by
  obtain ⟨detectEth, route, shift4, shift6, extract, compute, check, dropper, cut, detect4, detect6, duplicate⟩ := h
  have h1 := run_detectEth myIpAddress n _ _ _ detectEth.run
  have h2 := h1.trans (run_route myIpAddress _ _ _ _ route.run)
  have h3 := h2.trans (run_shift4 myIpAddress _ _ _ _ shift4.run)
  have h4 := h3.trans (run_shift6 myIpAddress _ _ _ _ shift6.run)
  have h5 := h4.trans (run_extract myIpAddress _ _ _ _ extract.run)
  have h6 := h5.trans (run_compute myIpAddress _ _ _ _ compute.run)
  have h7 := h6.trans (run_check myIpAddress _ _ _ _ check.run)
  have h8 := h7.trans (run_dropper myIpAddress _ _ _ _ dropper.run)
  have h9 := h8.trans (run_cut myIpAddress _ _ _ _ cut.run)
  have h10 := h9.trans (run_detect4 myIpAddress _ _ _ _ detect4.run)
  have h11 := h10.trans (run_detect6 myIpAddress _ _ _ _ detect6.run)
  have h12 := h11.trans (run_duplicate myIpAddress _ _ _ _ duplicate.run)
  exact ⟨_, h12, IpNet.Idle.at_rest ⟨detectEth.rest, route.rest, shift4.rest, shift6.rest, extract.rest, compute.rest,
    check.rest, dropper.rest, cut.rest, detect4.rest, detect6.rest, duplicate.rest⟩⟩

end FpgaNetworkStack.IpHandler
