import FpgaNetworkStack.MacIpEncode.Stages

/-!
# Packets become frames (`mac_ip_encode_core`)

Seven processes and the table that is asked for addresses.  Each may be called at any time; in whatever order they are
called, the system comes to rest in one state.
-/

namespace FpgaNetworkStack.MacIpEncode

open Lib
open Axi (Word Packet Packets Framed LShift lshift_waits octets length_octets)
open IpHandler (SubSums Total checksumOk)
open Toe (withChecksum)
open Ipv4 (ComputeSums512 computeIpv4Checksum512_waits ihl Measured partSum)

/-- The table answers the requests in order. -/
def arpTable (replies : List ArpTableReply) (requests : List (BitVec 32)) :
    List ArpTableReply × List (BitVec 32) × List ArpTableReply :=
  match replies, requests with
  | reply :: replies, _ :: requests => (replies, requests, [reply])
  | _, _ => (replies, requests, [])

structure Config where
  myMacAddress : BitVec 48
  regSubNetMask : BitVec 32
  regDefaultGateway : BitVec 32

structure EncodeNet where
  dataIn : List (Word 64)
  replies : List ArpTableReply
  extract : ExtractIpAddress 64 := {}
  compute : ComputeSums512 := {}
  insert : InsertIpChecksum := {}
  handle : HarState := .ARP
  lshift : LShift 64 := {}
  ethernet : InsertEthernetHeader := { geState := .start 64 }
  arpTableOut : List (BitVec 32) := []
  arpTableIn : List ArpTableReply := []
  dataStreamBuffer0 : List (Word 64) := []
  dataStreamBuffer1 : List (Word 64) := []
  dataStreamBuffer2 : List (Word 64) := []
  dataStreamBuffer3 : List (Word 64) := []
  dataStreamBuffer4 : List (Word 64) := []
  subSumFifo : List SubSums := []
  checksumFifo : List (BitVec 16) := []
  headerFifo : List (BitVec ETH_HEADER_SIZE) := []
  dataOut : List (Word 64) := []

inductive Proc where
  | extract | table | compute | finalize | insert | handle | lshift | ethernet

def EncodeNet.call (c : Config) (n : EncodeNet) : Proc → EncodeNet
  | .extract =>
    let r := extractIpAddress c.regSubNetMask c.regDefaultGateway n.extract n.dataIn
    { n with
      extract := r.1
      dataIn := r.2.1
      dataStreamBuffer0 := n.dataStreamBuffer0 ++ r.2.2.dataOut
      arpTableOut := n.arpTableOut ++ r.2.2.arpTableOut }
  | .table =>
    let r := arpTable n.replies n.arpTableOut
    { n with replies := r.1, arpTableOut := r.2.1, arpTableIn := n.arpTableIn ++ r.2.2 }
  | .compute =>
    let r := macComputeIpv4Checksum true n.compute n.dataStreamBuffer0
    { n with
      compute := r.1
      dataStreamBuffer0 := r.2.1
      dataStreamBuffer1 := n.dataStreamBuffer1 ++ r.2.2.dataOut
      subSumFifo := n.subSumFifo ++ r.2.2.subSumFifoOut }
  | .finalize =>
    let r := macFinalizeIpv4Checksum () n.subSumFifo
    { n with subSumFifo := r.2.1, checksumFifo := n.checksumFifo ++ r.2.2 }
  | .insert =>
    let r := insertIpChecksum n.insert ⟨n.dataStreamBuffer1, n.checksumFifo⟩
    { n with
      insert := r.1
      dataStreamBuffer1 := r.2.1.dataIn
      checksumFifo := r.2.1.checksumFifoIn
      dataStreamBuffer2 := n.dataStreamBuffer2 ++ r.2.2 }
  | .handle =>
    let r := handleArpReply c.myMacAddress n.handle ⟨n.arpTableIn, n.dataStreamBuffer2⟩
    { n with
      handle := r.1
      arpTableIn := r.2.1.arpTableIn
      dataStreamBuffer2 := r.2.1.dataIn
      headerFifo := n.headerFifo ++ r.2.2.headerOut
      dataStreamBuffer3 := n.dataStreamBuffer3 ++ r.2.2.dataOut }
  | .lshift =>
    let r := macLshiftWordByOctet 64 n.lshift n.dataStreamBuffer3
    { n with lshift := r.1, dataStreamBuffer3 := r.2.1, dataStreamBuffer4 := n.dataStreamBuffer4 ++ r.2.2 }
  | .ethernet =>
    let r := insertEthernetHeader n.ethernet ⟨n.headerFifo, n.dataStreamBuffer4⟩
    { n with
      ethernet := r.1
      headerFifo := r.2.1.headerIn
      dataStreamBuffer4 := r.2.1.dataIn
      dataOut := n.dataOut ++ r.2.2 }

def EncodeNet.step (c : Config) (n : EncodeNet) (p : Proc) : Option EncodeNet := some (n.call c p)

def EncodeNet.AtRest (c : Config) (n : EncodeNet) : Prop := ∀ p, n.call c p = n

/-! ## Processes wait for their input -/

instance : Append (InsertIn 64) := ⟨fun i j => ⟨i.dataIn ++ j.dataIn, i.checksumFifoIn ++ j.checksumFifoIn⟩⟩

instance : Append (HandleIn 64) := ⟨fun i j => ⟨i.arpTableIn ++ j.arpTableIn, i.dataIn ++ j.dataIn⟩⟩

instance : Append (EthernetIn 64) := ⟨fun i j => ⟨i.headerIn ++ j.headerIn, i.dataIn ++ j.dataIn⟩⟩

theorem insertIn_append (ws ws' : List (Word 64)) (cs cs' : List (BitVec 16)) :
    (⟨ws, cs⟩ ++ ⟨ws', cs'⟩ : InsertIn 64) = ⟨ws ++ ws', cs ++ cs'⟩ := rfl

theorem ethernetIn_append (hs hs' : List (BitVec ETH_HEADER_SIZE)) (ws ws' : List (Word 64)) :
    (⟨hs, ws⟩ ++ ⟨hs', ws'⟩ : EthernetIn 64) = ⟨hs ++ hs', ws ++ ws'⟩ := rfl

theorem arpTable_waits : Waits arpTable [] := by
  intro replies requests
  cases replies with
  | nil => exact .inl rfl
  | cons reply replies =>
    cases requests with
    | nil => exact .inl rfl
    | cons request requests => exact .inr fun _ => rfl

theorem finalize_waits : Waits macFinalizeIpv4Checksum [] := by
  intro s sums
  cases sums with
  | nil => exact .inl rfl
  | cons r rs => exact .inr fun _ => rfl

theorem insertIpChecksum_waits : Waits (insertIpChecksum (N := 64)) [] := by
  rintro s ⟨ws, checksums⟩
  by_cases hzero : s.wordCount = 0
  · cases ws with
    | nil => exact .inl (by simp only [insertIpChecksum, if_pos hzero])
    | cons w ws =>
      cases checksums with
      | nil => exact .inl (by simp only [insertIpChecksum, if_pos hzero])
      | cons checksum checksums =>
        right
        rintro ⟨ws', checksums'⟩
        simp only [insertIpChecksum, if_pos hzero, insertIn_append, List.cons_append]
  · cases ws with
    | nil => exact .inl (by by_cases hone : s.wordCount = 1 <;> simp [insertIpChecksum, hone])
    | cons w ws =>
      right
      rintro ⟨ws', checksums'⟩
      by_cases hone : s.wordCount = 1
      · simp only [insertIpChecksum, if_neg hzero, if_pos hone, insertIn_append, List.cons_append]
      · simp only [insertIpChecksum, if_neg hzero, if_neg hone, insertIn_append, List.cons_append]

theorem handleArpReply_waits (myMacAddress : BitVec 48) : Waits (handleArpReply (N := 64) myMacAddress) {} := by
  rintro s ⟨replies, ws⟩
  cases ws with
  | nil =>
    left
    cases s with
    | ARP => cases replies <;> rfl
    | FWD => rfl
    | DROP => rfl
  | cons w ws =>
    cases s with
    | ARP =>
      cases replies with
      | nil => exact .inl rfl
      | cons reply replies =>
        right
        rintro ⟨replies', ws'⟩
        obtain ⟨mac, hit⟩ := reply
        cases hit <;> rfl
    | FWD | DROP => exact .inr fun _ => rfl

theorem insertEthernetHeader_waits : Waits (insertEthernetHeader (N := 64)) [] := by
  have hwide : ¬8 * 64 ≤ ETH_HEADER_SIZE := by decide
  rintro s ⟨headers, ws⟩
  cases hst : s.geState with
  | HEADER =>
    cases headers with
    | nil => exact .inl (by simp only [insertEthernetHeader, hst])
    | cons header headers =>
      right
      rintro ⟨headers', ws'⟩
      simp only [insertEthernetHeader, hst, ethernetIn_append, List.cons_append]
  | PARTIAL_HEADER =>
    cases headers with
    | nil => exact .inl (by simp only [insertEthernetHeader, hst, if_neg hwide])
    | cons header headers =>
      cases ws with
      | nil => exact .inl (by simp only [insertEthernetHeader, hst, if_neg hwide])
      | cons w ws =>
        right
        rintro ⟨headers', ws'⟩
        simp only [insertEthernetHeader, hst, if_neg hwide, ethernetIn_append, List.cons_append]
  | BODY =>
    cases ws with
    | nil => exact .inl (by simp only [insertEthernetHeader, hst])
    | cons w ws =>
      right
      rintro ⟨headers', ws'⟩
      simp only [insertEthernetHeader, hst, ethernetIn_append, List.cons_append]

/-! ## Coming to rest -/

variable {c : Config}

/-- From here on each process comes to rest on what is in its queues and what is still put into them; then `data` has
been written. -/
inductive Finishes (c : Config) (n : EncodeNet) : List (Word 64) → Prop
  | intro {xo ao co fo io ho lo eo} {x co' xi ci li ii hi ei} {a ai s si} {h l i e}
      (extract : Rests (extractIpAddress c.regSubNetMask c.regDefaultGateway) {} n.extract n.dataIn xo x xi)
      (table : Rests arpTable [] n.replies (n.arpTableOut ++ xo.flatMap (·.arpTableOut)) ao a ai)
      (compute : Rests (macComputeIpv4Checksum true) {} n.compute
        (n.dataStreamBuffer0 ++ xo.flatMap (·.dataOut)) co co' ci)
      (finalize : Rests macFinalizeIpv4Checksum [] () (n.subSumFifo ++ co.flatMap (·.subSumFifoOut)) fo s si)
      (insert : Rests insertIpChecksum [] n.insert
        ⟨n.dataStreamBuffer1 ++ co.flatMap (·.dataOut), n.checksumFifo ++ fo.flatten⟩ io i ii)
      (handle : Rests (handleArpReply c.myMacAddress) {} n.handle
        ⟨n.arpTableIn ++ ao.flatten, n.dataStreamBuffer2 ++ io.flatten⟩ ho h hi)
      (lshift : Rests (macLshiftWordByOctet 64) [] n.lshift (n.dataStreamBuffer3 ++ ho.flatMap (·.dataOut)) lo l li)
      (ethernet : Rests insertEthernetHeader [] n.ethernet
        ⟨n.headerFifo ++ ho.flatMap (·.headerOut), n.dataStreamBuffer4 ++ lo.flatten⟩ eo e ei) :
      Finishes c n (n.dataOut ++ eo.flatten)

variable {n : EncodeNet} {data : List (Word 64)}

theorem Finishes.call (h : Finishes c n data) (p : Proc) : Finishes c (n.call c p) data := by
  obtain ⟨extract, table, compute, finalize, insert, handle, lshift, ethernet⟩ := h
  cases p with
  | extract =>
    obtain ⟨_, extract', ho⟩ := extract.step
    rw [flatMap_called rfl ho, ← List.append_assoc] at table
    rw [flatMap_called rfl ho, ← List.append_assoc] at compute
    exact .intro (n := n.call c .extract) extract' table compute finalize insert handle lshift ethernet
  | table =>
    obtain ⟨_, table', ho⟩ := table.called arpTable_waits
    rw [flatten_called ho, ← List.append_assoc] at handle
    exact .intro (n := n.call c .table) extract table' compute finalize insert handle lshift ethernet
  | compute =>
    obtain ⟨_, compute', ho⟩ := compute.called (computeIpv4Checksum512_waits true)
    rw [flatMap_called rfl ho, ← List.append_assoc] at finalize
    rw [flatMap_called rfl ho, ← List.append_assoc] at insert
    exact .intro (n := n.call c .compute) extract table compute' finalize insert handle lshift ethernet
  | finalize =>
    obtain ⟨_, finalize', ho⟩ := finalize.called finalize_waits
    rw [flatten_called ho, ← List.append_assoc n.checksumFifo] at insert
    exact .intro (n := n.call c .finalize) extract table compute finalize' insert handle lshift ethernet
  | insert =>
    obtain ⟨_, insert', ho⟩ := Rests.called insertIpChecksum_waits (i := ⟨n.dataStreamBuffer1, n.checksumFifo⟩)
      (x := ⟨_, _⟩) insert
    rw [flatten_called ho, ← List.append_assoc n.dataStreamBuffer2] at handle
    exact .intro (n := n.call c .insert) extract table compute finalize insert' handle lshift ethernet
  | handle =>
    obtain ⟨_, handle', ho⟩ := Rests.called (handleArpReply_waits c.myMacAddress)
      (i := ⟨n.arpTableIn, n.dataStreamBuffer2⟩) (x := ⟨_, _⟩) handle
    rw [flatMap_called rfl ho, ← List.append_assoc] at lshift
    rw [flatMap_called rfl ho, ← List.append_assoc] at ethernet
    exact .intro (n := n.call c .handle) extract table compute finalize insert handle' lshift ethernet
  | lshift =>
    obtain ⟨_, lshift', ho⟩ := lshift.called (lshift_waits _)
    rw [flatten_called ho, ← List.append_assoc n.dataStreamBuffer4] at ethernet
    exact .intro (n := n.call c .lshift) extract table compute finalize insert handle lshift' ethernet
  | ethernet =>
    obtain ⟨_, ethernet', ho⟩ := Rests.called insertEthernetHeader_waits (i := ⟨n.headerFifo, n.dataStreamBuffer4⟩)
      (x := ⟨_, _⟩) ethernet
    rw [flatten_called ho, ← List.append_assoc]
    exact .intro (n := n.call c .ethernet) extract table compute finalize insert handle lshift ethernet'

theorem Finishes.reach {t : EncodeNet} (h : Finishes c n data) (hreach : Reach (EncodeNet.step c) anyStep n t) :
    Finishes c t data := by
  refine Reach.invariant (P := fun n => Finishes c n data) hreach h ?_
  intro u p v hu _ hs
  cases Option.some.inj hs
  exact hu.call p

/-- Every process is idle on what is in its queues. -/
structure EncodeNet.Idle (c : Config) (n : EncodeNet) : Prop where
  extract : extractIpAddress c.regSubNetMask c.regDefaultGateway n.extract n.dataIn = (n.extract, n.dataIn, {})
  table : arpTable n.replies n.arpTableOut = (n.replies, n.arpTableOut, [])
  compute : macComputeIpv4Checksum true n.compute n.dataStreamBuffer0 = (n.compute, n.dataStreamBuffer0, {})
  finalize : macFinalizeIpv4Checksum () n.subSumFifo = ((), n.subSumFifo, [])
  insert : insertIpChecksum n.insert ⟨n.dataStreamBuffer1, n.checksumFifo⟩ =
    (n.insert, ⟨n.dataStreamBuffer1, n.checksumFifo⟩, [])
  handle : handleArpReply c.myMacAddress n.handle ⟨n.arpTableIn, n.dataStreamBuffer2⟩ =
    (n.handle, ⟨n.arpTableIn, n.dataStreamBuffer2⟩, {})
  lshift : macLshiftWordByOctet 64 n.lshift n.dataStreamBuffer3 = (n.lshift, n.dataStreamBuffer3, [])
  ethernet : insertEthernetHeader n.ethernet ⟨n.headerFifo, n.dataStreamBuffer4⟩ =
    (n.ethernet, ⟨n.headerFifo, n.dataStreamBuffer4⟩, [])

-- a queue that does not change gets nothing
theorem EncodeNet.AtRest.idle (h : n.AtRest c) : n.Idle c where
  extract := by
    have hcall := h .extract
    exact Prod.ext (congrArg EncodeNet.extract hcall) (Prod.ext (congrArg dataIn hcall) (ExtractOut.ext
      (List.append_right_eq_self.mp (congrArg dataStreamBuffer0 hcall))
      (List.append_right_eq_self.mp (congrArg arpTableOut hcall))))
  table := by
    have hcall := h .table
    exact Prod.ext (congrArg replies hcall) (Prod.ext (congrArg arpTableOut hcall)
      (List.append_right_eq_self.mp (congrArg arpTableIn hcall)))
  compute := by
    have hcall := h .compute
    exact Prod.ext (congrArg EncodeNet.compute hcall) (Prod.ext (congrArg dataStreamBuffer0 hcall) (Ipv4.SumsOut.ext
      (List.append_right_eq_self.mp (congrArg dataStreamBuffer1 hcall))
      (List.append_right_eq_self.mp (congrArg subSumFifo hcall))))
  finalize := by
    have hcall := h .finalize
    exact Prod.ext rfl (Prod.ext (congrArg subSumFifo hcall)
      (List.append_right_eq_self.mp (congrArg checksumFifo hcall)))
  insert := by
    have hcall := h .insert
    exact Prod.ext (congrArg EncodeNet.insert hcall) (Prod.ext (InsertIn.ext (congrArg dataStreamBuffer1 hcall)
      (congrArg checksumFifo hcall)) (List.append_right_eq_self.mp (congrArg dataStreamBuffer2 hcall)))
  handle := by
    have hcall := h .handle
    exact Prod.ext (congrArg EncodeNet.handle hcall) (Prod.ext (HandleIn.ext (congrArg arpTableIn hcall)
      (congrArg dataStreamBuffer2 hcall)) (HandleOut.ext (List.append_right_eq_self.mp (congrArg headerFifo hcall))
      (List.append_right_eq_self.mp (congrArg dataStreamBuffer3 hcall))))
  lshift := by
    have hcall := h .lshift
    exact Prod.ext (congrArg EncodeNet.lshift hcall) (Prod.ext (congrArg dataStreamBuffer3 hcall)
      (List.append_right_eq_self.mp (congrArg dataStreamBuffer4 hcall)))
  ethernet := by
    have hcall := h .ethernet
    exact Prod.ext (congrArg EncodeNet.ethernet hcall) (Prod.ext (EthernetIn.ext (congrArg headerFifo hcall)
      (congrArg dataStreamBuffer4 hcall)) (List.append_right_eq_self.mp (congrArg dataOut hcall)))

theorem EncodeNet.Idle.at_rest (h : n.Idle c) : n.AtRest c := by
  intro p
  cases p with
  | extract => simp [EncodeNet.call, h.extract]
  | table => simp [EncodeNet.call, h.table]
  | compute => simp [EncodeNet.call, h.compute]
  | finalize => simp [EncodeNet.call, h.finalize]
  | insert => simp [EncodeNet.call, h.insert]
  | handle => simp [EncodeNet.call, h.handle]
  | lshift => simp [EncodeNet.call, h.lshift]
  | ethernet => simp [EncodeNet.call, h.ethernet]

theorem Finishes.at_rest (h : Finishes c n data) (hrest : n.AtRest c) : n.dataOut = data := by
  obtain ⟨extract, table, compute, finalize, insert, handle, lshift, ethernet⟩ := h
  have hidle := hrest.idle
  obtain ⟨-, -, hxo⟩ := extract.at_rest hidle.extract
  rw [flatMap_idle rfl hxo, List.append_nil] at table compute
  obtain ⟨-, -, hao⟩ := table.at_rest hidle.table
  obtain ⟨-, -, hco⟩ := compute.at_rest hidle.compute
  rw [flatMap_idle rfl hco, List.append_nil] at finalize
  obtain ⟨-, -, hfo⟩ := finalize.at_rest hidle.finalize
  rw [flatMap_idle rfl hco, List.flatten_eq_nil_iff.mpr hfo, List.append_nil, List.append_nil] at insert
  obtain ⟨-, -, hio⟩ := insert.at_rest hidle.insert
  rw [List.flatten_eq_nil_iff.mpr hao, List.flatten_eq_nil_iff.mpr hio, List.append_nil, List.append_nil] at handle
  obtain ⟨-, -, hho⟩ := handle.at_rest hidle.handle
  rw [flatMap_idle rfl hho, List.append_nil] at lshift
  obtain ⟨-, -, hlo⟩ := lshift.at_rest hidle.lshift
  rw [flatMap_idle rfl hho, List.flatten_eq_nil_iff.mpr hlo, List.append_nil, List.append_nil] at ethernet
  obtain ⟨-, -, heo⟩ := ethernet.at_rest hidle.ethernet
  rw [List.flatten_eq_nil_iff.mpr heo, List.append_nil]

/-! ## One process after the other -/

section

variable (c : Config) (n : EncodeNet)

theorem run_extract : ∀ os t i,
    Runs (extractIpAddress c.regSubNetMask c.regDefaultGateway) n.extract n.dataIn os t i →
    Reach (EncodeNet.step c) anyStep n
      { n with
        extract := t
        dataIn := i
        dataStreamBuffer0 := n.dataStreamBuffer0 ++ os.flatMap (·.dataOut)
        arpTableOut := n.arpTableOut ++ os.flatMap (·.arpTableOut) } :=
  Runs.reach Proc.extract (fun s i os => by simp [EncodeNet.step, EncodeNet.call]) (by simp)

theorem run_table : ∀ os t i, Runs arpTable n.replies n.arpTableOut os t i →
    Reach (EncodeNet.step c) anyStep n
      { n with replies := t, arpTableOut := i, arpTableIn := n.arpTableIn ++ os.flatten } :=
  Runs.reach Proc.table (fun s i os => by simp [EncodeNet.step, EncodeNet.call]) (by simp)

theorem run_compute : ∀ os t i, Runs (macComputeIpv4Checksum true) n.compute n.dataStreamBuffer0 os t i →
    Reach (EncodeNet.step c) anyStep n
      { n with
        compute := t
        dataStreamBuffer0 := i
        dataStreamBuffer1 := n.dataStreamBuffer1 ++ os.flatMap (·.dataOut)
        subSumFifo := n.subSumFifo ++ os.flatMap (·.subSumFifoOut) } :=
  Runs.reach Proc.compute (fun s i os => by simp [EncodeNet.step, EncodeNet.call]) (by simp)

theorem run_finalize : ∀ os t i, Runs macFinalizeIpv4Checksum () n.subSumFifo os t i →
    Reach (EncodeNet.step c) anyStep n { n with subSumFifo := i, checksumFifo := n.checksumFifo ++ os.flatten } :=
  Runs.reach Proc.finalize (fun s i os => by simp [EncodeNet.step, EncodeNet.call]) (by simp)

theorem run_insert : ∀ os t i, Runs insertIpChecksum n.insert ⟨n.dataStreamBuffer1, n.checksumFifo⟩ os t i →
    Reach (EncodeNet.step c) anyStep n
      { n with
        insert := t
        dataStreamBuffer1 := i.dataIn
        checksumFifo := i.checksumFifoIn
        dataStreamBuffer2 := n.dataStreamBuffer2 ++ os.flatten } :=
  Runs.reach Proc.insert (fun s i os => by simp [EncodeNet.step, EncodeNet.call]) (by simp)

theorem run_handle : ∀ os t i,
    Runs (handleArpReply c.myMacAddress) n.handle ⟨n.arpTableIn, n.dataStreamBuffer2⟩ os t i →
    Reach (EncodeNet.step c) anyStep n
      { n with
        handle := t
        arpTableIn := i.arpTableIn
        dataStreamBuffer2 := i.dataIn
        headerFifo := n.headerFifo ++ os.flatMap (·.headerOut)
        dataStreamBuffer3 := n.dataStreamBuffer3 ++ os.flatMap (·.dataOut) } :=
  Runs.reach Proc.handle (fun s i os => by simp [EncodeNet.step, EncodeNet.call]) (by simp)

theorem run_lshift : ∀ os t i, Runs (macLshiftWordByOctet 64) n.lshift n.dataStreamBuffer3 os t i →
    Reach (EncodeNet.step c) anyStep n
      { n with lshift := t, dataStreamBuffer3 := i, dataStreamBuffer4 := n.dataStreamBuffer4 ++ os.flatten } :=
  Runs.reach Proc.lshift (fun s i os => by simp [EncodeNet.step, EncodeNet.call]) (by simp)

theorem run_ethernet : ∀ os t i, Runs insertEthernetHeader n.ethernet ⟨n.headerFifo, n.dataStreamBuffer4⟩ os t i →
    Reach (EncodeNet.step c) anyStep n
      { n with
        ethernet := t, headerFifo := i.headerIn, dataStreamBuffer4 := i.dataIn, dataOut := n.dataOut ++ os.flatten } :=
  Runs.reach Proc.ethernet (fun s i os => by simp [EncodeNet.step, EncodeNet.call]) (by simp)

end

/-- The system can come to rest: one process after the other is called as long as it has something to do. -/
theorem Finishes.rest (h : Finishes c n data) : ∃ t, Reach (EncodeNet.step c) anyStep n t ∧ t.AtRest c := by
  obtain ⟨extract, table, compute, finalize, insert, handle, lshift, ethernet⟩ := h
  have h1 := run_extract c n _ _ _ extract.run
  have h2 := h1.trans (run_table c _ _ _ _ table.run)
  have h3 := h2.trans (run_compute c _ _ _ _ compute.run)
  have h4 := h3.trans (run_finalize c _ _ _ _ finalize.run)
  have h5 := h4.trans (run_insert c _ _ _ _ insert.run)
  have h6 := h5.trans (run_handle c _ _ _ _ handle.run)
  have h7 := h6.trans (run_lshift c _ _ _ _ lshift.run)
  have h8 := h7.trans (run_ethernet c _ _ _ _ ethernet.run)
  exact ⟨_, h8, EncodeNet.Idle.at_rest ⟨extract.rest, table.rest, compute.rest, finalize.rest, insert.rest,
    handle.rest, lshift.rest, ethernet.rest⟩⟩

end FpgaNetworkStack.MacIpEncode
