import FpgaNetworkStack.Arp.Lookups
import FpgaNetworkStack.Roce.TxHeaders
import FpgaNetworkStack.Toe.BufferWords

/-!
# The packets of the ARP server (`arp_server_subnet.cpp`)

`generate_arp_pkg` fills in the fields of the header that the constructor leaves open and sends its 42 bytes in words of
`N` bytes.  What it sends, `process_arp_pkg` reads back.
-/

namespace FpgaNetworkStack.Arp

open Lib
open Roce (PacketHeader Parsed packetNat parsed_clear headerWord testBit_packetNat_append)
open Toe (AxiWord lenToKeep)

variable {N : Nat}

def BROADCAST_MAC : BitVec 48 := 0xFFFFFFFFFFFF

/-- A header with the fields that are set for a packet; the types and lengths stay. -/
def Header.set (header : Header) (dstMac srcMac : BitVec 48) (op : BitVec 16) (senderHw : BitVec 48)
    (senderProto : BitVec 32) (targetHw : BitVec 48) (targetProto : BitVec 32) : Header :=
  targetProto ++ (targetHw ++ (senderProto ++ (senderHw ++ (op ++ (header.extractLsb' 96 64 ++ (srcMac ++ dstMac))))))

/-! ## `generate_arp_pkg` -/

inductive ArpSendStateType where
  | IDLE | HEADER | PARTIAL_HEADER
  deriving DecidableEq, Repr

structure GenerateArpPkg where
  gapState : ArpSendStateType := .IDLE
  header : Header := initialHeader
  /-- Words of the header that were taken. -/
  idx : Nat := 0
  remainingLength : Nat := 0

structure GenerateArpPkgIn where
  arpReplyMetaFifo : List ArpReplyMeta := []
  arpRequestMetaFifo : List (BitVec 32) := []

def GenerateArpPkg.send (N : Nat) (s : GenerateArpPkg) : GenerateArpPkg × List (AxiWord N) :=
  match s.gapState with
  | .IDLE => (s, [])
  | .HEADER =>
    let remaining := Roce.remainingLength (8 * N) ARP_HEADER_SIZE s.idx
    if ARP_HEADER_SIZE < 8 * N then
      ({ s with gapState := .IDLE, idx := s.idx + 1, remainingLength := remaining },
        [⟨headerWord (8 * N) s.header s.idx, lenToKeep N (ARP_HEADER_SIZE / 8), true⟩])
    else
      ({ s with
          gapState := if remaining < N then .PARTIAL_HEADER else .HEADER
          idx := s.idx + 1
          remainingLength := remaining },
        [⟨headerWord (8 * N) s.header s.idx, BitVec.allOnes N, false⟩])
  | .PARTIAL_HEADER =>
    ({ s with gapState := .IDLE, idx := s.idx + 1 },
      [⟨headerWord (8 * N) s.header s.idx, lenToKeep N s.remainingLength, true⟩])

/-- One call of `generate_arp_pkg`; the header is cleared when a packet begins. -/
def generateArpPkg (N : Nat) (myMacAddress : BitVec 48) (myIpAddress : BitVec 32) (s : GenerateArpPkg)
    (i : GenerateArpPkgIn) : GenerateArpPkg × GenerateArpPkgIn × List (AxiWord N) :=
  match s.gapState with
  | .IDLE =>
    match i.arpReplyMetaFifo, i.arpRequestMetaFifo with
    | replyMeta :: rest, _ =>
      ({ s with
          gapState := .HEADER
          header := s.header.set replyMeta.srcMacAddr myMacAddress ARP_OP_REPLY myMacAddress myIpAddress
            replyMeta.senderHwAddr replyMeta.senderProtoAddr
          idx := 0 },
        { i with arpReplyMetaFifo := rest }, [])
    | [], inputIP :: rest =>
      ({ s with
          gapState := .HEADER
          header := s.header.set BROADCAST_MAC myMacAddress ARP_OP_REQUEST myMacAddress myIpAddress 0 inputIP
          idx := 0 },
        { i with arpRequestMetaFifo := rest }, [])
    | [], [] => (s, i, [])
  | .HEADER | .PARTIAL_HEADER => ((s.send N).1, i, (s.send N).2)

/-! ## The header -/

/-- The types and lengths are those of ARP for IPv4 over Ethernet. -/
def Header.Standard (header : Header) : Prop := header.extractLsb' 96 64 = initialHeader.extractLsb' 96 64

instance (header : Header) : Decidable header.Standard := inferInstanceAs (Decidable (_ = _))

section

variable (targetProto : BitVec 32) (targetHw : BitVec 48) (senderProto : BitVec 32) (senderHw : BitVec 48) (op : BitVec 16)
  (types : BitVec 64) (srcMac dstMac : BitVec 48)

def fields : Header := targetProto ++ (targetHw ++ (senderProto ++ (senderHw ++ (op ++ (types ++ (srcMac ++ dstMac))))))

theorem skip_field {v w start width : Nat} (hi : BitVec v) (lo : BitVec w) (h : start + width ≤ w) :
    (hi ++ lo).extractLsb' start width = lo.extractLsb' start width := BitVec.extractLsb'_append_eq_of_add_le h

theorem first_field {v w : Nat} (hi : BitVec v) (lo : BitVec w) : (hi ++ lo).extractLsb' w v = hi :=
  BitVec.extractLsb'_append_eq_left

/-- Each field is found at its place: those above it are skipped. -/
theorem extract_fields :
    let header := fields targetProto targetHw senderProto senderHw op types srcMac dstMac
    header.extractLsb' 0 48 = dstMac ∧ header.extractLsb' 48 48 = srcMac ∧ header.extractLsb' 96 64 = types ∧
      header.extractLsb' 160 16 = op ∧ header.extractLsb' 176 48 = senderHw ∧ header.extractLsb' 224 32 = senderProto ∧
      header.extractLsb' 256 48 = targetHw ∧ header.extractLsb' 304 32 = targetProto := by
  have hproto {k n : Nat} (hk : k + n ≤ 224) :
      (fields targetProto targetHw senderProto senderHw op types srcMac dstMac).extractLsb' k n =
        (senderHw ++ (op ++ (types ++ (srcMac ++ dstMac)))).extractLsb' k n :=
    (skip_field targetProto _ (by omega)).trans ((skip_field targetHw _ (by omega)).trans
      (skip_field senderProto (senderHw ++ (op ++ (types ++ (srcMac ++ dstMac)))) hk))
  have htypes {k n : Nat} (hk : k + n ≤ 160) :
      (senderHw ++ (op ++ (types ++ (srcMac ++ dstMac)))).extractLsb' k n = (types ++ (srcMac ++ dstMac)).extractLsb' k n :=
    (skip_field senderHw _ (by omega)).trans (skip_field op _ hk)
  refine ⟨?_, ?_, ?_, ?_, ?_, ?_, ?_, ?_⟩
  · exact (hproto (by decide)).trans ((htypes (by decide)).trans ((skip_field types (srcMac ++ dstMac) (by decide)).trans
      ((skip_field srcMac dstMac (by decide)).trans BitVec.extractLsb'_eq_self)))
  · exact (hproto (by decide)).trans ((htypes (by decide)).trans
      ((skip_field types (srcMac ++ dstMac) (by decide)).trans (first_field srcMac dstMac)))
  · exact (hproto (by decide)).trans ((htypes (by decide)).trans (first_field types (srcMac ++ dstMac)))
  · exact (hproto (by decide)).trans ((skip_field senderHw (op ++ (types ++ (srcMac ++ dstMac))) (by decide)).trans
      (first_field op (types ++ (srcMac ++ dstMac))))
  · exact (hproto (by decide)).trans (first_field senderHw (op ++ (types ++ (srcMac ++ dstMac))))
  · exact (skip_field targetProto (targetHw ++ (senderProto ++ (senderHw ++ (op ++ (types ++ (srcMac ++ dstMac))))))
      (by decide)).trans ((skip_field targetHw (senderProto ++ (senderHw ++ (op ++ (types ++ (srcMac ++ dstMac)))))
        (by decide)).trans (first_field senderProto (senderHw ++ (op ++ (types ++ (srcMac ++ dstMac))))))
  · exact (skip_field targetProto (targetHw ++ (senderProto ++ (senderHw ++ (op ++ (types ++ (srcMac ++ dstMac))))))
      (by decide)).trans (first_field targetHw (senderProto ++ (senderHw ++ (op ++ (types ++ (srcMac ++ dstMac))))))
  · exact first_field targetProto (targetHw ++ (senderProto ++ (senderHw ++ (op ++ (types ++ (srcMac ++ dstMac))))))

end

/-- What is found in a header that was filled in. -/
structure Header.Filled (header : Header) (dstMac srcMac : BitVec 48) (op : BitVec 16) (senderHw : BitVec 48)
    (senderProto : BitVec 32) (targetHw : BitVec 48) (targetProto : BitVec 32) : Prop where
  dstMac : header.extractLsb' 0 48 = dstMac
  srcMac : header.getSrcMacAddr = srcMac
  types : header.Standard
  operation : header.operation = op
  senderHw : header.getSenderHwAddr = senderHw
  senderProto : header.getSenderProtoAddr = senderProto
  targetHw : header.extractLsb' 256 48 = targetHw
  targetProto : header.getTargetProtoAddr = targetProto

theorem Header.Standard.set {header : Header} (h : header.Standard) (dstMac srcMac : BitVec 48) (op : BitVec 16)
    (senderHw : BitVec 48) (senderProto : BitVec 32) (targetHw : BitVec 48) (targetProto : BitVec 32) :
    (header.set dstMac srcMac op senderHw senderProto targetHw targetProto).Filled dstMac srcMac op senderHw senderProto
      targetHw targetProto := by
  obtain ⟨hdst, hsrc, htypes, hop, hhw, hproto, htargetHw, htarget⟩ := extract_fields targetProto targetHw senderProto
    senderHw op (header.extractLsb' 96 64) srcMac dstMac
  exact ⟨hdst, hsrc, htypes.trans h, hop, hhw, hproto, htargetHw, htarget⟩

/-! ## The words of a header -/

def headerWords (N : Nat) (header : Header) : List (AxiWord N) :=
  (List.range (41 / N + 1)).map fun k =>
    ⟨headerWord (8 * N) header k, if k = 41 / N then lenToKeep N (42 - k * N) else BitVec.allOnes N, decide (k = 41 / N)⟩

theorem send_header (hN : N ∈ [8, 16, 32, 64]) {ι : Type} {f : GenerateArpPkg → ι → GenerateArpPkg × ι × List (AxiWord N)}
    (hf : ∀ s i, s.gapState ≠ .IDLE → f s i = ((s.send N).1, i, (s.send N).2)) (header : Header) (remaining : Nat) (i : ι) :
    ∃ os t, Runs f ⟨.HEADER, header, 0, remaining⟩ i os t i ∧ t.gapState = .IDLE ∧ t.header = header ∧
      os.flatten = headerWords N header := by
  have hwidth : N = 8 ∨ N = 16 ∨ N = 32 ∨ N = 64 := by simpa using hN
  have hword (k r : Nat) (h : ¬ARP_HEADER_SIZE < 8 * N) : f ⟨.HEADER, header, k, r⟩ i =
      (⟨if Roce.remainingLength (8 * N) ARP_HEADER_SIZE k < N then .PARTIAL_HEADER else .HEADER, header, k + 1,
        Roce.remainingLength (8 * N) ARP_HEADER_SIZE k⟩, i, [⟨headerWord (8 * N) header k, BitVec.allOnes N, false⟩]) := by
    rw [hf _ i (by simp), GenerateArpPkg.send]
    simp only [if_neg h]
  have hend (k r : Nat) : f ⟨.PARTIAL_HEADER, header, k, r⟩ i =
      (⟨.IDLE, header, k + 1, r⟩, i, [⟨headerWord (8 * N) header k, lenToKeep N r, true⟩]) := hf _ i (by simp)
  rcases hwidth with rfl | rfl | rfl | rfl
  · exact ⟨_, _, .call (hword 0 _ (by decide)) (.call (hword 1 34 (by decide)) (.call (hword 2 26 (by decide))
      (.call (hword 3 18 (by decide)) (.call (hword 4 10 (by decide)) (.one (hend 5 2)))))), rfl, rfl, rfl⟩
  · exact ⟨_, _, .call (hword 0 _ (by decide)) (.call (hword 1 26 (by decide)) (.one (hend 2 10))), rfl, rfl, rfl⟩
  · exact ⟨_, _, .call (hword 0 _ (by decide)) (.one (hend 1 10)), rfl, rfl, rfl⟩
  · have hwhole : f ⟨.HEADER, header, 0, remaining⟩ i = (⟨.IDLE, header, 1, 0⟩, i,
        [⟨headerWord (8 * 64) header 0, lenToKeep 64 42, true⟩]) := hf _ i (by simp)
    exact ⟨_, _, .one hwhole, rfl, rfl, rfl⟩

theorem testBit_headerWords {W size : Nat} (header : BitVec size) (n i : Nat) :
    (packetNat ((List.range n).map fun k => headerWord W header k)).testBit i = (decide (i < n * W) && header.getLsbD i) := by
  induction n with
  | zero => simp [packetNat]
  | succ n ih =>
    rw [List.range_succ, List.map_append, List.map_singleton, testBit_packetNat_append, List.length_map, List.length_range,
      ih, headerWord, BitVec.getLsbD_extractLsb', Nat.succ_mul]
    by_cases hlow : i < n * W
    · have hlt : i < n * W + W := Nat.lt_add_right W hlow
      rw [if_pos hlow, decide_eq_true hlow, decide_eq_true hlt]
    · have hsum : n * W + (i - n * W) = i := by omega
      have hiff : i - n * W < W ↔ i < n * W + W := by omega
      rw [if_neg hlow, hsum, decide_eq_decide.mpr hiff]

def headerOf (ws : List (AxiWord N)) : Header := BitVec.ofNat ARP_HEADER_SIZE (packetNat (ws.map (·.data)))

theorem headerOf_headerWords (hN : N ∈ [8, 16, 32, 64]) (header : Header) : headerOf (headerWords N header) = header := by
  have hwidth : N = 8 ∨ N = 16 ∨ N = 32 ∨ N = 64 := by simpa using hN
  have hlong : ARP_HEADER_SIZE ≤ (41 / N + 1) * (8 * N) := by rcases hwidth with rfl | rfl | rfl | rfl <;> decide
  have hdata : (headerWords N header).map (·.data) = (List.range (41 / N + 1)).map fun k => headerWord (8 * N) header k := by
    rw [headerWords, List.map_map]
    rfl
  apply BitVec.eq_of_getLsbD_eq
  intro i hi
  have hlt : i < (41 / N + 1) * (8 * N) := Nat.lt_of_lt_of_le hi hlong
  rw [headerOf, hdata, BitVec.getLsbD_ofNat, testBit_headerWords, decide_eq_true hi, decide_eq_true hlt]
  simp only [Bool.true_and]

/-! ## One packet through `process_arp_pkg` -/

/-- The words of one packet. -/
inductive Closed : List (AxiWord N) → Prop
  | last {w : AxiWord N} (h : w.last = true) : Closed [w]
  | cons {w : AxiWord N} {ws : List (AxiWord N)} (h : w.last = false) (rest : Closed ws) : Closed (w :: ws)

theorem closed_headerWords (hN : N ∈ [8, 16, 32, 64]) (header : Header) : Closed (headerWords N header) := by
  have hwidth : N = 8 ∨ N = 16 ∨ N = 32 ∨ N = 64 := by simpa using hN
  rcases hwidth with rfl | rfl | rfl | rfl
  · exact .cons rfl (.cons rfl (.cons rfl (.cons rfl (.cons rfl (.last rfl)))))
  · exact .cons rfl (.cons rfl (.last rfl))
  · exact .cons rfl (.last rfl)
  · exact .last rfl

def answers (myIpAddress : BitVec 32) (header : Header) : List ArpReplyMeta :=
  if header.getTargetProtoAddr = myIpAddress ∧ header.operation = ARP_OP_REQUEST then
    [⟨header.getSrcMacAddr, header.getSenderHwAddr, header.getSenderProtoAddr⟩]
  else []

def learns (myIpAddress : BitVec 32) (header : Header) : List ArpTableEntry :=
  if header.getTargetProtoAddr = myIpAddress ∧ header.operation = ARP_OP_REPLY then
    [⟨header.getSenderProtoAddr, header.getSenderHwAddr, true⟩]
  else []

theorem actOn_eq (s : ProcessArpPkg N) (header : Header) (myIpAddress : BitVec 32) :
    (actOn s header myIpAddress).2 = ⟨answers myIpAddress header, learns myIpAddress header⟩ := by
  unfold actOn answers learns Header.isRequest Header.isReply
  have hother : ¬ARP_OP_REPLY = ARP_OP_REQUEST := by decide
  by_cases htarget : header.getTargetProtoAddr = myIpAddress
  · by_cases hrequest : header.operation = ARP_OP_REQUEST
    · simp [htarget, hrequest, Ne.symm hother]
    · by_cases hreply : header.operation = ARP_OP_REPLY
      · simp [htarget, hreply, hother]
      · simp [htarget, hrequest, hreply]
  · simp [htarget]

/-- What is written for a packet. -/
structure Acted (myIpAddress : BitVec 32) (header : Header) (os : List ProcessArpPkgOut) : Prop where
  arpReplyMetaFifo : os.flatMap (·.arpReplyMetaFifo) = answers myIpAddress header
  arpTableInsertFifo : os.flatMap (·.arpTableInsertFifo) = learns myIpAddress header

section

variable (myIpAddress : BitVec 32)

def receive (s : ProcessArpPkg N) (dataIn : List (AxiWord N)) : ProcessArpPkg N × List (AxiWord N) × ProcessArpPkgOut :=
  processArpPkg s dataIn myIpAddress

/-- The process is between two packets. -/
def ProcessArpPkg.Idle (s : ProcessArpPkg N) : Prop := Parsed s.header []

theorem ProcessArpPkg.idle_init : ({} : ProcessArpPkg N).Idle := parsed_clear (by decide) { header := initialHeader }

theorem receive_waits : Waits (receive (N := N) myIpAddress) {} := by
  intro s dataIn
  cases dataIn with
  | nil => exact .inl rfl
  | cons word rest =>
    refine .inr fun more => ?_
    obtain ⟨data, keep, last⟩ := word
    cases last <;> rfl

/-- One packet: what it says is done at its last word.  Induction on the words, behind the words `us`. -/
theorem receive_packet {ws : List (AxiWord N)} (h : Closed ws) (rest : List (AxiWord N)) :
    ∀ {us : List (AxiWord N)} {s : ProcessArpPkg N}, Parsed s.header (us.map (·.data)) →
      ARP_HEADER_SIZE ≤ (us ++ ws).length * (8 * N) →
      ∃ os t, Runs (receive myIpAddress) s (ws ++ rest) os t rest ∧ t.Idle ∧ Acted myIpAddress (headerOf (us ++ ws)) os := by
  induction h with
  | @last w hlast =>
    intro us s hs hfull
    have hnext := hs.parseWord w.data
    rw [← List.map_singleton, ← List.map_append] at hnext
    have hheader : (s.header.parseWord w.data).header = headerOf (us ++ [w]) := by
      refine hnext.header_eq ?_
      rw [List.length_map]
      exact hfull
    have hact := actOn_eq s (s.header.parseWord w.data).header myIpAddress
    have hcall : receive myIpAddress s (w :: rest) =
        ({ (actOn s (s.header.parseWord w.data).header myIpAddress).1 with header := (s.header.parseWord w.data).clear },
          rest, (actOn s (s.header.parseWord w.data).header myIpAddress).2) := by
      simp [receive, processArpPkg, hlast]
    refine ⟨_, _, .one hcall, parsed_clear (by decide) _, ?_, ?_⟩
    · rw [List.flatMap_singleton, hact, hheader]
    · rw [List.flatMap_singleton, hact, hheader]
  | @cons w ws hlast _ ih =>
    intro us s hs hfull
    have hnext := hs.parseWord w.data
    rw [← List.map_singleton, ← List.map_append] at hnext
    have hcall : receive myIpAddress s (w :: (ws ++ rest)) =
        ({ s with header := s.header.parseWord w.data }, ws ++ rest, {}) := by
      simp [receive, processArpPkg, hlast]
    have hall : us ++ w :: ws = (us ++ [w]) ++ ws := by rw [List.append_assoc, List.singleton_append]
    rw [hall] at hfull ⊢
    obtain ⟨os, t, hrun, ht, hacted⟩ := ih (s := { s with header := s.header.parseWord w.data }) hnext hfull
    refine ⟨_, t, .call hcall hrun, ht, ?_, ?_⟩
    · rw [List.flatMap_cons, hacted.arpReplyMetaFifo]
      rfl
    · rw [List.flatMap_cons, hacted.arpTableInsertFifo]
      rfl

/-! ## All packets -/

/-- A packet with all bytes of the header. -/
structure Complete (ws : List (AxiWord N)) : Prop where
  closed : Closed ws
  header : Frame.complete ws = true

theorem receive_completes {β : Type} {g : ProcessArpPkgOut → List β} (hg : g {} = []) (h : Header → List β)
    (hone : ∀ header os, Acted myIpAddress header os → os.flatMap g = h header) {fs : List (List (AxiWord N))}
    (hfs : ∀ ws ∈ fs, Complete ws) :
    Completes (receive myIpAddress) {} g ProcessArpPkg.Idle {} [] fs.flatten (fs.flatMap fun ws => h (headerOf ws)) := by
  have hcompletes := completes_each (Q := Complete) (fun ws => h (headerOf ws)) List.flatten (receive_waits myIpAddress) hg
    rfl (fun s _ => rfl) (fun s ws fs hs hws => by
      obtain ⟨os, t, hrun, ht, hacted⟩ := @receive_packet _ myIpAddress _ hws.closed fs.flatten [] _ hs
        (complete_length hws.header)
      exact ⟨os, t, hrun, ht, hone _ _ hacted⟩) fs ProcessArpPkg.idle_init hfs
  exact hcompletes

end

/-! ## `generate_arp_pkg` with one of its inputs -/

section

variable (N) (myMacAddress : BitVec 48) (myIpAddress : BitVec 32)

def sendReplies (s : GenerateArpPkg) (metas : List ArpReplyMeta) : GenerateArpPkg × List ArpReplyMeta × List (AxiWord N) :=
  let (s, i, out) := generateArpPkg N myMacAddress myIpAddress s ⟨metas, []⟩
  (s, i.arpReplyMetaFifo, out)

def sendRequests (s : GenerateArpPkg) (ips : List (BitVec 32)) : GenerateArpPkg × List (BitVec 32) × List (AxiWord N) :=
  let (s, i, out) := generateArpPkg N myMacAddress myIpAddress s ⟨[], ips⟩
  (s, i.arpRequestMetaFifo, out)

structure GenerateArpPkg.Idle (s : GenerateArpPkg) : Prop where
  gapState : s.gapState = .IDLE
  standard : s.header.Standard

theorem GenerateArpPkg.idle_init : ({} : GenerateArpPkg).Idle := ⟨rfl, rfl⟩

variable {N}

theorem sendReplies_waits : Waits (sendReplies N myMacAddress myIpAddress) [] := by
  intro s metas
  obtain ⟨state, header, idx, remaining⟩ := s
  cases state with
  | IDLE =>
    cases metas with
    | nil => exact .inl rfl
    | cons m metas => exact .inr fun more => rfl
  | HEADER | PARTIAL_HEADER => exact .inr fun more => rfl

theorem sendRequests_waits : Waits (sendRequests N myMacAddress myIpAddress) [] := by
  intro s ips
  obtain ⟨state, header, idx, remaining⟩ := s
  cases state with
  | IDLE =>
    cases ips with
    | nil => exact .inl rfl
    | cons m metas => exact .inr fun more => rfl
  | HEADER | PARTIAL_HEADER => exact .inr fun more => rfl

def replyHeader (replyMeta : ArpReplyMeta) : Header :=
  initialHeader.set replyMeta.srcMacAddr myMacAddress ARP_OP_REPLY myMacAddress myIpAddress replyMeta.senderHwAddr
    replyMeta.senderProtoAddr

def requestHeader (inputIP : BitVec 32) : Header :=
  initialHeader.set BROADCAST_MAC myMacAddress ARP_OP_REQUEST myMacAddress myIpAddress 0 inputIP

variable {myMacAddress myIpAddress}

theorem Header.Standard.set_eq {header : Header} (h : header.Standard) (dstMac srcMac : BitVec 48) (op : BitVec 16)
    (senderHw : BitVec 48) (senderProto : BitVec 32) (targetHw : BitVec 48) (targetProto : BitVec 32) :
    header.set dstMac srcMac op senderHw senderProto targetHw targetProto =
      initialHeader.set dstMac srcMac op senderHw senderProto targetHw targetProto := by
  unfold Header.set
  rw [show header.extractLsb' 96 64 = initialHeader.extractLsb' 96 64 from h]

theorem standard_initialHeader : Header.Standard initialHeader := rfl

variable (myMacAddress myIpAddress)

theorem filled_reply (replyMeta : ArpReplyMeta) :
    (replyHeader myMacAddress myIpAddress replyMeta).Filled replyMeta.srcMacAddr myMacAddress ARP_OP_REPLY myMacAddress
      myIpAddress replyMeta.senderHwAddr replyMeta.senderProtoAddr := standard_initialHeader.set _ _ _ _ _ _ _

theorem filled_request (inputIP : BitVec 32) :
    (requestHeader myMacAddress myIpAddress inputIP).Filled BROADCAST_MAC myMacAddress ARP_OP_REQUEST myMacAddress myIpAddress
      0 inputIP :=
  standard_initialHeader.set _ _ _ _ _ _ _

theorem sendReplies_completes (hN : N ∈ [8, 16, 32, 64]) (metas : List ArpReplyMeta) :
    Completes (sendReplies N myMacAddress myIpAddress) [] id GenerateArpPkg.Idle {} [] metas
      (metas.flatMap fun m => headerWords N (replyHeader myMacAddress myIpAddress m)) := by
  refine completes_each (Q := fun _ => True) _ (fun metas : List ArpReplyMeta => metas)
    (sendReplies_waits myMacAddress myIpAddress) rfl rfl ?_ ?_ metas GenerateArpPkg.idle_init fun _ _ => trivial
  · intro s hs
    simp only [sendReplies, generateArpPkg, hs.gapState]
  · intro s m metas hs _
    have htake : sendReplies N myMacAddress myIpAddress s (m :: metas) =
        (⟨.HEADER, replyHeader myMacAddress myIpAddress m, 0, s.remainingLength⟩, metas, []) := by
      simp only [sendReplies, generateArpPkg, hs.gapState, hs.standard.set_eq]
      rfl
    obtain ⟨os, t, hrun, ht, hheader, hos⟩ := send_header hN (f := sendReplies N myMacAddress myIpAddress)
      (fun s i hs => by
        cases hst : s.gapState with
        | IDLE => exact absurd hst hs
        | HEADER | PARTIAL_HEADER => simp only [sendReplies, generateArpPkg, hst])
      (replyHeader myMacAddress myIpAddress m) s.remainingLength metas
    refine ⟨_, t, .call htake hrun, ⟨ht, ?_⟩, ?_⟩
    · rw [hheader]
      exact (filled_reply _ _ m).types
    · rw [List.flatMap_id]
      exact hos

theorem sendRequests_completes (hN : N ∈ [8, 16, 32, 64]) (ips : List (BitVec 32)) :
    Completes (sendRequests N myMacAddress myIpAddress) [] id GenerateArpPkg.Idle {} [] ips
      (ips.flatMap fun ip => headerWords N (requestHeader myMacAddress myIpAddress ip)) := by
  refine completes_each (Q := fun _ => True) _ (fun ips : List (BitVec 32) => ips)
    (sendRequests_waits myMacAddress myIpAddress) rfl rfl ?_ ?_ ips GenerateArpPkg.idle_init fun _ _ => trivial
  · intro s hs
    simp only [sendRequests, generateArpPkg, hs.gapState]
  · intro s ip ips hs _
    have htake : sendRequests N myMacAddress myIpAddress s (ip :: ips) =
        (⟨.HEADER, requestHeader myMacAddress myIpAddress ip, 0, s.remainingLength⟩, ips, []) := by
      simp only [sendRequests, generateArpPkg, hs.gapState, hs.standard.set_eq]
      rfl
    obtain ⟨os, t, hrun, ht, hheader, hos⟩ := send_header hN (f := sendRequests N myMacAddress myIpAddress)
      (fun s i hs => by
        cases hst : s.gapState with
        | IDLE => exact absurd hst hs
        | HEADER | PARTIAL_HEADER => simp only [sendRequests, generateArpPkg, hst])
      (requestHeader myMacAddress myIpAddress ip) s.remainingLength ips
    refine ⟨_, t, .call htake hrun, ⟨ht, ?_⟩, ?_⟩
    · rw [hheader]
      exact (filled_request _ _ ip).types
    · rw [List.flatMap_id]
      exact hos

end

/-! ## A request and its answer -/

/-- The node `macA`, `ipA` asks for `ipB`, and the node `macB`, `ipB` answers: the first one learns the address of the
second one, and nothing else. -/
def Teaches (N : Nat) (macA : BitVec 48) (ipA : BitVec 32) (macB : BitVec 48) (ipB : BitVec 32) : Prop :=
  ∃ request metas reply,
    Completes (sendRequests N macA ipA) [] id GenerateArpPkg.Idle {} [] [ipB] request ∧
    Completes (receive ipB) {} (·.arpReplyMetaFifo) ProcessArpPkg.Idle ({} : ProcessArpPkg N) [] request metas ∧
    Completes (sendReplies N macB ipB) [] id GenerateArpPkg.Idle {} [] metas reply ∧
    Completes (receive ipA) {} (·.arpTableInsertFifo) ProcessArpPkg.Idle ({} : ProcessArpPkg N) [] reply
      [⟨ipB, macB, true⟩]

theorem complete_headerWords (hN : N ∈ [8, 16, 32, 64]) (header : Header) : Complete (headerWords N header) := by
  have hwidth : N = 8 ∨ N = 16 ∨ N = 32 ∨ N = 64 := by simpa using hN
  have hpos : 0 < N := by omega
  refine ⟨closed_headerWords hN header, List.all_eq_true.mpr fun k hk => ?_⟩
  have hk : k < 42 := List.mem_range.mp hk
  have hle : k / N ≤ 41 / N := Nat.div_le_div_right (by omega)
  have hmod : k % N < N := Nat.mod_lt k hpos
  have hsplit : k / N * N + k % N = k := Nat.div_add_mod' k N
  rw [headerWords, List.getElem?_map, List.getElem?_range (by omega), Option.map_some, Option.any_some]
  by_cases hlast : k / N = 41 / N
  · -- less than a whole word of 64 bytes is left
    have hrest : 0 < 42 - k / N * N ∧ 42 - k / N * N < 64 := by omega
    rw [if_pos hlast, Toe.lenToKeep_getLsbD hrest.1 hrest.2 hmod, decide_eq_true (by omega)]
  · rw [if_neg hlast, BitVec.getLsbD_allOnes, decide_eq_true hmod]

theorem teaches (hN : N ∈ [8, 16, 32, 64]) (macA : BitVec 48) (ipA : BitVec 32) (macB : BitVec 48) (ipB : BitVec 32) :
    Teaches N macA ipA macB ipB := by
  have hrequest := sendRequests_completes macA ipA hN [ipB]
  have hasked := receive_completes ipB (g := (·.arpReplyMetaFifo)) rfl (answers ipB)
    (fun header os hacted => hacted.arpReplyMetaFifo)
    (List.forall_mem_singleton.mpr (complete_headerWords hN (requestHeader macA ipA ipB)))
  have hreply := sendReplies_completes macB ipB hN [⟨macA, macA, ipA⟩]
  have hlearned := receive_completes ipA (g := (·.arpTableInsertFifo)) rfl (learns ipA)
    (fun header os hacted => hacted.arpTableInsertFifo)
    (List.forall_mem_singleton.mpr (complete_headerWords hN (replyHeader macB ipB ⟨macA, macA, ipA⟩)))
  have hq := filled_request macA ipA ipB
  have hr := filled_reply macB ipB ⟨macA, macA, ipA⟩
  have hanswers : answers ipB (requestHeader macA ipA ipB) = [⟨macA, macA, ipA⟩] := by
    rw [answers, if_pos ⟨hq.targetProto, hq.operation⟩, hq.srcMac, hq.senderHw, hq.senderProto]
  have hlearns : learns ipA (replyHeader macB ipB ⟨macA, macA, ipA⟩) = [⟨ipB, macB, true⟩] := by
    rw [learns, if_pos ⟨hr.targetProto, hr.operation⟩, hr.senderHw, hr.senderProto]
  rw [List.flatMap_singleton] at hrequest hasked hreply hlearned
  rw [List.flatten_singleton, headerOf_headerWords hN] at hasked hlearned
  rw [hanswers] at hasked
  rw [hlearns] at hlearned
  exact ⟨_, _, _, hrequest, hasked, hreply, hlearned⟩

end FpgaNetworkStack.Arp
