import FpgaNetworkStack.Arp.Sender
import FpgaNetworkStack.ArpServer.MacTable

/-!
# The packets of the other ARP server (`arp_server.cpp`)

`arp_pkg_receiver` and `arp_pkg_sender` take packets of 64-bit words apart and put them together by hand, word by word.
They are compared with the processes of `arp_server_subnet.cpp`.
-/

namespace FpgaNetworkStack.ArpServer

open Lib
open Arp (Header Closed Complete headerOf)
open Roce (packetNat headerWord testBit_packetNat_cons)
open Toe (AxiWord)

def REQUEST : BitVec 16 := 0x0100
def REPLY : BitVec 16 := 0x0200

def BROADCAST_MAC : BitVec 48 := 0xFFFFFFFFFFFF

structure ArpReplyMeta where
  srcMac : BitVec 48 := 0
  ethType : BitVec 16 := 0
  hwType : BitVec 16 := 0
  protoType : BitVec 16 := 0
  hwLen : BitVec 8 := 0
  protoLen : BitVec 8 := 0
  hwAddrSrc : BitVec 48 := 0
  protoAddrSrc : BitVec 32 := 0
  deriving DecidableEq

/-! ## `arp_pkg_receiver` -/

structure ArpPkgReceiver where
  wordCount : BitVec 16 := 0
  opCode : BitVec 16 := 0
  protoAddrDst : BitVec 32 := 0
  replyMeta : ArpReplyMeta := {}

structure ArpPkgReceiverOut where
  arpReplyMetaFifo : List ArpReplyMeta := []
  arpTableInsertFifo : List ArpTableEntry := []

/-- The fields in a word; the last bit of the sender's address is not read. -/
def ArpPkgReceiver.read (s : ArpPkgReceiver) (data : BitVec 64) : ArpPkgReceiver :=
  match s.wordCount.toNat with
  | 0 => { s with replyMeta.srcMac := s.replyMeta.srcMac.extractLsb' 16 32 ++ data.extractLsb' 48 16 }
  | 1 =>
    { s with
      replyMeta.srcMac := data.extractLsb' 0 32 ++ s.replyMeta.srcMac.extractLsb' 0 16
      replyMeta.ethType := data.extractLsb' 32 16
      replyMeta.hwType := data.extractLsb' 48 16 }
  | 2 =>
    { s with
      replyMeta.protoType := data.extractLsb' 0 16
      replyMeta.hwLen := data.extractLsb' 16 8
      replyMeta.protoLen := data.extractLsb' 24 8
      opCode := data.extractLsb' 32 16
      replyMeta.hwAddrSrc := s.replyMeta.hwAddrSrc.extractLsb' 16 32 ++ data.extractLsb' 48 16 }
  | 3 =>
    { s with
      replyMeta.hwAddrSrc := data.extractLsb' 0 32 ++ s.replyMeta.hwAddrSrc.extractLsb' 0 16
      replyMeta.protoAddrSrc := (data.extractLsb' 32 31).setWidth 32 }
  | 4 => { s with protoAddrDst := s.protoAddrDst.extractLsb' 16 16 ++ data.extractLsb' 48 16 }
  | 5 => { s with protoAddrDst := data.extractLsb' 0 16 ++ s.protoAddrDst.extractLsb' 0 16 }
  | _ => s

/-- What is done at the last word of a packet. -/
def ArpPkgReceiver.act (s : ArpPkgReceiver) (myIpAddress : BitVec 32) : ArpPkgReceiverOut :=
  if s.opCode = REQUEST ∧ s.protoAddrDst = myIpAddress then { arpReplyMetaFifo := [s.replyMeta] }
  else if s.opCode = REPLY ∧ s.protoAddrDst = myIpAddress then
    { arpTableInsertFifo := [⟨s.replyMeta.hwAddrSrc, s.replyMeta.protoAddrSrc, 1⟩] }
  else {}

def arpPkgReceiver (myIpAddress : BitVec 32) (s : ArpPkgReceiver) (arpDataIn : List (AxiWord 8)) :
    ArpPkgReceiver × List (AxiWord 8) × ArpPkgReceiverOut :=
  match arpDataIn with
  | [] => (s, [], {})
  | currWord :: rest =>
    let s := s.read currWord.data
    if currWord.last then ({ s with wordCount := 0 }, rest, s.act myIpAddress)
    else ({ s with wordCount := s.wordCount + 1 }, rest, {})

/-! ## `arp_pkg_sender` -/

inductive ArpSendStateType where
  | ARP_IDLE | ARP_REPLY | ARP_SENTRQ
  deriving DecidableEq, Repr

/-- `sendCount` is 0 whenever a packet begins. -/
structure ArpPkgSender where
  apsFsmState : ArpSendStateType := .ARP_IDLE
  sendCount : Fin 6 := 0
  replyMeta : ArpReplyMeta := {}
  inputIP : BitVec 32 := 0

structure ArpPkgSenderIn where
  arpReplyMetaFifo : List ArpReplyMeta := []
  arpRequestMetaFifo : List (BitVec 32) := []

section

variable (myMacAddress : BitVec 48) (myIpAddress : BitVec 32)

def replyWord (replyMeta : ArpReplyMeta) (sendCount : Fin 6) : AxiWord 8 :=
  match sendCount with
  | 0 => ⟨myMacAddress.extractLsb' 0 16 ++ replyMeta.srcMac, 0xff, false⟩
  | 1 => ⟨replyMeta.hwType ++ (replyMeta.ethType ++ myMacAddress.extractLsb' 16 32), 0xff, false⟩
  | 2 => ⟨myMacAddress.extractLsb' 0 16 ++ (REPLY ++ (replyMeta.protoLen ++ (replyMeta.hwLen ++ replyMeta.protoType))),
      0xff, false⟩
  | 3 => ⟨myIpAddress ++ myMacAddress.extractLsb' 16 32, 0xff, false⟩
  | 4 => ⟨replyMeta.protoAddrSrc.extractLsb' 0 16 ++ replyMeta.hwAddrSrc, 0xff, false⟩
  | 5 => ⟨(0 : BitVec 48) ++ replyMeta.protoAddrSrc.extractLsb' 16 16, 0x03, true⟩

def requestWord (inputIP : BitVec 32) (sendCount : Fin 6) : AxiWord 8 :=
  match sendCount with
  | 0 => ⟨myMacAddress.extractLsb' 0 16 ++ BROADCAST_MAC, 0xff, false⟩
  | 1 => ⟨(0x0100 : BitVec 16) ++ ((0x0608 : BitVec 16) ++ myMacAddress.extractLsb' 16 32), 0xff, false⟩
  | 2 => ⟨myMacAddress.extractLsb' 0 16 ++ (REQUEST ++ ((4 : BitVec 8) ++ ((6 : BitVec 8) ++ (0x0008 : BitVec 16)))),
      0xff, false⟩
  | 3 => ⟨myIpAddress ++ myMacAddress.extractLsb' 16 32, 0xff, false⟩
  | 4 => ⟨inputIP.extractLsb' 0 16 ++ (0 : BitVec 48), 0xff, false⟩
  | 5 => ⟨(0 : BitVec 48) ++ inputIP.extractLsb' 16 16, 0x03, true⟩

def arpPkgSender (s : ArpPkgSender) (i : ArpPkgSenderIn) : ArpPkgSender × ArpPkgSenderIn × List (AxiWord 8) :=
  match s.apsFsmState with
  | .ARP_IDLE =>
    match i.arpReplyMetaFifo, i.arpRequestMetaFifo with
    | replyMeta :: rest, _ =>
      ({ s with apsFsmState := .ARP_REPLY, sendCount := 0, replyMeta }, { i with arpReplyMetaFifo := rest }, [])
    | [], inputIP :: rest =>
      ({ s with apsFsmState := .ARP_SENTRQ, sendCount := 0, inputIP }, { i with arpRequestMetaFifo := rest }, [])
    | [], [] => (s, i, [])
  | .ARP_SENTRQ =>
    ({ s with apsFsmState := if s.sendCount = 5 then .ARP_IDLE else .ARP_SENTRQ, sendCount := s.sendCount + 1 }, i,
      [requestWord myMacAddress myIpAddress s.inputIP s.sendCount])
  | .ARP_REPLY =>
    ({ s with apsFsmState := if s.sendCount = 5 then .ARP_IDLE else .ARP_REPLY, sendCount := s.sendCount + 1 }, i,
      [replyWord myMacAddress myIpAddress s.replyMeta s.sendCount])

end

/-! ## Slices of a header -/

section

variable {w : Nat} (x : BitVec w)

theorem join_slices (start m n : Nat) :
    x.extractLsb' (start + m) n ++ x.extractLsb' start m = x.extractLsb' start (n + m) := by
  apply BitVec.eq_of_getLsbD_eq
  intro i hi
  rw [BitVec.getLsbD_append, BitVec.getLsbD_extractLsb', BitVec.getLsbD_extractLsb', BitVec.getLsbD_extractLsb',
    decide_eq_true hi]
  by_cases hlow : i < m
  · rw [if_pos hlow, decide_eq_true hlow]
  · have hsub : i - m < n := by omega
    have hsum : start + m + (i - m) = start + i := by omega
    rw [if_neg hlow, decide_eq_true hsub, hsum]

theorem slice_slice {start n k m : Nat} (h : k + m ≤ n) :
    (x.extractLsb' start n).extractLsb' k m = x.extractLsb' (start + k) m := by
  apply BitVec.eq_of_getLsbD_eq
  intro i hi
  have hlt : k + i < n := by omega
  rw [BitVec.getLsbD_extractLsb', BitVec.getLsbD_extractLsb', BitVec.getLsbD_extractLsb', decide_eq_true hlt,
    Bool.true_and, Nat.add_assoc]

end

theorem testBit_word {W : Nat} (ws : List (BitVec W)) {k : Nat} (hk : k < ws.length) {i : Nat} (hi : i < W) :
    (packetNat ws).testBit (W * k + i) = (ws[k]).getLsbD i := by
  induction ws generalizing k with
  | nil => exact absurd hk (Nat.not_lt_zero k)
  | cons w ws ih =>
    rw [testBit_packetNat_cons]
    cases k with
    | zero => rw [Nat.mul_zero, Nat.zero_add, if_pos hi, List.getElem_cons_zero]
    | succ k =>
      have hsub : W * (k + 1) + i - W = W * k + i := by
        rw [Nat.mul_succ]
        omega
      rw [if_neg (by rw [Nat.mul_succ]; omega), hsub, ih (Nat.lt_of_succ_lt_succ hk), List.getElem_cons_succ]

theorem slice_word {ws : List (AxiWord 8)} {k start n : Nat} (hk : k < ws.length) (hn : start + n ≤ 64)
    (hsize : 64 * k + start + n ≤ 336) :
    (ws[k]).data.extractLsb' start n = (headerOf ws).extractLsb' (64 * k + start) n := by
  apply BitVec.eq_of_getLsbD_eq
  intro i hi
  have hbit := testBit_word (ws.map (·.data)) (k := k) (by rw [List.length_map]; exact hk) (i := start + i)
    (by omega)
  have hlt : 64 * k + start + i < Arp.ARP_HEADER_SIZE := by
    show _ < 336
    omega
  have hsum : 8 * 8 * k + (start + i) = 64 * k + start + i := by omega
  rw [List.getElem_map, hsum] at hbit
  rw [BitVec.getLsbD_extractLsb', BitVec.getLsbD_extractLsb', headerOf, BitVec.getLsbD_ofNat, decide_eq_true hlt, hbit,
    Bool.true_and]

/-! ## One packet through `arp_pkg_receiver` -/

def metaOf (header : Header) : ArpReplyMeta where
  srcMac := header.getSrcMacAddr
  ethType := header.extractLsb' 96 16
  hwType := header.extractLsb' 112 16
  protoType := header.extractLsb' 128 16
  hwLen := header.extractLsb' 144 8
  protoLen := header.extractLsb' 152 8
  hwAddrSrc := header.getSenderHwAddr
  protoAddrSrc := (header.extractLsb' 224 31).setWidth 32

/-- The registers hold a header. -/
structure ArpPkgReceiver.Holds (s : ArpPkgReceiver) (header : Header) : Prop where
  opCode : s.opCode = header.operation
  protoAddrDst : s.protoAddrDst = header.getTargetProtoAddr
  replyMeta : s.replyMeta = metaOf header

/-- What is written for a packet. -/
structure Acted (myIpAddress : BitVec 32) (header : Header) (os : List ArpPkgReceiverOut) : Prop where
  arpReplyMetaFifo : os.flatMap (·.arpReplyMetaFifo) =
    if header.operation = REQUEST ∧ header.getTargetProtoAddr = myIpAddress then [metaOf header] else []
  arpTableInsertFifo : os.flatMap (·.arpTableInsertFifo) =
    if header.operation = REPLY ∧ header.getTargetProtoAddr = myIpAddress then
      [⟨(metaOf header).hwAddrSrc, (metaOf header).protoAddrSrc, 1⟩] else []

section

variable {s : ArpPkgReceiver} {ws : List (AxiWord 8)} {header : Header} (myIpAddress : BitVec 32)

theorem ArpPkgReceiver.Holds.acted (h : s.Holds header) : Acted myIpAddress header [s.act myIpAddress] := by
  have hother : ¬REPLY = REQUEST := by decide
  constructor
  · rw [List.flatMap_singleton, act, h.opCode, h.protoAddrDst, h.replyMeta]
    by_cases hrequest : header.operation = REQUEST ∧ header.getTargetProtoAddr = myIpAddress
    · rw [if_pos hrequest, if_pos hrequest]
    · rw [if_neg hrequest, if_neg hrequest]
      split <;> rfl
  · rw [List.flatMap_singleton, act, h.opCode, h.protoAddrDst, h.replyMeta]
    by_cases hreply : header.operation = REPLY ∧ header.getTargetProtoAddr = myIpAddress
    · rw [if_neg (by rw [hreply.1]; exact fun h => hother h.1), if_pos hreply, if_pos hreply]
    · rw [if_neg hreply, if_neg hreply]
      split <;> rfl

-- calls that write nothing in front
theorem Acted.after {os : List ArpPkgReceiverOut} (h : Acted myIpAddress header os) (n : Nat) :
    Acted myIpAddress header (List.replicate n (⟨[], []⟩ : ArpPkgReceiverOut) ++ os) := by
  induction n with
  | zero => exact h
  | succ n ih => exact ⟨ih.arpReplyMetaFifo, ih.arpTableInsertFifo⟩

/-- The words behind the header.  The counter does not come around to 0. -/
theorem receive_behind (h : Closed ws) (rest : List (AxiWord 8)) :
    ∀ {s : ArpPkgReceiver} (k : Nat), s.Holds header → s.wordCount = BitVec.ofNat 16 k → 6 ≤ k → k + ws.length ≤ 65536 →
      ∃ os t, Runs (arpPkgReceiver myIpAddress) s (ws ++ rest) os t rest ∧ t.wordCount = 0 ∧
        Acted myIpAddress header os := by
  have hread {s : ArpPkgReceiver} {k : Nat} (hcount : s.wordCount = BitVec.ofNat 16 k) (hk : 6 ≤ k) (hlt : k < 65536)
      (data : BitVec 64) : s.read data = s := by
    have hnat : s.wordCount.toNat = k := by
      rw [hcount, BitVec.toNat_ofNat]
      exact Nat.mod_eq_of_lt hlt
    unfold ArpPkgReceiver.read
    rw [hnat]
    split <;> first | omega | rfl
  induction h with
  | @last w hlast =>
    intro s k hs hcount hk hle
    rw [List.length_singleton] at hle
    have hcall : arpPkgReceiver myIpAddress s (w :: rest) = ({ s with wordCount := 0 }, rest, s.act myIpAddress) := by
      simp only [arpPkgReceiver, hread hcount hk (by omega), hlast, if_true]
    exact ⟨_, _, .one hcall, rfl, hs.acted myIpAddress⟩
  | @cons w ws hlast _ ih =>
    intro s k hs hcount hk hle
    rw [List.length_cons] at hle
    have hcall : arpPkgReceiver myIpAddress s (w :: (ws ++ rest)) =
        ({ s with wordCount := s.wordCount + 1 }, ws ++ rest, {}) := by
      simp only [arpPkgReceiver, hread hcount hk (by omega), hlast]
      rfl
    have hnext : s.wordCount + 1 = BitVec.ofNat 16 (k + 1) := by
      rw [hcount, BitVec.ofNat_add]
      rfl
    obtain ⟨os, t, hrun, ht, hacted⟩ := ih (s := { s with wordCount := s.wordCount + 1 }) (k + 1)
      { hs with } hnext (by omega) (by omega)
    exact ⟨_, t, .call hcall hrun, ht, hacted.after myIpAddress 1⟩

/-- The registers when the sixth word has been read. -/
def sixWords (d0 d1 d2 d3 d4 d5 : BitVec 64) : ArpPkgReceiver where
  wordCount := 5
  opCode := d2.extractLsb' 32 16
  protoAddrDst := d5.extractLsb' 0 16 ++ d4.extractLsb' 48 16
  replyMeta :=
    { srcMac := d1.extractLsb' 0 32 ++ d0.extractLsb' 48 16
      ethType := d1.extractLsb' 32 16
      hwType := d1.extractLsb' 48 16
      protoType := d2.extractLsb' 0 16
      hwLen := d2.extractLsb' 16 8
      protoLen := d2.extractLsb' 24 8
      hwAddrSrc := d3.extractLsb' 0 32 ++ d2.extractLsb' 48 16
      protoAddrSrc := (d3.extractLsb' 32 31).setWidth 32 }

theorem sixWords_holds (w0 w1 w2 w3 w4 w5 : AxiWord 8) (more : List (AxiWord 8)) :
    (sixWords w0.data w1.data w2.data w3.data w4.data w5.data).Holds
      (headerOf (w0 :: w1 :: w2 :: w3 :: w4 :: w5 :: more)) := by
  let ws := w0 :: w1 :: w2 :: w3 :: w4 :: w5 :: more
  have hslice (k start n : Nat) (hk : k < 6) (hn : start + n ≤ 64) (hsize : 64 * k + start + n ≤ 336) :=
    @slice_word ws k start n (by show k < more.length + 6; omega) hn hsize
  refine ⟨hslice 2 32 16 (by decide) (by decide) (by decide), ?_, ?_⟩
  · have hhigh := hslice 5 0 16 (by decide) (by decide) (by decide)
    have hlow := hslice 4 48 16 (by decide) (by decide) (by decide)
    exact (congrArg₂ (· ++ ·) hhigh hlow).trans (join_slices (headerOf ws) 304 16 16)
  · have hsrc := (congrArg₂ (· ++ ·) (hslice 1 0 32 (by decide) (by decide) (by decide))
      (hslice 0 48 16 (by decide) (by decide) (by decide))).trans (join_slices (headerOf ws) 48 16 32)
    have hhw := (congrArg₂ (· ++ ·) (hslice 3 0 32 (by decide) (by decide) (by decide))
      (hslice 2 48 16 (by decide) (by decide) (by decide))).trans (join_slices (headerOf ws) 176 16 32)
    have heth := hslice 1 32 16 (by decide) (by decide) (by decide)
    have htype := hslice 1 48 16 (by decide) (by decide) (by decide)
    have hproto := hslice 2 0 16 (by decide) (by decide) (by decide)
    have hlen := hslice 2 16 8 (by decide) (by decide) (by decide)
    have hlen' := hslice 2 24 8 (by decide) (by decide) (by decide)
    have haddr := hslice 3 32 31 (by decide) (by decide) (by decide)
    exact (ArpReplyMeta.mk.injEq ..).mpr ⟨hsrc, heth, htype, hproto, hlen, hlen', hhw, congrArg (BitVec.setWidth 32) haddr⟩

theorem Closed.five (h : Closed ws) (hlong : 6 ≤ ws.length) : ∃ w0 w1 w2 w3 w4 us, ws = w0 :: w1 :: w2 :: w3 :: w4 :: us ∧
    Closed us ∧ w0.last = false ∧ w1.last = false ∧ w2.last = false ∧ w3.last = false ∧ w4.last = false := by
  have hone {ws : List (AxiWord 8)} (h : Closed ws) (hlen : 1 < ws.length) :
      ∃ w us, ws = w :: us ∧ w.last = false ∧ Closed us := by
    cases h with
    | last _ => exact absurd hlen (Nat.lt_irrefl 1)
    | cons hlast hus => exact ⟨_, _, rfl, hlast, hus⟩
  obtain ⟨w0, ws1, rfl, h0, hws1⟩ := hone h (by omega)
  obtain ⟨w1, ws2, rfl, h1, hws2⟩ := hone hws1 (by simp only [List.length_cons] at hlong; omega)
  obtain ⟨w2, ws3, rfl, h2, hws3⟩ := hone hws2 (by simp only [List.length_cons] at hlong; omega)
  obtain ⟨w3, ws4, rfl, h3, hws4⟩ := hone hws3 (by simp only [List.length_cons] at hlong; omega)
  obtain ⟨w4, us, rfl, h4, hus⟩ := hone hws4 (by simp only [List.length_cons] at hlong; omega)
  exact ⟨w0, w1, w2, w3, w4, us, rfl, hus, h0, h1, h2, h3, h4⟩

/-- A word that is not the last one. -/
def ArpPkgReceiver.next (s : ArpPkgReceiver) (data : BitVec 64) : ArpPkgReceiver :=
  { s.read data with wordCount := s.wordCount + 1 }

theorem receive_word (s : ArpPkgReceiver) {w : AxiWord 8} (hlast : w.last = false) (rest : List (AxiWord 8)) :
    arpPkgReceiver myIpAddress s (w :: rest) = (s.next w.data, rest, {}) := by
  have hcount : (s.read w.data).wordCount = s.wordCount := by
    unfold ArpPkgReceiver.read
    split <;> rfl
  simp only [arpPkgReceiver, hlast, Bool.false_eq_true, if_false, ArpPkgReceiver.next, hcount]

theorem read_sixth (op : BitVec 16) (dst : BitVec 32) (m : ArpReplyMeta) (d0 d1 d2 d3 d4 d5 : BitVec 64) :
    ((((((ArpPkgReceiver.mk 0 op dst m).next d0).next d1).next d2).next d3).next d4).read d5 =
      sixWords d0 d1 d2 d3 d4 d5 := by
  have h0 : (ArpPkgReceiver.mk 0 op dst m).next d0 =
      ⟨1, op, dst, { m with srcMac := m.srcMac.extractLsb' 16 32 ++ d0.extractLsb' 48 16 }⟩ := rfl
  have h1 (m : ArpReplyMeta) : (ArpPkgReceiver.mk 1 op dst m).next d1 = ⟨2, op, dst, { m with
      srcMac := d1.extractLsb' 0 32 ++ m.srcMac.extractLsb' 0 16
      ethType := d1.extractLsb' 32 16
      hwType := d1.extractLsb' 48 16 }⟩ := rfl
  have h2 (m : ArpReplyMeta) : (ArpPkgReceiver.mk 2 op dst m).next d2 = ⟨3, d2.extractLsb' 32 16, dst, { m with
      protoType := d2.extractLsb' 0 16
      hwLen := d2.extractLsb' 16 8
      protoLen := d2.extractLsb' 24 8
      hwAddrSrc := m.hwAddrSrc.extractLsb' 16 32 ++ d2.extractLsb' 48 16 }⟩ := rfl
  have h3 (op : BitVec 16) (m : ArpReplyMeta) : (ArpPkgReceiver.mk 3 op dst m).next d3 = ⟨4, op, dst, { m with
      hwAddrSrc := d3.extractLsb' 0 32 ++ m.hwAddrSrc.extractLsb' 0 16
      protoAddrSrc := (d3.extractLsb' 32 31).setWidth 32 }⟩ := rfl
  have h4 (op : BitVec 16) (m : ArpReplyMeta) : (ArpPkgReceiver.mk 4 op dst m).next d4 =
      ⟨5, op, dst.extractLsb' 16 16 ++ d4.extractLsb' 48 16, m⟩ := rfl
  have h5 (op : BitVec 16) (dst : BitVec 32) (m : ArpReplyMeta) : (ArpPkgReceiver.mk 5 op dst m).read d5 =
      ⟨5, op, d5.extractLsb' 0 16 ++ dst.extractLsb' 0 16, m⟩ := rfl
  rw [h0, h1, h2, h3, h4, h5]
  simp only [BitVec.extractLsb'_append_eq_right]
  rfl

/-- One packet: the registers are filled word by word, and what it says is done at its last word. -/
theorem receive_packet (h : Closed ws) (hlong : 6 ≤ ws.length) (hshort : ws.length ≤ 65536) (hs : s.wordCount = 0)
    (rest : List (AxiWord 8)) :
    ∃ os t, Runs (arpPkgReceiver myIpAddress) s (ws ++ rest) os t rest ∧ t.wordCount = 0 ∧
      Acted myIpAddress (headerOf ws) os := by
  obtain ⟨w0, w1, w2, w3, w4, us, rfl, hus, h0, h1, h2, h3, h4⟩ := Closed.five h hlong
  have hfive : Runs (arpPkgReceiver myIpAddress) s (w0 :: w1 :: w2 :: w3 :: w4 :: (us ++ rest)) (List.replicate 5 ⟨[], []⟩)
      (((((s.next w0.data).next w1.data).next w2.data).next w3.data).next w4.data) (us ++ rest) :=
    .call (receive_word myIpAddress _ h0 _) (.call (receive_word myIpAddress _ h1 _)
      (.call (receive_word myIpAddress _ h2 _) (.call (receive_word myIpAddress _ h3 _)
        (.one (receive_word myIpAddress _ h4 _)))))
  obtain ⟨count, op, dst, m⟩ := s
  cases hs
  cases hus with
  | @last w hlast =>
    have hholds := sixWords_holds w0 w1 w2 w3 w4 w []
    rw [← read_sixth op dst m] at hholds
    have hcall (t : ArpPkgReceiver) : arpPkgReceiver myIpAddress t (w :: rest) =
        ({ t.read w.data with wordCount := 0 }, rest, (t.read w.data).act myIpAddress) := by
      simp only [arpPkgReceiver, hlast, if_true]
    exact ⟨_, _, hfive.trans (.one (hcall _)), rfl, (hholds.acted myIpAddress).after myIpAddress 5⟩
  | @cons w ws hlast hws =>
    have hholds := sixWords_holds w0 w1 w2 w3 w4 w ws
    rw [← read_sixth op dst m] at hholds
    simp only [List.length_cons] at hshort
    obtain ⟨os, t, hrun, ht, hacted⟩ := receive_behind myIpAddress hws rest
      (s := ((((((ArpPkgReceiver.mk 0 op dst m).next w0.data).next w1.data).next w2.data).next w3.data).next w4.data).next
        w.data) 6 { hholds with } rfl (Nat.le_refl 6) (by omega)
    exact ⟨_, t, hfive.trans (.call (receive_word myIpAddress _ hlast _) hrun), ht,
      (hacted.after myIpAddress 1).after myIpAddress 5⟩

end

/-! ## One packet through `arp_pkg_sender` -/

theorem headerWords_eq (header : Header) :
    Arp.headerWords 8 header =
      [⟨(header.getSrcMacAddr).extractLsb' 0 16 ++ header.extractLsb' 0 48, 0xff, false⟩,
        ⟨header.extractLsb' 112 16 ++ (header.extractLsb' 96 16 ++ (header.getSrcMacAddr).extractLsb' 16 32), 0xff, false⟩,
        ⟨(header.getSenderHwAddr).extractLsb' 0 16 ++ (header.operation ++ (header.extractLsb' 152 8 ++
          (header.extractLsb' 144 8 ++ header.extractLsb' 128 16))), 0xff, false⟩,
        ⟨header.getSenderProtoAddr ++ (header.getSenderHwAddr).extractLsb' 16 32, 0xff, false⟩,
        ⟨(header.getTargetProtoAddr).extractLsb' 0 16 ++ header.extractLsb' 256 48, 0xff, false⟩,
        ⟨(0 : BitVec 48) ++ (header.getTargetProtoAddr).extractLsb' 16 16, 0x03, true⟩] := by
  have hzero : header.extractLsb' 336 48 = 0 := by
    apply BitVec.eq_of_getLsbD_eq
    intro i hi
    rw [BitVec.getLsbD_extractLsb', BitVec.getLsbD_of_ge header _ (by show 336 ≤ _; omega)]
    simp
  have hslice {start k m : Nat} (h : k + m ≤ 48) :
      (header.extractLsb' start 48).extractLsb' k m = header.extractLsb' (start + k) m := slice_slice header h
  have hslice' {start k m : Nat} (h : k + m ≤ 32) :
      (header.extractLsb' start 32).extractLsb' k m = header.extractLsb' (start + k) m := slice_slice header h
  have h0 : headerWord 64 header 0 = header.extractLsb' 48 16 ++ header.extractLsb' 0 48 :=
    (join_slices header 0 48 16).symm
  have h1 : headerWord 64 header 1 = header.extractLsb' 112 16 ++ (header.extractLsb' 96 16 ++ header.extractLsb' 64 32) :=
    ((congrArg (header.extractLsb' 112 16 ++ ·) (join_slices header 64 32 16)).trans (join_slices header 64 48 16)).symm
  have h2low : header.extractLsb' 152 8 ++ (header.extractLsb' 144 8 ++ header.extractLsb' 128 16) =
      header.extractLsb' 128 32 :=
    (congrArg (header.extractLsb' 152 8 ++ ·) (join_slices header 128 16 8)).trans (join_slices header 128 24 8)
  have h2 : headerWord 64 header 2 = header.extractLsb' 176 16 ++ (header.extractLsb' 160 16 ++ header.extractLsb' 128 32) :=
    ((congrArg (header.extractLsb' 176 16 ++ ·) (join_slices header 128 32 16)).trans (join_slices header 128 48 16)).symm
  have h3 : headerWord 64 header 3 = header.extractLsb' 224 32 ++ header.extractLsb' 192 32 :=
    (join_slices header 192 32 32).symm
  have h4 : headerWord 64 header 4 = header.extractLsb' 304 16 ++ header.extractLsb' 256 48 :=
    (join_slices header 256 48 16).symm
  have h5 : headerWord 64 header 5 = (0 : BitVec 48) ++ header.extractLsb' 320 16 :=
    ((congrArg (· ++ header.extractLsb' 320 16) hzero.symm).trans (join_slices header 320 16 48)).symm
  have hwords : Arp.headerWords 8 header = [⟨headerWord 64 header 0, 0xff, false⟩, ⟨headerWord 64 header 1, 0xff, false⟩,
      ⟨headerWord 64 header 2, 0xff, false⟩, ⟨headerWord 64 header 3, 0xff, false⟩, ⟨headerWord 64 header 4, 0xff, false⟩,
      ⟨headerWord 64 header 5, 0x03, true⟩] := rfl
  rw [hwords, h0, h1, h2, h3, h4, h5, ← h2low]
  simp only [Header.getSrcMacAddr, Header.getSenderHwAddr, Header.getTargetProtoAddr, Header.getSenderProtoAddr,
    Header.operation]
  rw [hslice (by decide), hslice (by decide), hslice (by decide), hslice (by decide), hslice' (by decide),
    hslice' (by decide)]

/-- The types and lengths of a standard header. -/
structure StandardMeta (m : ArpReplyMeta) : Prop where
  ethType : m.ethType = 0x0608
  hwType : m.hwType = 0x0100
  protoType : m.protoType = 0x0008
  hwLen : m.hwLen = 6
  protoLen : m.protoLen = 4

theorem standard_metaOf {header : Header} (h : header.Standard) : StandardMeta (metaOf header) := by
  have hslice {k m : Nat} (hk : k + m ≤ 64) :
      header.extractLsb' (96 + k) m = (Arp.initialHeader.extractLsb' 96 64).extractLsb' k m := by
    rw [← slice_slice header hk, show header.extractLsb' 96 64 = Arp.initialHeader.extractLsb' 96 64 from h]
  constructor
  · exact (hslice (k := 0) (m := 16) (by decide)).trans (by decide)
  · exact (hslice (k := 16) (m := 16) (by decide)).trans (by decide)
  · exact (hslice (k := 32) (m := 16) (by decide)).trans (by decide)
  · exact (hslice (k := 48) (m := 8) (by decide)).trans (by decide)
  · exact (hslice (k := 56) (m := 8) (by decide)).trans (by decide)

section

variable (myMacAddress : BitVec 48) (myIpAddress : BitVec 32)

def replyWords (replyMeta : ArpReplyMeta) : List (AxiWord 8) :=
  (List.finRange 6).map (replyWord myMacAddress myIpAddress replyMeta)

theorem replyWords_eq {m : ArpReplyMeta} (h : StandardMeta m) : replyWords myMacAddress myIpAddress m =
    Arp.headerWords 8 (Arp.replyHeader myMacAddress myIpAddress ⟨m.srcMac, m.hwAddrSrc, m.protoAddrSrc⟩) := by
  have hfilled := Arp.filled_reply myMacAddress myIpAddress ⟨m.srcMac, m.hwAddrSrc, m.protoAddrSrc⟩
  have hmeta := standard_metaOf hfilled.types
  have hwords : replyWords myMacAddress myIpAddress m = [replyWord myMacAddress myIpAddress m 0,
      replyWord myMacAddress myIpAddress m 1, replyWord myMacAddress myIpAddress m 2, replyWord myMacAddress myIpAddress m 3,
      replyWord myMacAddress myIpAddress m 4, replyWord myMacAddress myIpAddress m 5] := rfl
  rw [headerWords_eq, hfilled.dstMac, hfilled.srcMac, hfilled.operation, hfilled.senderHw, hfilled.senderProto,
    hfilled.targetHw, hfilled.targetProto, hwords]
  generalize Arp.replyHeader myMacAddress myIpAddress ⟨m.srcMac, m.hwAddrSrc, m.protoAddrSrc⟩ = header at hmeta
  have heth : header.extractLsb' 96 16 = m.ethType := hmeta.ethType.trans h.ethType.symm
  have hhw : header.extractLsb' 112 16 = m.hwType := hmeta.hwType.trans h.hwType.symm
  have hproto : header.extractLsb' 128 16 = m.protoType := hmeta.protoType.trans h.protoType.symm
  have hlen : header.extractLsb' 144 8 = m.hwLen := hmeta.hwLen.trans h.hwLen.symm
  have hlen' : header.extractLsb' 152 8 = m.protoLen := hmeta.protoLen.trans h.protoLen.symm
  rw [heth, hhw, hproto, hlen, hlen']
  rfl

def sendReplies (s : ArpPkgSender) (metas : List ArpReplyMeta) : ArpPkgSender × List ArpReplyMeta × List (AxiWord 8) :=
  let (s, i, out) := arpPkgSender myMacAddress myIpAddress s ⟨metas, []⟩
  (s, i.arpReplyMetaFifo, out)

structure ArpPkgSender.Idle (s : ArpPkgSender) : Prop where
  apsFsmState : s.apsFsmState = .ARP_IDLE

theorem sendReplies_waits : Waits (sendReplies myMacAddress myIpAddress) [] := by
  intro s metas
  obtain ⟨state, count, m, ip⟩ := s
  cases state with
  | ARP_IDLE =>
    cases metas with
    | nil => exact .inl rfl
    | cons m metas => exact .inr fun more => rfl
  | ARP_REPLY | ARP_SENTRQ => exact .inr fun more => rfl

theorem sendReplies_completes (metas : List ArpReplyMeta) :
    Completes (sendReplies myMacAddress myIpAddress) [] id ArpPkgSender.Idle {} [] metas
      (metas.flatMap (replyWords myMacAddress myIpAddress)) := by
  refine completes_each (Q := fun _ => True) _ (fun metas : List ArpReplyMeta => metas)
    (sendReplies_waits myMacAddress myIpAddress) rfl rfl ?_ ?_ metas (show ArpPkgSender.Idle {} from ⟨rfl⟩) fun _ _ => trivial
  · intro s hs
    simp only [sendReplies, arpPkgSender, hs.apsFsmState]
  · intro s m metas hs _
    have htake : sendReplies myMacAddress myIpAddress s (m :: metas) = (⟨.ARP_REPLY, 0, m, s.inputIP⟩, metas, []) := by
      simp only [sendReplies, arpPkgSender, hs.apsFsmState]
    have hword (k : Fin 6) : sendReplies myMacAddress myIpAddress ⟨.ARP_REPLY, k, m, s.inputIP⟩ metas =
        (⟨if k = 5 then .ARP_IDLE else .ARP_REPLY, k + 1, m, s.inputIP⟩, metas,
          [replyWord myMacAddress myIpAddress m k]) := rfl
    exact ⟨_, _, .call htake (.call (hword 0) (.call (hword 1) (.call (hword 2) (.call (hword 3) (.call (hword 4)
      (.one (hword 5))))))), ⟨rfl⟩, rfl⟩

end

/-! ## All packets -/

/-- A complete packet for ARP over Ethernet, of no more words than the 16-bit counter can number. -/
structure Standard (ws : List (AxiWord 8)) : Prop where
  complete : Complete ws
  header : (headerOf ws).Standard
  short : ws.length ≤ 65536

structure ArpPkgReceiver.Idle (s : ArpPkgReceiver) : Prop where
  wordCount : s.wordCount = 0

section

variable (myMacAddress : BitVec 48) (myIpAddress : BitVec 32) {fs : List (List (AxiWord 8))}

theorem arpPkgReceiver_waits : Waits (arpPkgReceiver myIpAddress) {} := by
  intro s dataIn
  cases dataIn with
  | nil => exact .inl rfl
  | cons word rest =>
    refine .inr fun more => ?_
    obtain ⟨data, keep, last⟩ := word
    cases last <;> rfl

theorem receiver_completes {β : Type} {g : ArpPkgReceiverOut → List β} (hg : g {} = []) (h : Header → List β)
    (hone : ∀ header os, Acted myIpAddress header os → os.flatMap g = h header) (hfs : ∀ ws ∈ fs, Standard ws) :
    Completes (arpPkgReceiver myIpAddress) {} g ArpPkgReceiver.Idle {} [] fs.flatten
      (fs.flatMap fun ws => h (headerOf ws)) := by
  refine completes_each (Q := Standard) (fun ws => h (headerOf ws)) List.flatten (arpPkgReceiver_waits myIpAddress) hg rfl
    (fun s _ => rfl) ?_ fs (show ArpPkgReceiver.Idle {} from ⟨rfl⟩) hfs
  intro s ws fs hs hws
  have hlong : 336 ≤ ws.length * (8 * 8) := Arp.complete_length hws.complete.header
  obtain ⟨os, t, hrun, ht, hacted⟩ := receive_packet myIpAddress hws.complete.closed (by omega) hws.short hs.wordCount
    fs.flatten
  exact ⟨os, t, hrun, ⟨ht⟩, hone _ _ hacted⟩

/-- Both servers, with the same packets: they send the same words, and they record the same addresses. -/
structure Agree (fs : List (List (AxiWord 8))) (metas : List ArpReplyMeta) (metas' : List Arp.ArpReplyMeta)
    (entries : List ArpTableEntry) (entries' : List Arp.ArpTableEntry) (out : List (AxiWord 8)) : Prop where
  asked : Completes (arpPkgReceiver myIpAddress) {} (·.arpReplyMetaFifo) ArpPkgReceiver.Idle {} [] fs.flatten metas
  asked' : Completes (Arp.receive myIpAddress) {} (·.arpReplyMetaFifo) Arp.ProcessArpPkg.Idle ({} : Arp.ProcessArpPkg 8) []
    fs.flatten metas'
  replies : Completes (sendReplies myMacAddress myIpAddress) [] id ArpPkgSender.Idle {} [] metas out
  replies' : Completes (Arp.sendReplies 8 myMacAddress myIpAddress) [] id Arp.GenerateArpPkg.Idle {} [] metas' out
  learned : Completes (arpPkgReceiver myIpAddress) {} (·.arpTableInsertFifo) ArpPkgReceiver.Idle {} [] fs.flatten entries
  learned' : Completes (Arp.receive myIpAddress) {} (·.arpTableInsertFifo) Arp.ProcessArpPkg.Idle ({} : Arp.ProcessArpPkg 8)
    [] fs.flatten entries'
  bindings : entries.map (fun e => (e.ipAddress, e.macAddress)) = entries'.map fun e => (e.ipAddress, e.macAddress)

def Concerns (header : Header) (op : BitVec 16) : Prop := header.operation = op ∧ header.getTargetProtoAddr = myIpAddress

instance (header : Header) (op : BitVec 16) : Decidable (Concerns myIpAddress header op) :=
  inferInstanceAs (Decidable (_ ∧ _))

section

variable (hfs : ∀ ws ∈ fs, Standard ws)

def requests (fs : List (List (AxiWord 8))) : List (List (AxiWord 8)) :=
  fs.filter fun ws => Concerns myIpAddress (headerOf ws) REQUEST

def repliesTo (fs : List (List (AxiWord 8))) : List (List (AxiWord 8)) :=
  fs.filter fun ws => Concerns myIpAddress (headerOf ws) REPLY

include hfs

theorem asked_completes : Completes (arpPkgReceiver myIpAddress) {} (·.arpReplyMetaFifo) ArpPkgReceiver.Idle {} [] fs.flatten
    ((requests myIpAddress fs).map fun ws => metaOf (headerOf ws)) := by
  have hcompletes := receiver_completes myIpAddress (g := (·.arpReplyMetaFifo)) rfl
    (fun header => if Concerns myIpAddress header REQUEST then [metaOf header] else [])
    (fun header os hacted => hacted.arpReplyMetaFifo) hfs
  rw [flatMap_one_if] at hcompletes
  exact hcompletes

theorem learned_completes : Completes (arpPkgReceiver myIpAddress) {} (·.arpTableInsertFifo) ArpPkgReceiver.Idle {} []
    fs.flatten ((repliesTo myIpAddress fs).map fun ws =>
      ⟨(metaOf (headerOf ws)).hwAddrSrc, (metaOf (headerOf ws)).protoAddrSrc, 1⟩) := by
  have hcompletes := receiver_completes myIpAddress (g := (·.arpTableInsertFifo)) rfl
    (fun header => if Concerns myIpAddress header REPLY then
      [(⟨(metaOf header).hwAddrSrc, (metaOf header).protoAddrSrc, 1⟩ : ArpTableEntry)] else [])
    (fun header os hacted => hacted.arpTableInsertFifo) hfs
  rw [flatMap_one_if] at hcompletes
  exact hcompletes

theorem asked_completes' : Completes (Arp.receive myIpAddress) {} (·.arpReplyMetaFifo) Arp.ProcessArpPkg.Idle
    ({} : Arp.ProcessArpPkg 8) [] fs.flatten ((requests myIpAddress fs).map fun ws =>
      ⟨(headerOf ws).getSrcMacAddr, (headerOf ws).getSenderHwAddr, (headerOf ws).getSenderProtoAddr⟩) := by
  have hcompletes := Arp.receive_completes myIpAddress (g := (·.arpReplyMetaFifo)) rfl
    (fun header => if Concerns myIpAddress header REQUEST then
      [⟨header.getSrcMacAddr, header.getSenderHwAddr, header.getSenderProtoAddr⟩] else [])
    (fun header os hacted => by
      rw [hacted.arpReplyMetaFifo, Arp.answers]
      exact if_congr and_comm rfl rfl) fun ws hws => (hfs ws hws).complete
  rw [flatMap_one_if] at hcompletes
  exact hcompletes

theorem learned_completes' : Completes (Arp.receive myIpAddress) {} (·.arpTableInsertFifo) Arp.ProcessArpPkg.Idle
    ({} : Arp.ProcessArpPkg 8) [] fs.flatten ((repliesTo myIpAddress fs).map fun ws =>
      ⟨(headerOf ws).getSenderProtoAddr, (headerOf ws).getSenderHwAddr, true⟩) := by
  have hcompletes := Arp.receive_completes myIpAddress (g := (·.arpTableInsertFifo)) rfl
    (fun header => if Concerns myIpAddress header REPLY then
      [⟨header.getSenderProtoAddr, header.getSenderHwAddr, true⟩] else [])
    (fun header os hacted => by
      rw [hacted.arpTableInsertFifo, Arp.learns]
      exact if_congr and_comm rfl rfl) fun ws hws => (hfs ws hws).complete
  rw [flatMap_one_if] at hcompletes
  exact hcompletes

end

theorem protoAddrSrc_iff (header : Header) :
    (metaOf header).protoAddrSrc = header.getSenderProtoAddr ↔ header.getSenderProtoAddr.getLsbD 31 = false := by
  have hbit {i : Nat} (hi : i < 32) : (metaOf header).protoAddrSrc.getLsbD i =
      (decide (i < 31) && header.getSenderProtoAddr.getLsbD i) := by
    show ((header.extractLsb' 224 31).setWidth 32).getLsbD i = _
    rw [BitVec.getLsbD_setWidth, BitVec.getLsbD_extractLsb', Header.getSenderProtoAddr, BitVec.getLsbD_extractLsb',
      decide_eq_true hi]
    simp only [Bool.true_and]
  constructor
  · intro h
    rw [← h, hbit (by decide)]
    rfl
  · intro h
    apply BitVec.eq_of_getLsbD_eq
    intro i hi
    rw [hbit hi]
    by_cases hlow : i < 31
    · rw [decide_eq_true hlow, Bool.true_and]
    · have hlast : i = 31 := by omega
      rw [hlast, h, Bool.and_false]

theorem reply_iff {header : Header} (h : header.Standard) :
    replyWords myMacAddress myIpAddress (metaOf header) = Arp.headerWords 8 (Arp.replyHeader myMacAddress myIpAddress
        ⟨header.getSrcMacAddr, header.getSenderHwAddr, header.getSenderProtoAddr⟩) ↔
      (metaOf header).protoAddrSrc = header.getSenderProtoAddr := by
  rw [replyWords_eq myMacAddress myIpAddress (standard_metaOf h)]
  constructor
  · intro hwords
    have hheader := congrArg (headerOf (N := 8)) hwords
    rw [Arp.headerOf_headerWords (by decide), Arp.headerOf_headerWords (by decide)] at hheader
    have htarget := congrArg Header.getTargetProtoAddr hheader
    rw [(Arp.filled_reply _ _ _).targetProto, (Arp.filled_reply _ _ _).targetProto] at htarget
    exact htarget
  · intro haddr
    rw [haddr]
    rfl

/-- Both servers, with the same packets, send the same replies and record the same addresses. -/
def Agrees (fs : List (List (AxiWord 8))) : Prop :=
  ∃ metas metas' entries entries' out, Agree myMacAddress myIpAddress fs metas metas' entries entries' out

theorem agrees_of (hfs : ∀ ws ∈ fs, Standard ws) :
    Agrees myMacAddress myIpAddress fs ↔ ∀ ws ∈ fs,
      Concerns myIpAddress (headerOf ws) REQUEST ∨ Concerns myIpAddress (headerOf ws) REPLY →
        (headerOf ws).getSenderProtoAddr.getLsbD 31 = false := by
  have hreplies := sendReplies_completes myMacAddress myIpAddress
    ((requests myIpAddress fs).map fun ws => metaOf (headerOf ws))
  have hreplies' := Arp.sendReplies_completes myMacAddress myIpAddress (N := 8) (by decide)
    ((requests myIpAddress fs).map fun ws =>
      (⟨(headerOf ws).getSrcMacAddr, (headerOf ws).getSenderHwAddr, (headerOf ws).getSenderProtoAddr⟩ : Arp.ArpReplyMeta))
  rw [List.flatMap_map] at hreplies hreplies'
  have hwords : ((requests myIpAddress fs).flatMap fun ws => replyWords myMacAddress myIpAddress (metaOf (headerOf ws))) =
        ((requests myIpAddress fs).flatMap fun ws => Arp.headerWords 8 (Arp.replyHeader myMacAddress myIpAddress
          ⟨(headerOf ws).getSrcMacAddr, (headerOf ws).getSenderHwAddr, (headerOf ws).getSenderProtoAddr⟩)) ↔
      ∀ ws ∈ requests myIpAddress fs, (headerOf ws).getSenderProtoAddr.getLsbD 31 = false := by
    rw [flatMap_inj_of_length (n := 6) (fun _ _ => rfl) (fun _ _ => rfl)]
    refine forall₂_congr fun ws hws => ?_
    rw [reply_iff myMacAddress myIpAddress (hfs ws (List.mem_of_mem_filter hws)).header, protoAddrSrc_iff]
  have hbindings : (((repliesTo myIpAddress fs).map fun ws =>
        (⟨(metaOf (headerOf ws)).hwAddrSrc, (metaOf (headerOf ws)).protoAddrSrc, 1⟩ : ArpTableEntry)).map fun e =>
          (e.ipAddress, e.macAddress)) =
        (((repliesTo myIpAddress fs).map fun ws =>
          (⟨(headerOf ws).getSenderProtoAddr, (headerOf ws).getSenderHwAddr, true⟩ : Arp.ArpTableEntry)).map fun e =>
            (e.ipAddress, e.macAddress)) ↔
      ∀ ws ∈ repliesTo myIpAddress fs, (headerOf ws).getSenderProtoAddr.getLsbD 31 = false := by
    rw [List.map_map, List.map_map, List.map_inj_left]
    refine forall₂_congr fun ws _ => ?_
    rw [← protoAddrSrc_iff]
    exact ⟨fun h => (Prod.mk.inj h).1, fun h => Prod.ext h rfl⟩
  have hsplit : (∀ ws ∈ fs, Concerns myIpAddress (headerOf ws) REQUEST ∨ Concerns myIpAddress (headerOf ws) REPLY →
        (headerOf ws).getSenderProtoAddr.getLsbD 31 = false) ↔
      (∀ ws ∈ requests myIpAddress fs, (headerOf ws).getSenderProtoAddr.getLsbD 31 = false) ∧
        ∀ ws ∈ repliesTo myIpAddress fs, (headerOf ws).getSenderProtoAddr.getLsbD 31 = false := by
    simp only [requests, repliesTo, List.mem_filter, decide_eq_true_eq]
    constructor
    · exact fun h => ⟨fun ws hws => h ws hws.1 (.inl hws.2), fun ws hws => h ws hws.1 (.inr hws.2)⟩
    · rintro ⟨hrequests, hreplies⟩ ws hws (hconcerns | hconcerns)
      · exact hrequests ws ⟨hws, hconcerns⟩
      · exact hreplies ws ⟨hws, hconcerns⟩
  rw [hsplit, ← hwords, ← hbindings]
  constructor
  · rintro ⟨metas, metas', entries, entries', out, h⟩
    cases (asked_completes myIpAddress hfs).unique rfl h.asked
    cases (asked_completes' myIpAddress hfs).unique rfl h.asked'
    cases (learned_completes myIpAddress hfs).unique rfl h.learned
    cases (learned_completes' myIpAddress hfs).unique rfl h.learned'
    exact ⟨(hreplies.unique rfl h.replies).symm.trans (hreplies'.unique rfl h.replies'), h.bindings⟩
  · rintro ⟨hsame, hbind⟩
    rw [← hsame] at hreplies'
    exact ⟨_, _, _, _, _, asked_completes myIpAddress hfs, asked_completes' myIpAddress hfs, hreplies, hreplies',
      learned_completes myIpAddress hfs, learned_completes' myIpAddress hfs, hbind⟩

/-- The servers agree on packets that concern the local host exactly when the last bit of the sender's address is 0; what a
request and its answer teach is right at every width. -/
theorem agrees_iff (fs : List (List (AxiWord 8))) (hfs : ∀ ws ∈ fs, Standard ws) :
    (Agrees myMacAddress myIpAddress fs ∧
        ∀ N ∈ [8, 16, 32, 64], ∀ macA ipA macB ipB, Arp.Teaches N macA ipA macB ipB) ↔
      ∀ ws ∈ fs, Concerns myIpAddress (headerOf ws) REQUEST ∨ Concerns myIpAddress (headerOf ws) REPLY →
        (headerOf ws).getSenderProtoAddr.getLsbD 31 = false := by
  rw [← agrees_of myMacAddress myIpAddress hfs]
  exact and_iff_left fun N hN macA ipA macB ipB => Arp.teaches hN macA ipA macB ipB

end

theorem standard_request (mac : BitVec 48) (ip inputIP : BitVec 32) :
    Standard (Arp.headerWords 8 (Arp.requestHeader mac ip inputIP)) := by
  refine ⟨Arp.complete_headerWords (by decide) _, ?_, by show 6 ≤ 65536; decide⟩
  rw [Arp.headerOf_headerWords (by decide)]
  exact (Arp.filled_request _ _ inputIP).types

/-- 10.0.0.100 asks for 10.0.0.1. -/
theorem agrees_low : Agrees 5 0x0100000A [Arp.headerWords 8 (Arp.requestHeader 7 0x6400000A 0x0100000A)] := by
  refine ((agrees_iff 5 0x0100000A _ (List.forall_mem_singleton.mpr (standard_request 7 0x6400000A 0x0100000A))).mpr
    (List.forall_mem_singleton.mpr fun _ => ?_)).1
  rw [Arp.headerOf_headerWords (by decide), (Arp.filled_request _ _ _).senderProto]
  rfl

/-- 10.0.0.200 asks for 10.0.0.1, and the reply is for 10.0.0.72. -/
theorem not_agrees_high : ¬Agrees 5 0x0100000A [Arp.headerWords 8 (Arp.requestHeader 7 0xC800000A 0x0100000A)] := by
  rw [agrees_of 5 0x0100000A (List.forall_mem_singleton.mpr (standard_request 7 0xC800000A 0x0100000A)),
    List.forall_mem_singleton, Arp.headerOf_headerWords (by decide), (Arp.filled_request _ _ _).senderProto]
  intro h
  exact Bool.noConfusion (h (.inl ⟨(Arp.filled_request _ _ _).operation, (Arp.filled_request _ _ _).targetProto⟩))

end FpgaNetworkStack.ArpServer
