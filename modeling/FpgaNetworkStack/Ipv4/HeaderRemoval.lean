import FpgaNetworkStack.Ipv4.Checksum
import FpgaNetworkStack.Udp.Engine

/-!
# Taking the header off an IPv4 packet (`ipv4.cpp`, `ipv4.hpp`, `rx_engine.cpp`)

`process_ipv4` reads the fixed header and passes the packet on from the word in which that ends; how much of the header is
still in front is told to `drop_optional_ip_header`, which takes it off.
-/

namespace FpgaNetworkStack.Ipv4

open Lib
open Axi (Word Packet Packets Ends Framed headerOf headerOf_octet)
open IpHandler (HeaderReader IPV4_HEADER_SIZE getDstAddr)
open Roce (PacketHeader Parsed parsed_clear)
open Toe (reverse16)

variable {N : Nat} {w : Word N} {ws : List (Word N)} {bytes : List (BitVec 8)}

/-! ## `process_ipv4` and `toe_process_ipv4` -/

def getSrcAddr (header : BitVec IPV4_HEADER_SIZE) : BitVec 32 := header.extractLsb' 96 32

def getLength (header : BitVec IPV4_HEADER_SIZE) : BitVec 16 := reverse16 (header.extractLsb' 16 16)

def getHeaderLength (header : BitVec IPV4_HEADER_SIZE) : BitVec 4 := header.extractLsb' 0 4

structure PseudoMeta where
  theirAddress : BitVec 32
  ourAddress : BitVec 32
  length : BitVec 16
  deriving DecidableEq

structure ProcessIpv4 (N : Nat) where
  header : PacketHeader (8 * N) IPV4_HEADER_SIZE := {}
  headerWordsDropped : BitVec 4 := 0
  metaWritten : Bool := false

@[ext]
structure ProcessIpv4Out (N : Nat) (μ : Type) where
  process2dropLengthFifo : List (BitVec 4) := []
  metaOut : List μ := []
  dataOut : List (Word N) := []

/-- One call of the process, which makes metadata of the header. -/
def processWith {μ : Type} (metaOf : BitVec IPV4_HEADER_SIZE → μ) (s : ProcessIpv4 N) (dataIn : List (Word N)) :
    ProcessIpv4 N × List (Word N) × ProcessIpv4Out N μ :=
  match dataIn with
  | [] => (s, [], {})
  | currWord :: rest =>
    let header := s.header.parseWord currWord.data
    let isNew := header.ready && !s.metaWritten
    ({ header := if currWord.last then header.clear else header
       headerWordsDropped := if currWord.last then 0 else s.headerWordsDropped + BitVec.ofNat 4 (N / 4)
       metaWritten := !currWord.last && (s.metaWritten || isNew) },
      rest,
      { process2dropLengthFifo := if isNew then [getHeaderLength header.header - s.headerWordsDropped] else []
        metaOut := if isNew then [metaOf header.header] else []
        dataOut := if header.ready then [currWord] else [] })

def processIpv4 : ProcessIpv4 N → List (Word N) → ProcessIpv4 N × List (Word N) × ProcessIpv4Out N Udp.IpMeta :=
  processWith fun header => ⟨getSrcAddr header, getLength header⟩

def toeProcessIpv4 : ProcessIpv4 N → List (Word N) → ProcessIpv4 N × List (Word N) × ProcessIpv4Out N PseudoMeta :=
  processWith fun header =>
    ⟨getSrcAddr header, getDstAddr header, getLength header - BitVec.ofNat 16 ((getHeaderLength header).toNat * 4)⟩

/-! ## `drop_optional_ip_header` -/

inductive DohState where
  | META | DROP | BODY | SHIFT | LAST | SHIFT_FIVE | LAST_FIVE
  deriving DecidableEq

structure DropIpHeader (N : Nat) where
  dohState : DohState := .META
  length : BitVec 4 := 0
  prevWord : Word N := .zero

structure DropIpHeaderIn (N : Nat) where
  process2dropLengthFifo : List (BitVec 4) := []
  process2dropFifo : List (Word N) := []

/-- The word held back without its first `k` bytes, and the first ones of the next word. -/
def shiftWord (k : Nat) (shift last : DohState) (s : DropIpHeader N) (currWord : Word N) :
    DropIpHeader N × List (Word N) :=
  let sendWord := Word.join k s.prevWord currWord (!currWord.keepAt k)
  ({ s with
      dohState := if sendWord.last then .META else if currWord.last then last else shift
      prevWord := currWord }, [sendWord])

/-- State `META` with a length, and the words that are left: up to 128 bits the word is read only when nothing but four bytes
of the header are in it, and above that only behind a header without options. -/
def readLength (s : DropIpHeader N) (length : BitVec 4) (word : Word N) (rest : List (Word N)) :
    DropIpHeader N × List (Word N) :=
  if N = 8 ∨ N = 16 then
    if 1 < length.toNat then ({ s with dohState := .DROP, length := length }, word :: rest)
    else (⟨.SHIFT, length, word⟩, rest)
  else if length = 5 then (⟨if word.last then .LAST_FIVE else .SHIFT_FIVE, length, word⟩, rest)
  else ({ s with length := length }, word :: rest)

def dropOptionalIpHeader (s : DropIpHeader N) (i : DropIpHeaderIn N) :
    DropIpHeader N × DropIpHeaderIn N × List (Word N) :=
  match s.dohState with
  | .META =>
    match i.process2dropLengthFifo, i.process2dropFifo with
    | length :: lengths, word :: rest =>
      ((readLength s length word rest).1, ⟨lengths, (readLength s length word rest).2⟩, [])
    | _, _ => (s, i, [])
  | .DROP =>
    match i.process2dropFifo with
    | [] => (s, i, [])
    | word :: rest =>
      let length := s.length - 2
      (⟨if length = 1 then .SHIFT else if length = 0 then .BODY else .DROP, length, word⟩,
        { i with process2dropFifo := rest }, [])
  | .BODY =>
    match i.process2dropFifo with
    | [] => (s, i, [])
    | currWord :: rest =>
      ({ s with dohState := if currWord.last then .META else .BODY }, { i with process2dropFifo := rest }, [currWord])
  | .SHIFT =>
    match i.process2dropFifo with
    | [] => (s, i, [])
    | currWord :: rest =>
      ((shiftWord 4 .SHIFT .LAST s currWord).1, { i with process2dropFifo := rest },
        (shiftWord 4 .SHIFT .LAST s currWord).2)
  | .SHIFT_FIVE =>
    match i.process2dropFifo with
    | [] => (s, i, [])
    | currWord :: rest =>
      ((shiftWord 20 .SHIFT_FIVE .LAST_FIVE s currWord).1, { i with process2dropFifo := rest },
        (shiftWord 20 .SHIFT_FIVE .LAST_FIVE s currWord).2)
  | .LAST => ({ s with dohState := .META }, i, [.join 4 s.prevWord .zero true])
  | .LAST_FIVE => ({ s with dohState := .META }, i, [.join 20 s.prevWord .zero true])

/-! ## Reading the header -/

/-- The source address, its first byte in the low bits. -/
def source (ip : List (BitVec 8)) : BitVec 32 := ip.getD 15 0 ++ (ip.getD 14 0 ++ (ip.getD 13 0 ++ ip.getD 12 0))

def lengthOf (ip : List (BitVec 8)) : BitVec 16 := ip.getD 2 0 ++ ip.getD 3 0

theorem getSrcAddr_headerOf (ip : List (BitVec 8)) : getSrcAddr (headerOf 20 ip) = source ip := by
  have hword := IpHandler.extract_word (headerOf 20 ip) 12
  rw [headerOf_octet (by decide), headerOf_octet (by decide), headerOf_octet (by decide),
    headerOf_octet (by decide)] at hword
  exact hword

theorem getDstAddr_headerOf (ip : List (BitVec 8)) : getDstAddr (headerOf 20 ip) = IpHandler.destination ip := by
  have hword := IpHandler.extract_word (headerOf 20 ip) 16
  rw [headerOf_octet (by decide), headerOf_octet (by decide), headerOf_octet (by decide),
    headerOf_octet (by decide)] at hword
  exact hword

theorem getLength_headerOf (ip : List (BitVec 8)) : getLength (headerOf 20 ip) = lengthOf ip := by
  have hswap := IpHandler.reverse16_extract (headerOf 20 ip) 2
  rw [headerOf_octet (by decide), headerOf_octet (by decide)] at hswap
  exact hswap

theorem getHeaderLength_headerOf (ip : List (BitVec 8)) :
    getHeaderLength (headerOf 20 ip) = (ip.getD 0 0).extractLsb' 0 4 := by
  have hbyte : (headerOf 20 ip).extractLsb' (8 * 0) 8 = ip.getD 0 0 := headerOf_octet (by decide) ip
  show (headerOf 20 ip).extractLsb' 0 4 = _
  rw [← hbyte]
  apply BitVec.eq_of_getLsbD_eq
  intro i hi
  simp [hi]

/-! ## The words of one packet -/

/-- The words that are read before the header is complete. -/
def wordsBefore (N : Nat) : Nat := 19 / N

structure ProcessIpv4.Idle (s : ProcessIpv4 N) : Prop where
  header : Parsed s.header []
  headerWordsDropped : s.headerWordsDropped = 0
  metaWritten : s.metaWritten = false

theorem ProcessIpv4.idle_init : ({} : ProcessIpv4 N).Idle := by
  refine ⟨⟨⟨?_, fun _ => rfl⟩, ?_⟩, rfl, rfl⟩
  · simp [IPV4_HEADER_SIZE]
  · intro i _ hi
    simp at hi

section

variable {μ : Type} (metaOf : BitVec IPV4_HEADER_SIZE → μ) {s : ProcessIpv4 N}

theorem processWith_waits : Waits (processWith (N := N) metaOf) {} := by
  intro s dataIn
  cases dataIn with
  | nil => exact .inl rfl
  | cons currWord rest => exact .inr fun more => rfl

theorem process_before {us : List (Word N)} (hs : Parsed s.header (us.map Word.data)) (hmeta : s.metaWritten = false)
    (hlast : w.last = false) (hshort : (us.length + 1) * N < 20) (rest : List (Word N)) :
    ∃ t, processWith metaOf s (w :: rest) = (t, rest, {}) ∧ Parsed t.header ((us ++ [w]).map Word.data) ∧
      t.metaWritten = false ∧ t.headerWordsDropped = s.headerWordsDropped + BitVec.ofNat 4 (N / 4) := by
  have hnext := hs.parseWord w.data
  rw [← List.map_singleton, ← List.map_append] at hnext
  have hready : (s.header.parseWord w.data).ready = false := by
    rw [hnext.fed.ready, List.length_map, List.length_append, List.length_singleton]
    apply decide_eq_false
    rw [Nat.mul_left_comm, IPV4_HEADER_SIZE]
    omega
  refine ⟨_, by simp only [processWith, hready, hlast, hmeta]; rfl, ?_, ?_, ?_⟩
  · exact hnext
  · rfl
  · rfl

theorem process_behind (s : ProcessIpv4 N) (w : Word N) (rest : List (Word N))
    (hs : s.header.ready = true ∧ s.metaWritten = true) :
    ∃ t, processWith metaOf s (w :: rest) = (t, rest, { dataOut := [w] }) ∧
      (w.last = false → t.header.ready = true ∧ t.metaWritten = true) ∧ (w.last = true → t.Idle) := by
  have hparse : s.header.parseWord w.data = s.header := by rw [PacketHeader.parseWord, if_pos hs.1]
  refine ⟨_, by simp only [processWith, hparse, hs.1, hs.2]; rfl, ?_, ?_⟩
  · intro hlast
    rw [hlast]
    exact ⟨hs.1, rfl⟩
  · intro hlast
    rw [hlast]
    exact ⟨parsed_clear (by decide) _, rfl, rfl⟩

/-- What is written for the words from the one on in which the header ends. -/
def packetWrites (dropped : BitVec 4) (bytes : List (BitVec 8)) :
    List (Word N) → List (ProcessIpv4Out N μ) :=
  IpHandler.emitFirst
    (fun w =>
      { process2dropLengthFifo := [getHeaderLength (headerOf 20 bytes) - dropped]
        metaOut := [metaOf (headerOf 20 bytes)]
        dataOut := [w] })
    (fun w => { dataOut := [w] })

/-- The rest of a packet, from the word on in which the header ends. -/
theorem process_rest {us : List (Word N)} (hs : Parsed s.header (us.map Word.data)) (hmeta : s.metaWritten = false)
    (h : Packet (us ++ w :: ws) bytes) (hends : Ends (w :: ws)) (hlen : 20 ≤ bytes.length)
    (hlong : 20 ≤ (us.length + 1) * N) (rest : List (Word N)) :
    ∃ t, Runs (processWith metaOf) s (w :: ws ++ rest) (packetWrites metaOf s.headerWordsDropped bytes (w :: ws)) t rest ∧
      t.Idle := by
  have hnext := hs.parseWord w.data
  rw [← List.map_singleton, ← List.map_append] at hnext
  have hfull : 160 ≤ ((us ++ [w]).map Word.data).length * (8 * N) := by
    rw [List.length_map, List.length_append, List.length_singleton, Nat.mul_left_comm]
    omega
  have hready : (s.header.parseWord w.data).ready = true := hnext.fed.ready.trans (decide_eq_true hfull)
  have hheader : (s.header.parseWord w.data).header = headerOf 20 bytes := by
    rw [hnext.header_eq hfull]
    have hpacket : Packet ((us ++ [w]) ++ ws) bytes := by
      rw [List.append_assoc, List.singleton_append]
      exact h
    rw [List.length_map] at hfull
    exact hpacket.header_bytes (n := 20) (by rw [Nat.mul_comm (8 * N)]; exact hfull) hlen
  have hcall : processWith metaOf s (w :: (ws ++ rest)) =
      ({ header := if w.last then (s.header.parseWord w.data).clear else s.header.parseWord w.data
         headerWordsDropped := if w.last then 0 else s.headerWordsDropped + BitVec.ofNat 4 (N / 4)
         metaWritten := !w.last }, ws ++ rest,
        { process2dropLengthFifo := [getHeaderLength (headerOf 20 bytes) - s.headerWordsDropped]
          metaOut := [metaOf (headerOf 20 bytes)]
          dataOut := [w] }) := by
    simp [processWith, hready, hheader, hmeta]
  refine Ends.runs_first (fun ws => ws) (fun s : ProcessIpv4 N => s.header.ready = true ∧ s.metaWritten = true)
    ProcessIpv4.Idle _ (process_behind metaOf) hends rest hcall ?_ ?_
  · intro hlast
    rw [hlast]
    exact ⟨hready, rfl⟩
  · intro hlast
    rw [hlast]
    exact ⟨parsed_clear (by decide) _, rfl, rfl⟩

/-- What is written for a packet. -/
structure PacketWrites (N : Nat) (ws : List (Word N)) (bytes : List (BitVec 8))
    (os : List (ProcessIpv4Out N μ)) (k : Nat) : Prop where
  lengths : os.flatMap (·.process2dropLengthFifo) =
    [(bytes.getD 0 0).extractLsb' 0 4 - BitVec.ofNat 4 (wordsBefore N * (N / 4))]
  metas : os.flatMap (·.metaOut) = [metaOf (headerOf 20 bytes)]
  data : os.flatMap (·.dataOut) = ws.drop k

/-- The words behind `us`.  Induction on them, up to the one in which the header ends. -/
theorem process_from (hN : 0 < N) (hlen : 20 ≤ bytes.length) (hends : Ends ws) (rest : List (Word N)) :
    ∀ (us : List (Word N)) {s : ProcessIpv4 N}, Parsed s.header (us.map Word.data) → s.metaWritten = false →
      s.headerWordsDropped = BitVec.ofNat 4 (us.length * (N / 4)) → us.length ≤ wordsBefore N →
      Packet (us ++ ws) bytes →
      ∃ os t, Runs (processWith metaOf) s (ws ++ rest) os t rest ∧ t.Idle ∧
        PacketWrites metaOf N ws bytes os (wordsBefore N - us.length) := by
  -- from the word on in which the header ends
  have hrest {s : ProcessIpv4 N} {us ws : List (Word N)} {w : Word N} (hs : Parsed s.header (us.map Word.data))
      (hmeta : s.metaWritten = false) (hdropped : s.headerWordsDropped = BitVec.ofNat 4 (us.length * (N / 4)))
      (hle : us.length ≤ wordsBefore N) (h : Packet (us ++ w :: ws) bytes) (hends : Ends (w :: ws))
      (hlong : 20 ≤ (us.length + 1) * N) :
      ∃ os t, Runs (processWith metaOf) s (w :: ws ++ rest) os t rest ∧ t.Idle ∧
        PacketWrites metaOf N (w :: ws) bytes os (wordsBefore N - us.length) := by
    have heq : us.length = wordsBefore N := by
      apply Nat.le_antisymm hle
      have hlt : 19 / N < us.length + 1 := (Nat.div_lt_iff_lt_mul hN).mpr hlong
      exact Nat.le_of_lt_succ hlt
    obtain ⟨t, hrun, ht⟩ := process_rest metaOf hs hmeta h hends hlen hlong rest
    refine ⟨_, t, hrun, ht, ?_, ?_, ?_⟩
    · rw [← heq, ← hdropped, ← getHeaderLength_headerOf]
      refine IpHandler.emitFirst_once ?_ ?_ (List.cons_ne_nil w ws) <;> exact fun _ => rfl
    · refine IpHandler.emitFirst_once ?_ ?_ (List.cons_ne_nil w ws) <;> exact fun _ => rfl
    · rw [heq, Nat.sub_self, List.drop_zero]
      refine IpHandler.emitFirst_words ?_ ?_ (w :: ws) <;> exact fun _ => rfl
  induction hends with
  | @last w hlast =>
    intro us s hs hmeta hdropped hle h
    have hbound := h.length_bytes.1
    rw [List.length_append, List.length_singleton] at hbound
    exact hrest hs hmeta hdropped hle h (.last hlast) (Nat.le_trans hlen hbound)
  | @cons w ws hlast hends ih =>
    intro us s hs hmeta hdropped hle h
    by_cases hlong : 20 ≤ (us.length + 1) * N
    · exact hrest hs hmeta hdropped hle h (.cons hlast hends) hlong
    · have hshort := Nat.lt_of_not_le hlong
      obtain ⟨t, hcall, ht, htmeta, htdropped⟩ := process_before metaOf hs hmeta hlast hshort (ws ++ rest)
      have hlt : us.length + 1 ≤ wordsBefore N := (Nat.le_div_iff_mul_le hN).mpr (Nat.le_of_lt_succ hshort)
      have hcount : t.headerWordsDropped = BitVec.ofNat 4 ((us ++ [w]).length * (N / 4)) := by
        rw [htdropped, hdropped, List.length_append, List.length_singleton, Nat.succ_mul, BitVec.ofNat_add]
      have hlength : (us ++ [w]).length = us.length + 1 := by rw [List.length_append, List.length_singleton]
      obtain ⟨os, u, hrun, hu, hwrites⟩ := ih (us ++ [w]) ht htmeta hcount (by rw [hlength]; exact hlt) (by
        rw [List.append_assoc, List.singleton_append]
        exact h)
      refine ⟨_, u, .call hcall hrun, hu, ?_, ?_, ?_⟩
      · rw [List.flatMap_cons, hwrites.lengths]
        rfl
      · rw [List.flatMap_cons, hwrites.metas]
        rfl
      · have hone : wordsBefore N - us.length = wordsBefore N - (us ++ [w]).length + 1 := by
          rw [hlength]
          omega
        rw [List.flatMap_cons, hwrites.data, hone]
        rfl

theorem process_packet (hN : 0 < N) (hs : s.Idle) (h : Packet ws bytes) (hlen : 20 ≤ bytes.length) (rest : List (Word N)) :
    ∃ os t, Runs (processWith metaOf) s (ws ++ rest) os t rest ∧ t.Idle ∧
      PacketWrites metaOf N ws bytes os (wordsBefore N) :=
  process_from metaOf hN hlen h.ends rest [] hs.header hs.metaWritten
    (hs.headerWordsDropped.trans (by rw [List.length_nil, Nat.zero_mul]; rfl)) (Nat.zero_le _) h

end

/-! ## One packet without its header -/

instance : Append (DropIpHeaderIn N) :=
  ⟨fun i j => ⟨i.process2dropLengthFifo ++ j.process2dropLengthFifo, i.process2dropFifo ++ j.process2dropFifo⟩⟩

instance : Std.Associative (α := DropIpHeaderIn N) (· ++ ·) :=
  ⟨fun _ _ _ => congrArg₂ DropIpHeaderIn.mk (List.append_assoc _ _ _) (List.append_assoc _ _ _)⟩

theorem dropOptionalIpHeader_waits : Waits (dropOptionalIpHeader (N := N)) [] := by
  intro s i
  obtain ⟨lengths, data⟩ := i
  obtain ⟨state, length, prev⟩ := s
  cases state with
  | META =>
    cases lengths with
    | nil => exact .inl rfl
    | cons len lengths =>
      cases data with
      | nil => exact .inl rfl
      | cons w data =>
        apply Or.inr
        intro x
        have hread : readLength ⟨.META, length, prev⟩ len w (data ++ x.process2dropFifo) =
            ((readLength ⟨.META, length, prev⟩ len w data).1,
              (readLength ⟨.META, length, prev⟩ len w data).2 ++ x.process2dropFifo) := by
          unfold readLength
          split
          · split <;> rfl
          · split <;> rfl
        show ((readLength ⟨.META, length, prev⟩ len w (data ++ x.process2dropFifo)).1,
          (⟨lengths ++ x.process2dropLengthFifo,
            (readLength ⟨.META, length, prev⟩ len w (data ++ x.process2dropFifo)).2⟩ : DropIpHeaderIn N), []) = _
        rw [hread]
        rfl
  | DROP | BODY | SHIFT | SHIFT_FIVE =>
    cases data with
    | nil => exact .inl rfl
    | cons w data => exact .inr fun x => rfl
  | LAST | LAST_FIVE => exact .inr fun x => rfl

section

variable (lengths : List (BitVec 4)) {s : DropIpHeader N}

theorem body_words (h : Ends ws) (rest : List (Word N)) (hs : s.dohState = .BODY) :
    ∃ t, Runs dropOptionalIpHeader s ⟨lengths, ws ++ rest⟩ (ws.map fun w => [w]) t ⟨lengths, rest⟩ ∧ t.dohState = .META := by
  refine h.runs_body (fun ws => (⟨lengths, ws⟩ : DropIpHeaderIn N)) (fun s : DropIpHeader N => s.dohState = .BODY)
    (fun s : DropIpHeader N => s.dohState = .META) (fun w => [w]) ?_ rest hs
  intro s w rest hs
  refine ⟨{ s with dohState := if w.last then .META else .BODY }, ?_, ?_, ?_⟩
  · unfold dropOptionalIpHeader
    rw [hs]
  · intro hlast
    rw [hlast]
    rfl
  · intro hlast
    rw [hlast]
    rfl

/-- In one of the two states that shift, the rest of a packet follows what is left of the word that is held back. -/
theorem shift_words {k : Nat} {shift : DohState} (last : DohState) (hk : k < N)
    (hshift : ∀ (s : DropIpHeader N) w rest, s.dohState = shift →
      dropOptionalIpHeader s ⟨lengths, w :: rest⟩ = ((shiftWord k shift last s w).1, ⟨lengths, rest⟩,
        (shiftWord k shift last s w).2))
    (hlast : ∀ (s : DropIpHeader N) i, s.dohState = last →
      dropOptionalIpHeader s i = ({ s with dohState := .META }, i, [.join k s.prevWord .zero true]))
    {q : List (BitVec 8)} (h : Packet ws bytes) (rest : List (Word N)) (hs : s.dohState = shift)
    (hprev : s.prevWord.lanes = q.map Axi.Lane.kept) :
    ∃ os t, Runs dropOptionalIpHeader s ⟨lengths, ws ++ rest⟩ os t ⟨lengths, rest⟩ ∧ t.dohState = .META ∧
      Packet os.flatten (q.drop k ++ bytes) := by
  have hrealign : ∃ os t, Runs dropOptionalIpHeader s ⟨lengths, ws ++ rest⟩ os t ⟨lengths, rest⟩ ∧ t.dohState = .META ∧
      Packet (os.flatMap id) (q.drop k ++ bytes) := by
    refine Axi.realign (fun ws => (⟨lengths, ws⟩ : DropIpHeaderIn N))
      (fun prev (s : DropIpHeader N) => s.dohState = shift ∧ s.prevWord = prev)
      (fun w (s : DropIpHeader N) => s.dohState = last ∧ s.prevWord = w)
      (fun s : DropIpHeader N => s.dohState = .META) ?_ ?_ ?_ h rest ⟨hs, rfl⟩ hprev
    · rintro s prev w bs rest ⟨hs, rfl⟩ hmore hw
      have hkeep := (Axi.Word.holds_full hw).keepAt k
      have hlen : bs.length = N := Axi.Word.length_full hw
      rw [decide_eq_true (by omega)] at hkeep
      refine ⟨_, _, hshift s w rest hs, ?_, ?_, rfl⟩
      · simp only [shiftWord, hkeep, Bool.not_true, id]
      · simp only [shiftWord, hkeep, hmore, Word.join, Bool.not_true, Bool.false_eq_true, if_false]
    · rintro s prev w bs rest ⟨hs, rfl⟩ hend hw
      have hkeep := hw.keepAt k
      have hfits : (!decide (k < bs.length)) = decide (bs.length ≤ k) := by
        rw [← decide_not]
        exact decide_eq_decide.mpr Nat.not_lt
      refine ⟨_, _, hshift s w rest hs, ?_, ?_⟩
      · simp only [shiftWord, hkeep, hfits, id]
      · by_cases hfit : bs.length ≤ k
        · simp [shiftWord, hkeep, hfit, Word.join, Nat.not_lt.mpr hfit]
        · simp [shiftWord, hkeep, hfit, Word.join, Nat.lt_of_not_le hfit, hend]
    · rintro s w rest ⟨hs, rfl⟩
      exact ⟨_, _, hlast s _ hs, rfl, rfl⟩
  simp only [List.flatMap_id] at hrealign
  exact hrealign

/-- The two shifts: by the word of four bytes that is not counted by the length, and by a header without options. -/
theorem shift_four (hN : 4 < N) {q : List (BitVec 8)} (h : Packet ws bytes) (rest : List (Word N))
    (hs : s.dohState = .SHIFT) (hprev : s.prevWord.lanes = q.map Axi.Lane.kept) :
    ∃ os t, Runs dropOptionalIpHeader s ⟨lengths, ws ++ rest⟩ os t ⟨lengths, rest⟩ ∧ t.dohState = .META ∧
      Packet os.flatten (q.drop 4 ++ bytes) := by
  refine shift_words lengths .LAST hN (fun s w rest hs => ?_) (fun s i hs => ?_) h rest hs hprev
  · unfold dropOptionalIpHeader
    rw [hs]
  · unfold dropOptionalIpHeader
    rw [hs]

theorem shift_header (hN : 20 < N) {q : List (BitVec 8)} (h : Packet ws bytes) (rest : List (Word N))
    (hs : s.dohState = .SHIFT_FIVE) (hprev : s.prevWord.lanes = q.map Axi.Lane.kept) :
    ∃ os t, Runs dropOptionalIpHeader s ⟨lengths, ws ++ rest⟩ os t ⟨lengths, rest⟩ ∧ t.dohState = .META ∧
      Packet os.flatten (q.drop 20 ++ bytes) := by
  refine shift_words lengths .LAST_FIVE hN (fun s w rest hs => ?_) (fun s i hs => ?_) h rest hs hprev
  · unfold dropOptionalIpHeader
    rw [hs]
  · unfold dropOptionalIpHeader
    rw [hs]

/-- The packet has ended before the header has. -/
def Overrun (s : DropIpHeader N) : Prop := s.dohState = .DROP ∨ s.dohState = .BODY ∨ s.dohState = .SHIFT

/-- The words that are read before the first one is sent, for a length. -/
def wordsHeld (length : Nat) : Nat := max 1 (length / 2)

/-- The bytes that are taken off what comes in, for a length. -/
def bytesDropped (N length : Nat) : Nat :=
  if length % 2 = 0 then wordsHeld length * N else (wordsHeld length - 1) * N + 4

/-- What comes of a packet up to 128 bits. -/
structure Cycle (ws : List (Word N)) (bytes : List (BitVec 8)) (length : Nat) (t : DropIpHeader N) (words : List (Word N)) :
    Prop where
  overrun : ws.length ≤ wordsHeld length → Overrun t ∧ words = []
  sent : wordsHeld length < ws.length → t.dohState = .META ∧ Packet words (bytes.drop (bytesDropped N length))

/-- The words that are dropped.  Induction on the packet: each takes two from the length. -/
theorem drop_words (hN : 4 < N) (h : Packet ws bytes) (rest : List (Word N)) :
    ∀ {s : DropIpHeader N}, s.dohState = .DROP → 2 ≤ s.length.toNat →
      ∃ os t, Runs dropOptionalIpHeader s ⟨lengths, ws ++ rest⟩ os t ⟨lengths, rest⟩ ∧
        Cycle ws bytes s.length.toNat t os.flatten := by
  have hcall {s : DropIpHeader N} (hs : s.dohState = .DROP) (w : Word N) (rest : List (Word N)) :
      dropOptionalIpHeader s ⟨lengths, w :: rest⟩ =
        (⟨if s.length - 2 = 1 then .SHIFT else if s.length - 2 = 0 then .BODY else .DROP, s.length - 2, w⟩,
          ⟨lengths, rest⟩, []) := by
    unfold dropOptionalIpHeader
    rw [hs]
  have hsub {length : BitVec 4} (hlow : 2 ≤ length.toNat) : (length - 2).toNat = length.toNat - 2 := by
    have hlt := length.isLt
    rw [BitVec.toNat_sub]
    show (2 ^ 4 - 2 + length.toNat) % 2 ^ 4 = _
    omega
  induction h with
  | @last w bs hlast hw =>
    intro s hs hlow
    refine ⟨_, _, .one (hcall hs w rest), ?_, ?_⟩
    · intro _
      refine ⟨?_, rfl⟩
      by_cases h1 : s.length - 2 = 1
      · exact .inr (.inr (if_pos h1))
      · by_cases h0 : s.length - 2 = 0
        · exact .inr (.inl ((if_neg h1).trans (if_pos h0)))
        · exact .inl ((if_neg h1).trans (if_neg h0))
    · intro hlong
      have hheld : 1 ≤ wordsHeld s.length.toNat := Nat.le_max_left _ _
      rw [List.length_singleton] at hlong
      omega
  | @cons w ws bs bs' hlast hw hmore ih =>
    intro s hs hlow
    have hthis := hcall hs w (ws ++ rest)
    have hlen : bs.length = N := Axi.Word.length_full hw
    have hpos := List.length_pos_iff.mpr hmore.ne_nil
    have hnat := hsub hlow
    by_cases h1 : s.length - 2 = 1
    · -- an odd length: four bytes are left in this word
      have hthree : s.length.toNat = 3 := by
        rw [h1] at hnat
        have : s.length.toNat - 2 = 1 := hnat.symm
        omega
      rw [if_pos h1] at hthis
      obtain ⟨os, t, hrun, ht, hout⟩ := shift_four lengths hN hmore rest (s := ⟨.SHIFT, s.length - 2, w⟩) rfl hw
      refine ⟨_, t, .call hthis hrun, ?_⟩
      rw [hthree]
      constructor
      · intro hshort
        rw [List.length_cons] at hshort
        have hheld : wordsHeld 3 = 1 := rfl
        omega
      · intro _
        refine ⟨ht, ?_⟩
        have hdropped : bytesDropped N 3 = 4 := by
          show (1 - 1) * N + 4 = 4
          rw [Nat.sub_self, Nat.zero_mul]
        rw [hdropped, List.drop_append_of_le_length (by omega)]
        exact hout
    · by_cases h0 : s.length - 2 = 0
      · have htwo : s.length.toNat = 2 := by
          rw [h0] at hnat
          have : s.length.toNat - 2 = 0 := hnat.symm
          omega
        rw [if_neg h1, if_pos h0] at hthis
        obtain ⟨t, hrun, ht⟩ := body_words lengths hmore.ends rest (s := ⟨.BODY, s.length - 2, w⟩) rfl
        refine ⟨_, t, .call hthis hrun, ?_⟩
        rw [htwo]
        constructor
        · intro hshort
          rw [List.length_cons] at hshort
          have hheld : wordsHeld 2 = 1 := rfl
          omega
        · intro _
          refine ⟨ht, ?_⟩
          have hdropped : bytesDropped N 2 = bs.length := by
            rw [hlen]
            show 1 * N = N
            exact Nat.one_mul N
          rw [hdropped, List.drop_left, List.flatten_cons, Axi.flatten_singletons]
          exact hmore
      · -- more words of the header
        have hmoreLen : 4 ≤ s.length.toNat := by
          have hne1 : s.length.toNat - 2 ≠ 1 := fun h => h1 (BitVec.eq_of_toNat_eq (hnat.trans h))
          have hne0 : s.length.toNat - 2 ≠ 0 := fun h => h0 (BitVec.eq_of_toNat_eq (hnat.trans h))
          omega
        rw [if_neg h1, if_neg h0] at hthis
        obtain ⟨os, t, hrun, hcycle⟩ := ih (s := ⟨.DROP, s.length - 2, w⟩) rfl (by
          show 2 ≤ (s.length - 2).toNat
          omega)
        change Cycle ws bs' (s.length - 2).toNat t os.flatten at hcycle
        rw [hnat] at hcycle
        have hheld : wordsHeld s.length.toNat = wordsHeld (s.length.toNat - 2) + 1 := by
          unfold wordsHeld
          omega
        have hheldPos : 1 ≤ wordsHeld (s.length.toNat - 2) := Nat.le_max_left _ _
        refine ⟨_, t, .call hthis hrun, ?_, ?_⟩
        · rw [hheld, List.length_cons]
          exact fun hshort => hcycle.overrun (Nat.le_of_succ_le_succ hshort)
        · rw [hheld, List.length_cons]
          intro hlong
          obtain ⟨ht, hout⟩ := hcycle.sent (Nat.lt_of_succ_lt_succ hlong)
          refine ⟨ht, ?_⟩
          have hdropped : bytesDropped N s.length.toNat = bs.length + bytesDropped N (s.length.toNat - 2) := by
            have hparity : s.length.toNat % 2 = (s.length.toNat - 2) % 2 := by omega
            have hone : wordsHeld (s.length.toNat - 2) + 1 - 1 = wordsHeld (s.length.toNat - 2) - 1 + 1 := by omega
            rw [bytesDropped, bytesDropped, hparity, hheld, hlen, hone, Nat.succ_mul, Nat.succ_mul]
            split <;> omega
          rw [hdropped, ← List.drop_drop, List.drop_left]
          exact hout

theorem narrow_cycle (hN : N = 8 ∨ N = 16) {length : BitVec 4} (hlow : 1 ≤ length.toNat) (h : Packet ws bytes)
    (hs : s.dohState = .META) (rest : List (Word N)) :
    ∃ os t, Runs dropOptionalIpHeader s ⟨length :: lengths, ws ++ rest⟩ os t ⟨lengths, rest⟩ ∧
      Cycle ws bytes length.toNat t os.flatten := by
  have hN4 : 4 < N := by omega
  have hcall (w : Word N) (more : List (Word N)) : dropOptionalIpHeader s ⟨length :: lengths, w :: more⟩ =
      ((readLength s length w more).1, ⟨lengths, (readLength s length w more).2⟩, []) := by
    unfold dropOptionalIpHeader
    rw [hs]
  by_cases hlong : 1 < length.toNat
  · obtain ⟨os, t, hrun, hcycle⟩ := drop_words lengths hN4 h rest (s := { s with dohState := .DROP, length := length }) rfl
      hlong
    obtain ⟨w, more, hws⟩ := List.exists_cons_of_ne_nil h.ne_nil
    have hthis := hcall w (more ++ rest)
    rw [readLength, if_pos hN, if_pos hlong, ← List.cons_append, ← hws] at hthis
    exact ⟨_, t, .call hthis hrun, hcycle⟩
  · have hone : length.toNat = 1 := by omega
    have hheld : wordsHeld length.toNat = 1 := by
      rw [hone]
      rfl
    cases h with
    | @last w bs hlast hw =>
      have hthis := hcall w rest
      rw [readLength, if_pos hN, if_neg hlong] at hthis
      refine ⟨_, _, .one hthis, fun _ => ⟨.inr (.inr rfl), rfl⟩, ?_⟩
      intro hmore
      rw [hheld, List.length_singleton] at hmore
      omega
    | @cons w ws bs bs' hlast hw hmore =>
      have hthis := hcall w (ws ++ rest)
      have hpos := List.length_pos_iff.mpr hmore.ne_nil
      have hlen : bs.length = N := Axi.Word.length_full hw
      rw [readLength, if_pos hN, if_neg hlong] at hthis
      obtain ⟨os, t, hrun, ht, hout⟩ := shift_four lengths hN4 hmore rest (s := ⟨.SHIFT, length, w⟩) rfl hw
      refine ⟨_, t, .call hthis hrun, ?_, ?_⟩
      · rw [hheld, List.length_cons]
        omega
      · intro _
        refine ⟨ht, ?_⟩
        have hdropped : bytesDropped N length.toNat = 4 := by
          rw [hone]
          show (1 - 1) * N + 4 = 4
          rw [Nat.sub_self, Nat.zero_mul]
        rw [hdropped, List.drop_append_of_le_length (by omega)]
        exact hout

theorem wide_cycle (hN : 20 < N) (h : Packet ws bytes) (hs : s.dohState = .META) (rest : List (Word N)) :
    ∃ os t, Runs dropOptionalIpHeader s ⟨5 :: lengths, ws ++ rest⟩ os t ⟨lengths, rest⟩ ∧ t.dohState = .META ∧
      Packet os.flatten (bytes.drop 20) := by
  have hnarrow : ¬(N = 8 ∨ N = 16) := by omega
  have hcall (w : Word N) (more : List (Word N)) : dropOptionalIpHeader s ⟨5 :: lengths, w :: more⟩ =
      (⟨if w.last then .LAST_FIVE else .SHIFT_FIVE, 5, w⟩, ⟨lengths, more⟩, []) := by
    unfold dropOptionalIpHeader
    rw [hs]
    simp only [readLength, if_neg hnarrow, if_true]
  cases h with
  | @last w bs hlast hw =>
    have hthis := hcall w rest
    rw [hlast] at hthis
    have hremainder : dropOptionalIpHeader ⟨.LAST_FIVE, 5, w⟩ ⟨lengths, rest⟩ =
        (⟨.META, 5, w⟩, ⟨lengths, rest⟩, [.join 20 w .zero true]) := rfl
    exact ⟨_, _, .call hthis (.one hremainder), rfl, .last rfl (hw.tail 20 true)⟩
  | @cons w ws bs bs' hlast hw hmore =>
    have hthis := hcall w (ws ++ rest)
    have hlen : bs.length = N := Axi.Word.length_full hw
    rw [hlast] at hthis
    obtain ⟨os, t, hrun, ht, hout⟩ := shift_header lengths hN hmore rest (s := ⟨.SHIFT_FIVE, 5, w⟩) rfl hw
    refine ⟨_, t, .call hthis hrun, ht, ?_⟩
    rw [List.drop_append_of_le_length (by omega)]
    exact hout

end

/-! ## How much can be written -/

theorem drop_state (length : BitVec 4) :
    (if length = 1 then DohState.SHIFT else if length = 0 then .BODY else .DROP) = .SHIFT ∨
      (if length = 1 then DohState.SHIFT else if length = 0 then .BODY else .DROP) = .BODY ∨
      (if length = 1 then DohState.SHIFT else if length = 0 then .BODY else .DROP) = .DROP := by
  split
  · exact .inl rfl
  · split
    · exact .inr (.inl rfl)
    · exact .inr (.inr rfl)

/-- Up to 128 bits a packet is only ended with a word that ends a packet of the input. -/
theorem narrow_spends (hN : N = 8 ∨ N = 16) {s t : DropIpHeader N} {i j : DropIpHeaderIn N} {os : List (List (Word N))}
    (h : Runs dropOptionalIpHeader s i os t j) (hs : s.dohState ≠ .SHIFT_FIVE ∧ s.dohState ≠ .LAST_FIVE)
    (hfull : ∀ w ∈ i.process2dropFifo, w.last = false → w.keepAt 4 = true) :
    os.flatten.countP (·.last) ≤ (if s.dohState = .LAST then 1 else 0) + i.process2dropFifo.countP (·.last) := by
  have hspends := Runs.spends
    (fun s i => (s.dohState ≠ .SHIFT_FIVE ∧ s.dohState ≠ .LAST_FIVE) ∧
      ∀ w ∈ i.process2dropFifo, w.last = false → w.keepAt 4 = true)
    (fun s i => (if s.dohState = .LAST then 1 else 0) + i.process2dropFifo.countP (·.last)) (List.countP (·.last)) ?_ h
    ⟨hs, hfull⟩
  · rw [List.countP_flatten]
    exact Nat.le_trans (Nat.le_add_right _ _) hspends
  · rintro ⟨state, length, prev⟩ ⟨lengths, data⟩ ⟨⟨hfive, hlastFive⟩, hfull⟩
    -- a word that is read and not sent
    have hread {w : Word N} {rest : List (Word N)} {state' : DohState} (hstate : state' ≠ .LAST) :
        List.countP (fun w : Word N => w.last) [] + ((if state' = .LAST then 1 else 0) + rest.countP (·.last)) ≤
          0 + (w :: rest).countP (·.last) := by
      rw [List.countP_nil, if_neg hstate, List.countP_cons]
      omega
    cases state with
    | META =>
      cases lengths with
      | nil => exact ⟨⟨⟨hfive, hlastFive⟩, hfull⟩, Nat.le_of_eq (Nat.zero_add _)⟩
      | cons len lengths =>
        cases data with
        | nil => exact ⟨⟨⟨hfive, hlastFive⟩, hfull⟩, Nat.le_of_eq (Nat.zero_add _)⟩
        | cons w rest =>
          by_cases hlong : 1 < len.toNat
          · have hcall : dropOptionalIpHeader ⟨.META, length, prev⟩ ⟨len :: lengths, w :: rest⟩ =
                (⟨.DROP, len, prev⟩, ⟨lengths, w :: rest⟩, []) := by
              simp only [dropOptionalIpHeader, readLength, if_pos hN, if_pos hlong]
            rw [hcall]
            exact ⟨⟨⟨by simp, by simp⟩, hfull⟩, Nat.le_of_eq (Nat.zero_add _)⟩
          · have hcall : dropOptionalIpHeader ⟨.META, length, prev⟩ ⟨len :: lengths, w :: rest⟩ =
                (⟨.SHIFT, len, w⟩, ⟨lengths, rest⟩, []) := by
              simp only [dropOptionalIpHeader, readLength, if_pos hN, if_neg hlong]
            rw [hcall]
            exact ⟨⟨⟨by simp, by simp⟩, fun v hv => hfull v (List.mem_cons_of_mem w hv)⟩,
              hread (by simp)⟩
    | DROP =>
      cases data with
      | nil => exact ⟨⟨⟨hfive, hlastFive⟩, hfull⟩, Nat.le_of_eq (Nat.zero_add _)⟩
      | cons w rest =>
        have hrest := (List.forall_mem_cons.mp hfull).2
        have hcall : dropOptionalIpHeader ⟨.DROP, length, prev⟩ ⟨lengths, w :: rest⟩ =
            (⟨if length - 2 = 1 then .SHIFT else if length - 2 = 0 then .BODY else .DROP, length - 2, w⟩,
              ⟨lengths, rest⟩, []) := rfl
        rw [hcall]
        rcases drop_state (length - 2) with hst | hst | hst <;>
          (rw [hst]; exact ⟨⟨⟨by simp, by simp⟩, hrest⟩, hread (by simp)⟩)
    | BODY =>
      cases data with
      | nil => exact ⟨⟨⟨hfive, hlastFive⟩, hfull⟩, Nat.le_of_eq (Nat.zero_add _)⟩
      | cons w rest =>
        have hrest := (List.forall_mem_cons.mp hfull).2
        have hcall : dropOptionalIpHeader ⟨.BODY, length, prev⟩ ⟨lengths, w :: rest⟩ =
            (⟨if w.last then .META else .BODY, length, prev⟩, ⟨lengths, rest⟩, [w]) := rfl
        rw [hcall]
        cases hlast : w.last with
        | true => exact ⟨⟨⟨by simp, by simp⟩, hrest⟩, by simp [hlast, Nat.add_comm]⟩
        | false => exact ⟨⟨⟨by simp, by simp⟩, hrest⟩, by simp [hlast]⟩
    | SHIFT =>
      cases data with
      | nil => exact ⟨⟨⟨hfive, hlastFive⟩, hfull⟩, Nat.le_of_eq (Nat.zero_add _)⟩
      | cons w rest =>
        have hrest := (List.forall_mem_cons.mp hfull).2
        have hcall : dropOptionalIpHeader ⟨.SHIFT, length, prev⟩ ⟨lengths, w :: rest⟩ =
            (⟨if w.keepAt 4 = true then if w.last then .LAST else .SHIFT else .META, length, w⟩, ⟨lengths, rest⟩,
              [.join 4 prev w (!w.keepAt 4)]) := by
          cases hkeep : w.keepAt 4 <;> simp [dropOptionalIpHeader, shiftWord, Word.join, hkeep]
        rw [hcall]
        cases hlast : w.last with
        | true =>
          cases hkeep : w.keepAt 4 with
          | true | false =>
            exact ⟨⟨⟨by simp, by simp⟩, hrest⟩, by simp [hlast, Word.join]; omega⟩
        | false =>
          rw [hfull w List.mem_cons_self hlast]
          exact ⟨⟨⟨by simp, by simp⟩, hrest⟩, by simp [hlast, Word.join]⟩
    | LAST =>
      exact ⟨⟨by simp [dropOptionalIpHeader], hfull⟩, by simp [dropOptionalIpHeader, Word.join]⟩
    | SHIFT_FIVE => exact absurd rfl hfive
    | LAST_FIVE => exact absurd rfl hlastFive

theorem wide_spends {s t : DropIpHeader N} {i j : DropIpHeaderIn N} {os : List (List (Word N))}
    (h : Runs dropOptionalIpHeader s i os t j) :
    os.flatten.countP (·.last) ≤ (if s.dohState = .META then 0 else 1) + i.process2dropLengthFifo.length := by
  have hspends := Runs.spends (fun _ _ => True)
    (fun s i => (if s.dohState = .META then 0 else 1) + i.process2dropLengthFifo.length) (List.countP (·.last)) ?_ h trivial
  · rw [List.countP_flatten]
    exact Nat.le_trans (Nat.le_add_right _ _) hspends
  · rintro ⟨state, length, prev⟩ ⟨lengths, data⟩ -
    refine ⟨trivial, ?_⟩
    cases state with
    | META =>
      cases lengths with
      | nil => exact Nat.le_of_eq (Nat.zero_add _)
      | cons len lengths =>
        cases data with
        | nil => exact Nat.le_of_eq (Nat.zero_add _)
        | cons w rest =>
          show 0 + ((if (readLength ⟨.META, length, prev⟩ len w rest).1.dohState = .META then 0 else 1) +
            lengths.length) ≤ 0 + (lengths.length + 1)
          split <;> omega
    | DROP =>
      cases data with
      | nil => exact Nat.le_of_eq (Nat.zero_add _)
      | cons w rest =>
        have hcall : dropOptionalIpHeader ⟨.DROP, length, prev⟩ ⟨lengths, w :: rest⟩ =
            (⟨if length - 2 = 1 then .SHIFT else if length - 2 = 0 then .BODY else .DROP, length - 2, w⟩,
              ⟨lengths, rest⟩, []) := rfl
        rw [hcall]
        rcases drop_state (length - 2) with hst | hst | hst <;> (rw [hst]; simp)
    | BODY =>
      cases data with
      | nil => exact Nat.le_of_eq (Nat.zero_add _)
      | cons w rest =>
        cases hlast : w.last <;> simp [dropOptionalIpHeader, hlast]
    | SHIFT =>
      cases data with
      | nil => exact Nat.le_of_eq (Nat.zero_add _)
      | cons w rest =>
        cases hkeep : w.keepAt 4 <;> cases hlast : w.last <;>
          simp [dropOptionalIpHeader, shiftWord, Word.join, hkeep, hlast]
    | SHIFT_FIVE =>
      cases data with
      | nil => exact Nat.le_of_eq (Nat.zero_add _)
      | cons w rest =>
        cases hkeep : w.keepAt 20 <;> cases hlast : w.last <;>
          simp [dropOptionalIpHeader, shiftWord, Word.join, hkeep, hlast]
    | LAST | LAST_FIVE => simp [dropOptionalIpHeader, Word.join]

/-! ## Every packet -/

/-- A packet with its header and something behind it. -/
structure HasPayload (p : Framed N) : Prop where
  least : 5 ≤ ihl p.bytes
  payload : 4 * ihl p.bytes < p.bytes.length

def payload (p : Framed N) : List (BitVec 8) := p.bytes.drop (4 * ihl p.bytes)

/-- The header is taken off right: with words of 64 bits when its length is even, or when there are no options and the packet
goes on behind the word in which the header ends; with 128 bits only for two lengths, when the packet goes on behind that
word; and above that only without options. -/
def Removable (p : Framed N) : Prop :=
  if N = 8 then ihl p.bytes % 2 = 0 ∨ ihl p.bytes = 5 ∧ 3 < p.words.length
  else if N = 16 then ihl p.bytes = 5 ∧ 2 < p.words.length ∨ ihl p.bytes = 9 ∧ 3 < p.words.length
  else ihl p.bytes = 5

instance (p : Framed N) : Decidable (Removable p) :=
  inferInstanceAs (Decidable (if N = 8 then ihl p.bytes % 2 = 0 ∨ ihl p.bytes = 5 ∧ 3 < p.words.length
    else if N = 16 then ihl p.bytes = 5 ∧ 2 < p.words.length ∨ ihl p.bytes = 9 ∧ 3 < p.words.length
    else ihl p.bytes = 5))

/-- What the process tells of the header of a packet. -/
def lengthFor (p : Framed N) : BitVec 4 := (p.bytes.getD 0 0).extractLsb' 0 4 - BitVec.ofNat 4 (wordsBefore N * (N / 4))

/-- What the process passes on of a packet. -/
def forwarded (p : Framed N) : List (Word N) := p.words.drop (wordsBefore N)

/-- The two streams between the processes. -/
def dropInput (ps : List (Framed N)) : DropIpHeaderIn N := ⟨ps.map lengthFor, ps.flatMap forwarded⟩

variable {p : Framed N}

theorem forwarded_packet (hN : 0 < N) (hlen : 20 ≤ p.bytes.length) :
    Packet (forwarded p) (p.bytes.drop (wordsBefore N * N)) := by
  apply p.packet.drop
  have hbefore : wordsBefore N * N ≤ 19 := Nat.div_mul_le_self 19 N
  have hbound := p.packet.length_bytes.1
  exact Nat.lt_of_mul_lt_mul_right (a := N) (by omega)

theorem forwarded_packets (hN : 0 < N) {ps : List (Framed N)} (hps : ∀ p ∈ ps, 20 ≤ p.bytes.length) :
    Packets (ps.flatMap forwarded) (ps.map fun p => p.bytes.drop (wordsBefore N * N)) := by
  induction ps with
  | nil => exact .nil
  | cons p ps ih =>
    obtain ⟨hp, hps⟩ := List.forall_mem_cons.mp hps
    exact .cons (forwarded_packet hN hp) (ih hps)

theorem HasPayload.fixed (h : HasPayload p) : 20 ≤ p.bytes.length := by
  have hleast := h.least
  have hpayload := h.payload
  omega

theorem payload_ne (hp : HasPayload p) {k : Nat} (hk : k ≠ 4 * ihl p.bytes) :
    payload p ≠ p.bytes.drop k := by
  intro heq
  have hlen := congrArg List.length heq
  have hpayload := hp.payload
  rw [payload, List.length_drop, List.length_drop] at hlen
  omega

theorem removable_narrow (hN : N = 8 ∨ N = 16) (hp : HasPayload p) :
    Removable p ↔ wordsHeld (ihl p.bytes - 4) < (forwarded p).length ∧
      16 + bytesDropped N (ihl p.bytes - 4) = 4 * ihl p.bytes := by
  have hihl := ihl_lt p.bytes
  have hleast := hp.least
  have hpayload := hp.payload
  have hbound := p.packet.length_bytes.1
  unfold Removable bytesDropped wordsHeld
  rw [forwarded, List.length_drop, wordsBefore]
  generalize p.words.length = words at hbound ⊢
  generalize ihl p.bytes = n at hihl hleast hpayload ⊢
  rcases hN with rfl | rfl
  · rw [if_pos rfl]
    split <;> omega
  · rw [if_neg (by decide), if_pos rfl]
    split <;> omega

/-- The words carry what is behind the header of each packet. -/
def PayloadsOf (ps : List (Framed N)) (out : List (Word N)) : Prop := Packets out (ps.map payload)

theorem lengthFor_narrow (hN : N = 8 ∨ N = 16) (hp : HasPayload p) :
    (lengthFor p).toNat = ihl p.bytes - 4 := by
  have hleast := hp.least
  have hwords : wordsBefore N * (N / 4) = 4 := by rcases hN with rfl | rfl <;> rfl
  unfold lengthFor
  unfold ihl at hleast ⊢
  rw [hwords]
  generalize (p.bytes.getD 0 0).extractLsb' 0 4 = nibble at hleast ⊢
  have hlt := nibble.isLt
  rw [BitVec.toNat_sub, BitVec.toNat_ofNat]
  omega

theorem lengthFor_wide (hN : N = 32 ∨ N = 64) (p : Framed N) : (lengthFor p).toNat = ihl p.bytes := by
  have hwords : wordsBefore N * (N / 4) = 0 := by rcases hN with rfl | rfl <;> rfl
  rw [lengthFor, hwords]
  exact congrArg BitVec.toNat (BitVec.sub_zero _)

-- what is missing cannot be written later
theorem not_payloads {ps : List (Framed N)} {out : List (Word N)} (h : out.countP (·.last) ≤ ps.length) :
    ¬PayloadsOf (p :: ps) out := by
  intro hall
  have hcount := hall.countP_last
  rw [List.length_map, List.length_cons] at hcount
  omega

theorem drop_idle {s : DropIpHeader N} (hs : s.dohState = .META) : dropOptionalIpHeader s ⟨[], []⟩ = (s, ⟨[], []⟩, []) := by
  unfold dropOptionalIpHeader
  rw [hs]

theorem drop_narrow_iff (hN : N = 8 ∨ N = 16) (ps : List (Framed N)) (hps : ∀ p ∈ ps, HasPayload p) :
    (∃ out, Completes dropOptionalIpHeader [] id (·.dohState = .META) {} ⟨[], []⟩ (dropInput ps) out ∧
      PayloadsOf ps out) ↔ ∀ p ∈ ps, Removable p := by
  have hpos : 0 < N := by omega
  have hbefore : wordsBefore N * N = 16 := by rcases hN with rfl | rfl <;> rfl
  have hcycle {s : DropIpHeader N} (hs : s.dohState = .META) {p : Framed N} (hp : HasPayload p) (ps : List (Framed N)) :
      ∃ os t, Runs dropOptionalIpHeader s (dropInput (p :: ps)) os t (dropInput ps) ∧
        Cycle (forwarded p) (p.bytes.drop 16) (ihl p.bytes - 4) t os.flatten := by
    have hlength := lengthFor_narrow hN hp
    have hpacket := forwarded_packet hpos hp.fixed
    rw [hbefore] at hpacket
    have hleast := hp.least
    have hlow : 1 ≤ (lengthFor p).toNat := by omega
    have hone := narrow_cycle (ps.map lengthFor) hN hlow hpacket hs (ps.flatMap forwarded)
    rw [hlength] at hone
    exact hone
  refine completes_iff_of_wrong dropInput dropOptionalIpHeader_waits rfl rfl (fun s hs => drop_idle hs) .nil ?_ ?_ ps rfl
    hps
  · intro s p ps hs hp hright
    obtain ⟨os, t, hrun, hone⟩ := hcycle hs hp ps
    obtain ⟨hlong, hbytes⟩ := (removable_narrow hN hp).mp hright
    obtain ⟨ht, hout⟩ := hone.sent hlong
    rw [List.drop_drop, hbytes] at hout
    refine ⟨os, t, hrun, ht, fun rest => ?_⟩
    rw [PayloadsOf, List.map_cons, List.flatMap_id, Axi.packets_cons_iff hout.ends]
    exact ⟨fun h => h.2, fun h => ⟨hout, h⟩⟩
  · intro s p ps os' u j hs hp hps hwrong hrests
    obtain ⟨os, t, hrun, hone⟩ := hcycle hs hp ps
    obtain ⟨os'', hmore, hsplit⟩ := Rests.after (g := id) hrests rfl hrun
    rw [hsplit, List.flatMap_id, List.flatMap_id]
    by_cases hlong : wordsHeld (ihl p.bytes - 4) < (forwarded p).length
    · -- something else is written
      obtain ⟨-, hout⟩ := hone.sent hlong
      rw [List.drop_drop] at hout
      rw [PayloadsOf, List.map_cons, Axi.packets_cons_iff hout.ends, hout.bytes_iff]
      rintro ⟨heq, -⟩
      exact payload_ne hp (fun hbytes => hwrong ((removable_narrow hN hp).mpr ⟨hlong, hbytes⟩)) heq
    · -- the next packets are taken for the rest of this one
      obtain ⟨hover, hnone⟩ := hone.overrun (Nat.le_of_not_lt hlong)
      rw [hnone, List.nil_append]
      apply not_payloads
      have hfixed : ∀ p ∈ ps, 20 ≤ p.bytes.length := fun p hp => (hps p hp).fixed
      have hfull : ∀ w ∈ ps.flatMap forwarded, w.last = false → w.keepAt 4 = true := by
        intro w hw hlast
        obtain ⟨p, hp, hwp⟩ := List.mem_flatMap.mp hw
        obtain ⟨q, hq⟩ := (forwarded_packet hpos (hfixed p hp)).full_of_more w hwp hlast
        have hlen : q.length = N := Axi.Word.length_full hq
        rw [(Axi.Word.holds_full hq).keepAt, decide_eq_true (by omega)]
      have hstate : t.dohState ≠ .SHIFT_FIVE ∧ t.dohState ≠ .LAST_FIVE ∧ t.dohState ≠ .LAST := by
        rcases hover with hst | hst | hst <;>
          (rw [hst]; decide)
      have hle := narrow_spends hN hmore.run ⟨hstate.1, hstate.2.1⟩ hfull
      have hcount := (forwarded_packets hpos hfixed).countP_last
      rw [List.length_map] at hcount
      rw [if_neg hstate.2.2, Nat.zero_add] at hle
      exact Nat.le_trans hle (Nat.le_of_eq hcount)

theorem drop_wide_iff (hN : N = 32 ∨ N = 64) (ps : List (Framed N)) (hps : ∀ p ∈ ps, HasPayload p) :
    (∃ out, Completes dropOptionalIpHeader [] id (·.dohState = .META) {} ⟨[], []⟩ (dropInput ps) out ∧
      PayloadsOf ps out) ↔ ∀ p ∈ ps, Removable p := by
  have hpos : 0 < N := by omega
  have hnarrow : ¬(N = 8 ∨ N = 16) := by omega
  have hbefore : wordsBefore N * N = 0 := by rcases hN with rfl | rfl <;> rfl
  have hremovable (p : Framed N) : Removable p ↔ ihl p.bytes = 5 := by
    rw [Removable, if_neg fun h => hnarrow (.inl h), if_neg fun h => hnarrow (.inr h)]
  refine completes_iff_of_wrong dropInput dropOptionalIpHeader_waits rfl rfl (fun s hs => drop_idle hs) .nil ?_ ?_ ps rfl
    hps
  · intro s p ps hs hp hright
    have hfive : lengthFor p = 5 := BitVec.eq_of_toNat_eq ((lengthFor_wide hN p).trans ((hremovable p).mp hright))
    have hpacket := forwarded_packet hpos hp.fixed
    rw [hbefore, List.drop_zero] at hpacket
    obtain ⟨os, t, hrun, ht, hout⟩ := wide_cycle (ps.map lengthFor) (by omega) hpacket hs (ps.flatMap forwarded)
    rw [← hfive] at hrun
    refine ⟨os, t, hrun, ht, fun rest => ?_⟩
    have hbytes : payload p = p.bytes.drop 20 := by rw [payload, (hremovable p).mp hright]
    rw [PayloadsOf, List.map_cons, List.flatMap_id, Axi.packets_cons_iff hout.ends, hbytes]
    exact ⟨fun h => h.2, fun h => ⟨hout, h⟩⟩
  · intro s p ps os' u j hs hp hps hwrong hrests
    have hfive : lengthFor p ≠ 5 := by
      intro h
      apply hwrong
      rw [hremovable, ← lengthFor_wide hN p, h]
      rfl
    have hpacket := forwarded_packet hpos hp.fixed
    obtain ⟨w, more, hwords⟩ := List.exists_cons_of_ne_nil hpacket.ne_nil
    -- the length is read, and the words stay
    have hcall : dropOptionalIpHeader s (dropInput (p :: ps)) =
        ({ s with length := lengthFor p }, ⟨ps.map lengthFor, (p :: ps).flatMap forwarded⟩, []) := by
      have hinput : dropInput (p :: ps) = ⟨lengthFor p :: ps.map lengthFor, w :: (more ++ ps.flatMap forwarded)⟩ := by
        rw [dropInput, List.flatMap_cons, hwords]
        rfl
      rw [hinput, List.flatMap_cons, hwords]
      obtain ⟨state, length, prev⟩ := s
      cases hs
      simp only [dropOptionalIpHeader, readLength, if_neg hnarrow, if_neg hfive]
      rfl
    obtain ⟨os'', hmore, hsplit⟩ := Rests.after (g := id) hrests rfl (.one hcall)
    rw [hsplit, List.flatMap_id, List.flatMap_id]
    apply not_payloads
    have hle := wide_spends hmore.run
    change os''.flatten.countP (·.last) ≤ (if s.dohState = .META then 0 else 1) + (ps.map lengthFor).length at hle
    rw [hs, if_pos rfl, Nat.zero_add, List.length_map] at hle
    exact hle

/-! ## Both processes -/

/-- Of every packet the metadata and, as one packet, what is behind its header. -/
def RemovesHeaders {μ : Type} (process : ProcessIpv4 N → List (Word N) → ProcessIpv4 N × List (Word N) × ProcessIpv4Out N μ)
    (metaOf : Framed N → μ) (ps : List (Framed N)) : Prop :=
  ∃ lengths data out,
    Completes process {} (·.process2dropLengthFifo) ProcessIpv4.Idle {} [] (ps.flatMap (·.words)) lengths ∧
    Completes process {} (·.dataOut) ProcessIpv4.Idle {} [] (ps.flatMap (·.words)) data ∧
    Completes process {} (·.metaOut) ProcessIpv4.Idle {} [] (ps.flatMap (·.words)) (ps.map metaOf) ∧
    Completes dropOptionalIpHeader [] id (·.dohState = .META) {} ⟨[], []⟩ ⟨lengths, data⟩ out ∧ PayloadsOf ps out

section

variable {μ : Type} {metaOf : BitVec IPV4_HEADER_SIZE → μ}

theorem process_completes (metaOf : BitVec IPV4_HEADER_SIZE → μ) (hN : 0 < N) {β : Type}
    {g : ProcessIpv4Out N μ → List β} (hg : g {} = []) (h : Framed N → List β)
    (hone : ∀ (p : Framed N) os, PacketWrites metaOf N p.words p.bytes os (wordsBefore N) → os.flatMap g = h p)
    {ps : List (Framed N)} (hps : ∀ p ∈ ps, HasPayload p) :
    Completes (processWith metaOf) {} g ProcessIpv4.Idle {} [] (ps.flatMap (·.words)) (ps.flatMap h) := by
  refine completes_each (Q := HasPayload) h (fun ps : List (Framed N) => ps.flatMap (·.words)) (processWith_waits metaOf)
    hg rfl (fun s hs => rfl) ?_ ps ProcessIpv4.idle_init hps
  intro s p ps hs hp
  obtain ⟨os, t, hrun, ht, hwrites⟩ := process_packet metaOf hN hs p.packet hp.fixed (ps.flatMap (·.words))
  exact ⟨os, t, hrun, ht, hone p os hwrites⟩

theorem removes_headers_iff (hN : N ∈ [8, 16, 32, 64]) {ofPacket : Framed N → μ}
    (hmeta : ∀ p, metaOf (headerOf 20 p.bytes) = ofPacket p) {ps : List (Framed N)} (hps : ∀ p ∈ ps, HasPayload p) :
    RemovesHeaders (processWith metaOf) ofPacket ps ↔ ∀ p ∈ ps, Removable p := by
  have hwidth : N = 8 ∨ N = 16 ∨ N = 32 ∨ N = 64 := by simpa using hN
  have hpos : 0 < N := by omega
  have hlengths := process_completes metaOf (g := (·.process2dropLengthFifo)) hpos rfl
    (fun p => [lengthFor p]) (fun p os h => h.lengths) hps
  have hdata := process_completes metaOf (g := (·.dataOut)) hpos rfl forwarded (fun p os h => h.data) hps
  have hmetas := process_completes metaOf (g := (·.metaOut)) hpos rfl (fun p => [ofPacket p])
    (fun p os h => h.metas.trans (congrArg (fun m => [m]) (hmeta p))) hps
  rw [← List.map_eq_flatMap] at hlengths hmetas
  have hdrop : (∃ out, Completes dropOptionalIpHeader [] id (·.dohState = .META) {} ⟨[], []⟩ (dropInput ps) out ∧
      PayloadsOf ps out) ↔ ∀ p ∈ ps, Removable p := by
    rcases hwidth with h | h | h | h
    · exact drop_narrow_iff (.inl h) ps hps
    · exact drop_narrow_iff (.inr h) ps hps
    · exact drop_wide_iff (.inl h) ps hps
    · exact drop_wide_iff (.inr h) ps hps
  rw [← hdrop]
  constructor
  · rintro ⟨lengths, data, out, hlengths', hdata', -, hout⟩
    rw [hlengths.unique rfl hlengths', hdata.unique rfl hdata'] at hout
    exact ⟨out, hout⟩
  · rintro ⟨out, hout⟩
    exact ⟨_, _, out, hlengths, hdata, hmetas, hout⟩

end

/-- The metadata of a packet, in `process_ipv4` and in `toe_process_ipv4`. -/
def ipMetaOf (p : Framed N) : Udp.IpMeta := ⟨source p.bytes, lengthOf p.bytes⟩

def pseudoMetaOf (p : Framed N) : PseudoMeta :=
  ⟨source p.bytes, IpHandler.destination p.bytes, lengthOf p.bytes - BitVec.ofNat 16 (4 * ihl p.bytes)⟩

/-- Metadata and data are right for all packets exactly when the header of every one can be taken off. -/
theorem header_removal_iff (hN : N ∈ [8, 16, 32, 64]) (ps : List (Framed N)) (hps : ∀ p ∈ ps, HasPayload p) :
    (RemovesHeaders processIpv4 ipMetaOf ps ↔ ∀ p ∈ ps, Removable p) ∧
    (RemovesHeaders toeProcessIpv4 pseudoMetaOf ps ↔ ∀ p ∈ ps, Removable p) := by
  constructor
  · apply removes_headers_iff hN ?_ hps
    intro p
    rw [getSrcAddr_headerOf, getLength_headerOf]
    rfl
  · apply removes_headers_iff hN ?_ hps
    intro p
    rw [getSrcAddr_headerOf, getDstAddr_headerOf, getLength_headerOf, getHeaderLength_headerOf, Nat.mul_comm]
    rfl

/-- A header without options and one byte behind it, in words of eight bytes and in one of thirty-two. -/
def byteWords : Framed 8 :=
  .full ((headerWith 0x45).take 8) rfl (.full (((headerWith 0x45).drop 8).take 8) rfl
    (.single ((headerWith 0x45).drop 16 ++ [0x2A]) (by decide)))

def byteWord : Framed 32 := .single (headerWith 0x45 ++ [0x2A]) (by decide)

theorem header_removal_iff_byte :
    RemovesHeaders processIpv4 ipMetaOf [byteWord] ∧ RemovesHeaders toeProcessIpv4 pseudoMetaOf [byteWord] := by
  have hpayload : ∀ p ∈ [byteWord], HasPayload p := by
    intro p hp
    rw [List.mem_singleton.mp hp]
    constructor <;> decide
  have hremovable : ∀ p ∈ [byteWord], Removable p := by
    intro p hp
    rw [List.mem_singleton.mp hp]
    decide
  have hiff := header_removal_iff (by decide) [byteWord] hpayload
  exact ⟨hiff.1.mpr hremovable, hiff.2.mpr hremovable⟩

/-- The packet ends in the word that is held back, and the process waits for another one. -/
theorem byte_held : ¬ ∀ ps : List (Framed 8), (∀ p ∈ ps, HasPayload p) → RemovesHeaders processIpv4 ipMetaOf ps := by
  intro h
  have hpayload : ∀ p ∈ [byteWords], HasPayload p := by
    intro p hp
    rw [List.mem_singleton.mp hp]
    constructor <;> decide
  have hmeta (p : Framed 8) : (⟨getSrcAddr (headerOf 20 p.bytes), getLength (headerOf 20 p.bytes)⟩ : Udp.IpMeta) =
      ipMetaOf p := by
    rw [getSrcAddr_headerOf, getLength_headerOf]
    rfl
  have hremovable := (removes_headers_iff (by decide) hmeta hpayload).mp (h [byteWords] hpayload)
  exact absurd (hremovable byteWords List.mem_cons_self) (by decide)

end FpgaNetworkStack.Ipv4
