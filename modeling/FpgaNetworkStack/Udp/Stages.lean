import FpgaNetworkStack.Roce.PacketStages
import FpgaNetworkStack.Udp.Engine

/-!
# One datagram on its way

What `generate_udp` and `process_udp` make of one packet, from where they wait for it to where they wait for the
next one.
-/

namespace FpgaNetworkStack.Udp

open Lib
open Axi (Lane Word Packet forward_overlay octets length_octets overlay overlay_lanes)
open Roce (PacketHeader Parsed parsed_clear Supported remainingLength)
open Toe (reverse16 reverse16_reverse16)

variable {N : Nat}

/-! ## The header -/

section

variable (a b c d : BitVec 16)

-- four fields of 16 bits, from the lowest on
theorem extract_first : (a ++ (b ++ (c ++ d))).extractLsb' 0 16 = d := by
  apply BitVec.eq_of_getLsbD_eq
  intro i hi
  have hc : i < 16 + 16 := by omega
  have hb : i < 16 + (16 + 16) := by omega
  rw [BitVec.getLsbD_extractLsb', BitVec.getLsbD_append, BitVec.getLsbD_append, BitVec.getLsbD_append]
  simp only [Nat.zero_add, hi, hc, hb, decide_true, Bool.true_and, if_true]

theorem extract_second : (a ++ (b ++ (c ++ d))).extractLsb' 16 16 = c := by
  apply BitVec.eq_of_getLsbD_eq
  intro i hi
  have hd : ¬16 + i < 16 := by omega
  have hc : 16 + i < 16 + 16 := by omega
  have hb : 16 + i < 16 + (16 + 16) := by omega
  rw [BitVec.getLsbD_extractLsb', BitVec.getLsbD_append, BitVec.getLsbD_append, BitVec.getLsbD_append]
  simp only [hi, hd, hc, hb, decide_true, Bool.true_and, if_true, if_false, Nat.add_sub_cancel_left]

theorem extract_third : (a ++ (b ++ (c ++ d))).extractLsb' 32 16 = b := by
  apply BitVec.eq_of_getLsbD_eq
  intro i hi
  have hc : ¬32 + i < 16 + 16 := by omega
  have hb : 32 + i < 16 + (16 + 16) := by omega
  have hsub : 32 + i - (16 + 16) = i := by omega
  rw [BitVec.getLsbD_extractLsb', BitVec.getLsbD_append, BitVec.getLsbD_append]
  simp only [hi, hc, hb, hsub, decide_true, Bool.true_and, if_true, if_false]

end

section

variable (header : BitVec UDP_HEADER_SIZE) (srcPort dstPort len : BitVec 16)

theorem getSrcPort_setHeader : getSrcPort (setHeader header srcPort dstPort len) = srcPort :=
  (congrArg reverse16 (extract_first _ _ _ _)).trans (reverse16_reverse16 srcPort)

theorem getDstPort_setHeader : getDstPort (setHeader header srcPort dstPort len) = dstPort :=
  (congrArg reverse16 (extract_second _ _ _ _)).trans (reverse16_reverse16 dstPort)

theorem getLength_setHeader : getLength (setHeader header srcPort dstPort len) = len :=
  (congrArg reverse16 (extract_third _ _ _ _)).trans (reverse16_reverse16 len)

end

/-! ## `generate_udp` -/

section

variable {s : GenerateUdp} (metas : List UdpMeta) (rest : List (Word N)) {ws : List (Word N)} {bs : List (BitVec 8)}

-- what is left of the header goes over the room in front of the payload
theorem generate_body (hst : s.state = .PARTIAL_HEADER) {q : List (BitVec 8)} (hlen : (s.consume N).length = q.length)
    (hN : q.length ≤ N) (h : Packet ws (q ++ bs)) :
    ∃ os t, Runs generateUdp s ⟨metas, ws ++ rest⟩ os t ⟨metas, rest⟩ ∧ t.state = .META ∧
      Packet os.flatten (s.consume N ++ bs) := by
  exact forward_overlay (f := generateUdp) (fun ws => ⟨metas, ws⟩) (fun s => s.state = .BODY)
    (fun s => s.state = .META) (s := s)
    (by
      intro s w rest hst hw
      refine ⟨{ s with state := .BODY }, ?_, rfl⟩
      simp [generateUdp, hst, hw])
    (by
      intro s w rest hst hw
      refine ⟨{ s with state := .META }, ?_, rfl⟩
      simp [generateUdp, hst, hw])
    (by
      intro w rest
      refine ⟨{ s with idx := s.idx + 1, state := if w.last then .META else .BODY }, ?_, ?_, ?_⟩
      · simp [generateUdp, hst]
      · intro hw
        simp [hw]
      · intro hw
        simp [hw])
    hlen hN h rest

-- in words of 64 bits the header is a word
theorem generate_header (hst : s.state = .HEADER) (hidx : s.idx = 0) (i : GenerateUdpIn 8) :
    ∃ w, generateUdp s i = ({ s with idx := 1, state := .PARTIAL_HEADER }, i, [w]) ∧ w.last = false ∧
      w.lanes = (octets 8 s.header).map Lane.kept := by
  let full : Word 8 := ⟨List.replicate 8 ⟨0, true⟩, false, List.length_replicate⟩
  refine ⟨overlay (octets 8 s.header) full, ?_, rfl, ?_⟩
  · have hconsume : s.consume 8 = octets 8 s.header := by
      rw [GenerateUdp.consume, hidx, Nat.zero_mul, List.drop_zero, List.take_of_length_le (by rw [length_octets])]
    simp [generateUdp, hst, hidx, remainingLength, UDP_HEADER_SIZE, hconsume, full]
  · have hlen : (octets 8 s.header).length = (List.replicate 8 (0 : BitVec 8)).length := by
      rw [length_octets, List.length_replicate]
    have hfull : full.lanes = (List.replicate 8 0).map Lane.kept ++ [] := rfl
    have hfill := overlay_lanes hfull hlen
    rw [List.append_nil] at hfill
    exact hfill

/-- The header takes the room in front of the payload; in words of 64 bits it is a word of its own. -/
theorem generate_packet (hN : Supported N) (hst : s.state = .META) (m : UdpMeta)
    (h : Packet ws (List.replicate (8 % N) 0 ++ bs)) :
    ∃ os t, Runs generateUdp s ⟨m :: metas, ws ++ rest⟩ os t ⟨metas, rest⟩ ∧ t.state = .META ∧
      Packet os.flatten (octets 8 (setHeader s.header m.myPort m.theirPort m.length) ++ bs) := by
  have htake : generateUdp s ⟨m :: metas, ws ++ rest⟩ =
      ({ state := if 8 * N ≤ UDP_HEADER_SIZE then .HEADER else .PARTIAL_HEADER
         header := setHeader s.header m.myPort m.theirPort m.length, idx := 0 }, ⟨metas, ws ++ rest⟩, []) := by
    simp only [generateUdp, hst]
  generalize setHeader s.header m.myPort m.theirPort m.length = header at htake ⊢
  have hlength := length_octets 8 header
  by_cases h8 : N = 8
  · subst h8
    rw [if_pos (by decide)] at htake
    obtain ⟨w, hheader, hmore, hw⟩ := generate_header (s := { state := .HEADER, header, idx := 0 }) rfl rfl
      ⟨metas, ws ++ rest⟩
    -- nothing is left of the header
    have hconsume : ({ state := .PARTIAL_HEADER, header, idx := 1 } : GenerateUdp).consume 8 = [] := by
      rw [GenerateUdp.consume, List.drop_eq_nil_of_le (by rw [hlength, Nat.one_mul]), List.take_nil]
    obtain ⟨os, t, hrun, ht, hpacket⟩ := generate_body metas rest
      (s := { state := .PARTIAL_HEADER, header, idx := 1 }) rfl (by rw [hconsume]; rfl) (by decide) h
    rw [hconsume] at hpacket
    exact ⟨_, t, .call htake (.call hheader hrun), ht, .cons hmore hw hpacket⟩
  · have hwide : 16 ≤ N := by rcases hN with rfl | rfl | rfl | rfl <;> omega
    have hmod : 8 % N = 8 := Nat.mod_eq_of_lt (by omega)
    rw [if_neg (by unfold UDP_HEADER_SIZE; omega)] at htake
    have hconsume : ({ state := .PARTIAL_HEADER, header, idx := 0 } : GenerateUdp).consume N = octets 8 header := by
      rw [GenerateUdp.consume, Nat.zero_mul, List.drop_zero, List.take_of_length_le (by rw [hlength]; omega)]
    obtain ⟨os, t, hrun, ht, hpacket⟩ := generate_body metas rest (s := { state := .PARTIAL_HEADER, header, idx := 0 })
      rfl (by rw [hconsume, hlength, List.length_replicate, hmod]) (by rw [List.length_replicate, hmod]; omega) h
    rw [hconsume] at hpacket
    exact ⟨_, t, .call htake hrun, ht, hpacket⟩

end

/-! ## `process_udp` -/

section

variable (port : BitVec 16) {s : ProcessUdp N} {header : BitVec UDP_HEADER_SIZE} {w : Word N} {ws : List (Word N)}
  {bs : List (BitVec 8)}

/-- The process waits for a packet. -/
structure ProcessUdp.Idle (s : ProcessUdp N) : Prop where
  puHeader : Parsed s.puHeader []
  metaWritten : s.metaWritten = false

theorem ProcessUdp.idle_init : ({} : ProcessUdp N).Idle := by
  refine ⟨⟨⟨?_, fun _ => rfl⟩, ?_⟩, rfl⟩
  · simp [UDP_HEADER_SIZE]
  · intro i _ hi
    simp at hi

/-- The header of the packet has been read, and its metadata is written. -/
structure ProcessUdp.Read (s : ProcessUdp N) (header : BitVec UDP_HEADER_SIZE) : Prop where
  ready : s.puHeader.ready = true
  header : s.puHeader.header = header
  metaWritten : s.metaWritten = true

def passed (port : BitVec 16) (header : BitVec UDP_HEADER_SIZE) (ws : List (Word N)) : List (Word N) :=
  if getDstPort header = port then ws else []

theorem passed_cons (w : Word N) (ws : List (Word N)) :
    passed port header (w :: ws) = passed port header [w] ++ passed port header ws := by
  unfold passed
  split <;> rfl

def ProcessUdp.done (s : ProcessUdp N) (puHeader : PacketHeader (8 * N) UDP_HEADER_SIZE) (last : Bool) : ProcessUdp N :=
  { s with puHeader := if last then puHeader.clear else puHeader, metaWritten := !last }

theorem ProcessUdp.done_idle (s : ProcessUdp N) (puHeader : PacketHeader (8 * N) UDP_HEADER_SIZE) :
    (s.done puHeader true).Idle := ⟨parsed_clear (by decide) puHeader, rfl⟩

theorem process_word (hs : s.Read header) (w : Word N) (rest : List (Word N)) :
    processUdp port s (w :: rest) = (s.done s.puHeader w.last, rest, { output := passed port header [w] }) := by
  have hparse : s.puHeader.parseWord w.data = s.puHeader := by rw [PacketHeader.parseWord, if_pos hs.ready]
  -- one of the two places writes the word, depending on the width
  by_cases hport : getDstPort header = port <;> by_cases hwide : 8 * N ≤ UDP_HEADER_SIZE <;>
    simp [processUdp, hparse, hs.ready, hs.header, hs.metaWritten, hport, hwide, Nat.lt_of_not_le,
      passed, ProcessUdp.done]

theorem process_body (h : Packet ws bs) (rest : List (Word N)) :
    ∀ {s : ProcessUdp N}, s.Read header →
      ∃ os t, Runs (processUdp port) s (ws ++ rest) os t rest ∧ t.Idle ∧ os.flatMap (·.metaOut) = [] ∧
        os.flatMap (·.output) = passed port header ws := by
  induction h with
  | @last w bs hlast _ =>
    intro s hs
    have hcall := process_word port hs w rest
    rw [hlast] at hcall
    refine ⟨_, _, .one hcall, s.done_idle _, rfl, ?_⟩
    rw [List.flatMap_singleton]
  | @cons w ws b b' hlast _ _ ih =>
    intro s hs
    have hcall := process_word port hs w (ws ++ rest)
    rw [hlast] at hcall
    obtain ⟨os, t, hrun, ht, hmeta, hout⟩ := ih (s := s.done s.puHeader false) ⟨hs.ready, hs.header, rfl⟩
    refine ⟨_, t, .call hcall hrun, ht, ?_, ?_⟩
    · rw [List.flatMap_cons, hmeta]
      rfl
    · rw [List.flatMap_cons, hout]
      exact (passed_cons port w ws).symm

def metaOf (port : BitVec 16) (header : BitVec UDP_HEADER_SIZE) : UdpMeta :=
  ⟨getSrcPort header, getDstPort header, getLength header, getDstPort header == port⟩

/-- The first word of a packet: it is passed on when there is more in it than the header. -/
theorem process_first (hN : 8 ≤ N) (hs : s.Idle) (h : Packet (w :: ws) (octets 8 header ++ bs)) (rest : List (Word N)) :
    ∃ puHeader : PacketHeader (8 * N) UDP_HEADER_SIZE, puHeader.ready = true ∧ puHeader.header = header ∧
      processUdp port s (w :: rest) = (s.done puHeader w.last, rest,
        { metaOut := [metaOf port header], output := if N = 8 then [] else passed port header [w] }) := by
  have hsize : UDP_HEADER_SIZE ≤ 1 * (8 * N) := by unfold UDP_HEADER_SIZE; omega
  have hparsed := hs.puHeader.parseWord w.data
  have hready : (s.puHeader.parseWord w.data).ready = true := hparsed.fed.ready.trans (decide_eq_true hsize)
  have hheader : (s.puHeader.parseWord w.data).header = header := by
    rw [hparsed.header_eq hsize]
    have hpacket : Packet ([w] ++ ws) (octets 8 header ++ bs) := h
    exact hpacket.header (by rw [List.length_singleton]; omega)
  refine ⟨s.puHeader.parseWord w.data, hready, hheader, ?_⟩
  by_cases h8 : N = 8
  · have hnarrow : ¬UDP_HEADER_SIZE < 8 * N := by unfold UDP_HEADER_SIZE; omega
    rw [if_pos h8]
    simp [processUdp, hready, hheader, hs.metaWritten, hnarrow, metaOf, ProcessUdp.done]
  · have hwide : UDP_HEADER_SIZE < 8 * N := by unfold UDP_HEADER_SIZE; omega
    by_cases hport : getDstPort header = port <;>
      simp [processUdp, hready, hheader, hs.metaWritten, hwide, h8, hport, metaOf, passed, ProcessUdp.done]

/-- The metadata of a packet is written once; the packet is passed on or not, without the header when that is a
word of its own. -/
theorem process_packet (hN : Supported N) (hs : s.Idle) (hbs : bs ≠ []) (h : Packet ws (octets 8 header ++ bs))
    (rest : List (Word N)) :
    ∃ os t p out, Runs (processUdp port) s (ws ++ rest) os t rest ∧ t.Idle ∧
      os.flatMap (·.metaOut) = [metaOf port header] ∧ os.flatMap (·.output) = passed port header out ∧
      Packet out (p ++ bs) ∧ p.length = 8 % N := by
  have hlength := length_octets 8 header
  have hle : 8 ≤ N := by rcases hN with rfl | rfl | rfl | rfl <;> decide
  have hall := h
  generalize hbytes : octets 8 header ++ bs = bytes at h
  cases h with
  | @last w _ hlast hw =>
    -- header and payload in one word
    have hfit := hw.length_le
    have hpayload := List.length_pos_iff.mpr hbs
    have h8 : N ≠ 8 := by
      rw [← hbytes, List.length_append, hlength] at hfit
      omega
    obtain ⟨puHeader, -, -, hcall⟩ := process_first port hle hs hall rest
    rw [hlast, if_neg h8] at hcall
    refine ⟨_, _, octets 8 header, [w], .one hcall, s.done_idle _, rfl, ?_, hall, ?_⟩
    · rw [List.flatMap_singleton]
    · rw [hlength, Nat.mod_eq_of_lt (by omega)]
  | @cons w ws b b' hlast hw hmore =>
    obtain ⟨puHeader, hready, hheader, hcall⟩ := process_first port hle hs hall (ws ++ rest)
    rw [hlast] at hcall
    have hread : (s.done puHeader false).Read header := ⟨hready, hheader, rfl⟩
    obtain ⟨os, t, hrun, ht, hmeta, hout⟩ := process_body port hmore rest hread
    by_cases h8 : N = 8
    · have hb : b.length = 8 := (Axi.Word.length_full hw).trans h8
      have hsame := (List.append_inj hbytes (hlength.trans hb.symm)).2
      rw [if_pos h8] at hcall
      refine ⟨_, t, [], ws, .call hcall hrun, ht, ?_, ?_, ?_, ?_⟩
      · rw [List.flatMap_cons, hmeta]
        rfl
      · rw [List.flatMap_cons, hout]
        rfl
      · rw [hsame]
        exact hmore
      · rw [h8]
        rfl
    · rw [if_neg h8] at hcall
      refine ⟨_, t, octets 8 header, w :: ws, .call hcall hrun, ht, ?_, ?_, hall, ?_⟩
      · rw [List.flatMap_cons, hmeta]
        rfl
      · rw [List.flatMap_cons, hout]
        exact (passed_cons port w ws).symm
      · rw [hlength, Nat.mod_eq_of_lt (by omega)]

end

end FpgaNetworkStack.Udp
