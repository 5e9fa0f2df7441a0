import FpgaNetworkStack.Axi.Keep
import FpgaNetworkStack.IpHandler.Stages
import FpgaNetworkStack.Udp.Stages

/-!
# IPv6 (`ipv6.cpp`)

`generate_ipv6` writes a header of 40 bytes in front of a packet, in whole words first; what is left of it goes over the room
that `lshiftWordByOctet` has made.  `process_ipv6` reads it.
-/

namespace FpgaNetworkStack.Ipv6

open Lib
open Axi (Lane Word Packet Packets Ends Framed LShift RShift lshiftWordByOctet rshiftWordByOctet octets length_octets overlay
  overlay_lanes forward_overlay)
open Roce (PacketHeader Parsed parsed_clear remainingLength)
open Toe (reverse16)

variable {N : Nat}

def IPV6_HEADER_SIZE : Nat := 320

structure Ipv6Meta where
  theirAddress : BitVec 128
  length : BitVec 16
  nextHeader : BitVec 8
  deriving DecidableEq

/-! ## `ipv6Header` -/

/-- The constructor: version, next header and hop limit. -/
def ipv6Header : BitVec IPV6_HEADER_SIZE :=
  (0 : BitVec 256) ++ ((0xFF : BitVec 8) ++ ((0x11 : BitVec 8) ++ ((0 : BitVec 40) ++ (0x60 : BitVec 8))))

/-- The four fields that are set; the first 32 bits and the hop limit stay. -/
def setHeader (header : BitVec IPV6_HEADER_SIZE) (dstAddress srcAddress : BitVec 128) (nextHeader : BitVec 8)
    (payloadLen : BitVec 16) : BitVec IPV6_HEADER_SIZE :=
  dstAddress ++ (srcAddress ++ (header.extractLsb' 56 8 ++ (nextHeader ++
    (reverse16 payloadLen ++ header.extractLsb' 0 32))))

def getSrcAddress (header : BitVec IPV6_HEADER_SIZE) : BitVec 128 := header.extractLsb' 64 128

def getPayloadLen (header : BitVec IPV6_HEADER_SIZE) : BitVec 16 := reverse16 (header.extractLsb' 32 16)

def getNextHeader (header : BitVec IPV6_HEADER_SIZE) : BitVec 8 := header.extractLsb' 48 8

/-! ## `process_ipv6` -/

structure ProcessIpv6 (N : Nat) where
  piHeader : PacketHeader (8 * N) IPV6_HEADER_SIZE := { header := ipv6Header }
  metaWritten : Bool := false

@[ext]
structure ProcessIpv6Out (N : Nat) where
  metaOut : List Ipv6Meta := []
  output : List (Word N) := []

def processIpv6 (s : ProcessIpv6 N) (input : List (Word N)) : ProcessIpv6 N × List (Word N) × ProcessIpv6Out N :=
  match input with
  | [] => (s, [], {})
  | currWord :: rest =>
    let piHeader := s.piHeader.parseWord currWord.data
    let writeMeta := piHeader.ready && !s.metaWritten
    ({ piHeader := if currWord.last then piHeader.clear else piHeader
       metaWritten := !currWord.last && (s.metaWritten || writeMeta) },
      rest,
      { metaOut := if writeMeta then
          [⟨getSrcAddress piHeader.header, getPayloadLen piHeader.header, getNextHeader piHeader.header⟩] else []
        output := if piHeader.ready then [currWord] else [] })

/-! ## `generate_ipv6` -/

inductive FsmState where
  | META | HEADER | PARTIAL_HEADER | BODY
  deriving DecidableEq, Repr

structure GenerateIpv6 where
  state : FsmState := .META
  header : BitVec IPV6_HEADER_SIZE := ipv6Header
  /-- Words of the header that were written. -/
  idx : Nat := 0

@[ext]
structure GenerateIpv6In (N : Nat) where
  metaIn : List Ipv6Meta := []
  input : List (Word N) := []

def GenerateIpv6.consume (N : Nat) (s : GenerateIpv6) : List (BitVec 8) := ((octets 40 s.header).drop (s.idx * N)).take N

/-- One call of `generate_ipv6`; `undef` is the word that was declared and not read. -/
def generateIpv6 (undef : Word N) (regIpAddress : BitVec 128) (s : GenerateIpv6) (i : GenerateIpv6In N) :
    GenerateIpv6 × GenerateIpv6In N × List (Word N) :=
  match s.state with
  | .META =>
    match i.metaIn with
    | [] => (s, i, [])
    | m :: rest =>
      ({ state := .HEADER, header := setHeader s.header m.theirAddress regIpAddress m.nextHeader m.length, idx := 0 },
        { i with metaIn := rest }, [])
  | .HEADER =>
    let full : Word N :=
      ⟨undef.lanes.map fun l => ⟨l.data, true⟩, false, by rw [List.length_map, undef.length_eq]⟩
    ({ s with
        idx := s.idx + 1
        state := if remainingLength (8 * N) IPV6_HEADER_SIZE s.idx < N then .PARTIAL_HEADER else .HEADER },
      i, [overlay (s.consume N) full])
  | .PARTIAL_HEADER =>
    match i.input with
    | [] => (s, i, [])
    | currWord :: rest =>
      ({ s with idx := s.idx + 1, state := if currWord.last then .META else .BODY },
        { i with input := rest }, [overlay (s.consume N) currWord])
  | .BODY =>
    match i.input with
    | [] => (s, i, [])
    | currWord :: rest =>
      ({ s with state := if currWord.last then .META else .BODY }, { i with input := rest }, [currWord])

/-- The bytes of the header that are not in a word of their own. -/
def remainder (N : Nat) : Nat := IPV6_HEADER_SIZE % (8 * N) / 8

/-! ## The header of a packet -/

/-- The header for a packet from `ip`. -/
def headerBytes (ip : BitVec 128) (m : Ipv6Meta) : List (BitVec 8) :=
  [0x60, 0, 0, 0, m.length.extractLsb' 8 8, m.length.extractLsb' 0 8, m.nextHeader, 0xFF] ++
    (octets 16 ip ++ octets 16 m.theirAddress)

/-- The version and the hop limit of the header are those that the constructor has set. -/
structure Fixed (header : BitVec IPV6_HEADER_SIZE) : Prop where
  version : header.extractLsb' 0 32 = 0x60
  hopLimit : header.extractLsb' 56 8 = 0xFF

theorem fixed_init : Fixed ipv6Header := by
  constructor <;> rfl

section

variable (header : BitVec IPV6_HEADER_SIZE) (dst src : BitVec 128) (next : BitVec 8) (len : BitVec 16)

theorem extract_front {w : Nat} (front : BitVec w) {start width : Nat} (h : start + width ≤ w) :
    (dst ++ (src ++ front)).extractLsb' start width = front.extractLsb' start width := by
  rw [BitVec.extractLsb'_append_eq_of_add_le (by omega), BitVec.extractLsb'_append_eq_of_add_le h]

theorem getSrcAddress_setHeader : getSrcAddress (setHeader header dst src next len) = src := by
  have hfield {w : Nat} (front : BitVec w) : (dst ++ (src ++ front)).extractLsb' w 128 = src := by
    rw [BitVec.extractLsb'_append_eq_of_add_le (by omega)]
    exact BitVec.extractLsb'_append_eq_left
  exact hfield _

theorem getPayloadLen_setHeader : getPayloadLen (setHeader header dst src next len) = len := by
  have hfield (hop : BitVec 8) (low : BitVec 32) :
      (dst ++ (src ++ (hop ++ (next ++ (reverse16 len ++ low))))).extractLsb' 32 16 = reverse16 len := by
    rw [extract_front _ _ _ (by decide), BitVec.extractLsb'_append_eq_of_add_le (by decide),
      BitVec.extractLsb'_append_eq_of_add_le (by decide)]
    exact BitVec.extractLsb'_append_eq_left
  exact (congrArg reverse16 (hfield _ _)).trans (Toe.reverse16_reverse16 len)

theorem getNextHeader_setHeader : getNextHeader (setHeader header dst src next len) = next := by
  have hfield {w : Nat} (hop : BitVec 8) (low : BitVec w) :
      (dst ++ (src ++ (hop ++ (next ++ low)))).extractLsb' w 8 = next := by
    rw [extract_front _ _ _ (by omega), BitVec.extractLsb'_append_eq_of_add_le (by omega)]
    exact BitVec.extractLsb'_append_eq_left
  exact hfield _ _

variable {header}

theorem Fixed.setHeader (h : Fixed header) : Fixed (setHeader header dst src next len) := by
  constructor
  · have hfield (hop : BitVec 8) (low : BitVec 32) :
        (dst ++ (src ++ (hop ++ (next ++ (reverse16 len ++ low))))).extractLsb' 0 32 = low := by
      rw [extract_front _ _ _ (by decide), BitVec.extractLsb'_append_eq_of_add_le (by decide),
        BitVec.extractLsb'_append_eq_of_add_le (by decide)]
      exact BitVec.extractLsb'_append_eq_right
    exact (hfield _ _).trans h.version
  · have hfield {w : Nat} (hop : BitVec 8) (low : BitVec w) : (dst ++ (src ++ (hop ++ low))).extractLsb' w 8 = hop := by
      rw [extract_front _ _ _ (by omega)]
      exact BitVec.extractLsb'_append_eq_left
    exact (hfield _ _).trans h.hopLimit

theorem octets_setHeader (h : Fixed header) :
    octets 40 (setHeader header dst src next len) = headerBytes src ⟨dst, len, next⟩ := by
  have hdst : octets (24 + 16) (setHeader header dst src next len) = octets 24 _ ++ octets 16 dst :=
    Axi.octets_append (k := 24) (l := 16) dst _
  have hsrc : octets (8 + 16) (src ++ (header.extractLsb' 56 8 ++ (next ++ (reverse16 len ++ header.extractLsb' 0 32)))) =
      octets 8 _ ++ octets 16 src := Axi.octets_append (k := 8) (l := 16) src _
  have hhop : octets (7 + 1) (header.extractLsb' 56 8 ++ (next ++ (reverse16 len ++ header.extractLsb' 0 32))) =
      octets 7 _ ++ octets 1 (header.extractLsb' 56 8) := Axi.octets_append (k := 7) (l := 1) (header.extractLsb' 56 8) _
  have hnext : octets (6 + 1) (next ++ (reverse16 len ++ header.extractLsb' 0 32)) = octets 6 _ ++ octets 1 next :=
    Axi.octets_append (k := 6) (l := 1) next _
  have hlen : octets (4 + 2) (reverse16 len ++ header.extractLsb' 0 32) = octets 4 _ ++ octets 2 (reverse16 len) :=
    Axi.octets_append (k := 4) (l := 2) (reverse16 len) _
  have hbyte (b : BitVec 8) : octets 1 b = [b] := by
    rw [octets, List.range_one, List.map_singleton]
    exact congrArg (fun x => [x]) BitVec.extractLsb'_eq_self
  have hswap : octets 2 (reverse16 len) = [len.extractLsb' 8 8, len.extractLsb' 0 8] := by
    show [(reverse16 len).extractLsb' 0 8, (reverse16 len).extractLsb' 8 8] = _
    rw [reverse16, BitVec.extractLsb'_append_eq_right, BitVec.extractLsb'_append_eq_left]
  rw [hdst, hsrc, hhop, hnext, hlen, hbyte, hbyte, hswap, h.version, h.hopLimit]
  rfl

end

/-! ## One packet through `generate_ipv6` -/

/-- The process waits for a packet. -/
structure GenerateIpv6.Idle (s : GenerateIpv6) : Prop where
  state : s.state = .META
  fixed : Fixed s.header

section

variable (undef : Word N) (ip : BitVec 128) {s : GenerateIpv6} (metas : List Ipv6Meta) (rest : List (Word N))
  {ws : List (Word N)} {bs : List (BitVec 8)}

variable {q : List (BitVec 8)}

-- what is left of the header goes over the room in front of the payload
theorem generate_body (hst : s.state = .PARTIAL_HEADER) (hfixed : Fixed s.header)
    (hlen : (s.consume N).length = q.length) (hN : q.length ≤ N) (h : Packet ws (q ++ bs)) :
    ∃ os t, Runs (generateIpv6 undef ip) s ⟨metas, ws ++ rest⟩ os t ⟨metas, rest⟩ ∧ t.Idle ∧
      Packet os.flatten (s.consume N ++ bs) := by
  refine forward_overlay (f := generateIpv6 undef ip) (fun ws => ⟨metas, ws⟩)
    (fun s => s.state = .BODY ∧ Fixed s.header) GenerateIpv6.Idle ?_ ?_ ?_ hlen hN h rest
  · rintro s w rest ⟨hst, hfixed⟩ hw
    refine ⟨{ s with state := .BODY }, ?_, rfl, hfixed⟩
    simp [generateIpv6, hst, hw]
  · rintro s w rest ⟨hst, hfixed⟩ hw
    refine ⟨{ s with state := .META }, ?_, rfl, hfixed⟩
    simp [generateIpv6, hst, hw]
  · intro w rest
    refine ⟨{ s with idx := s.idx + 1, state := if w.last then .META else .BODY }, ?_, ?_, ?_⟩
    · simp [generateIpv6, hst]
    · intro hw
      exact ⟨by simp [hw], hfixed⟩
    · intro hw
      exact ⟨by simp [hw], hfixed⟩

theorem generate_header (hst : s.state = .HEADER) (hfits : (s.idx + 1) * N ≤ 40) (i : GenerateIpv6In N) :
    ∃ w, generateIpv6 undef ip s i =
        ({ s with idx := s.idx + 1, state := if 40 - (s.idx + 1) * N < N then .PARTIAL_HEADER else .HEADER }, i, [w]) ∧
      w.last = false ∧ w.lanes = (s.consume N).map Lane.kept := by
  let full : Word N := ⟨undef.lanes.map fun l => ⟨l.data, true⟩, false, by rw [List.length_map, undef.length_eq]⟩
  have hremaining : remainingLength (8 * N) IPV6_HEADER_SIZE s.idx = 40 - (s.idx + 1) * N := by
    have hmul : (s.idx + 1) * (8 * N) = 8 * ((s.idx + 1) * N) := Nat.mul_left_comm _ _ _
    rw [remainingLength, hmul, IPV6_HEADER_SIZE, if_pos (by omega)]
    omega
  refine ⟨overlay (s.consume N) full, ?_, rfl, ?_⟩
  · simp [generateIpv6, hst, hremaining, full]
  · have hfull : full.lanes = (undef.lanes.map (·.data)).map Lane.kept ++ [] := by
      rw [List.append_nil, List.map_map]
      rfl
    have hlen : (s.consume N).length = (undef.lanes.map (·.data)).length := by
      rw [GenerateIpv6.consume, List.length_take, List.length_drop, length_octets, List.length_map, undef.length_eq]
      rw [Nat.succ_mul] at hfits
      omega
    have hfill := overlay_lanes hfull hlen
    rw [List.append_nil] at hfill
    exact hfill

theorem GenerateIpv6.consume_append (s : GenerateIpv6) :
    s.consume N ++ (octets 40 s.header).drop ((s.idx + 1) * N) = (octets 40 s.header).drop (s.idx * N) := by
  rw [GenerateIpv6.consume, Nat.succ_mul, ← List.drop_drop, List.take_append_drop]

/-- The words of the header from one on, and the packet behind them.  Induction on their number. -/
theorem generate_from (hN : 0 < N) (hq : q.length = 40 % N) (h : Packet ws (q ++ bs)) (d : Nat) :
    ∀ {s : GenerateIpv6}, s.state = .HEADER → Fixed s.header → s.idx + (d + 1) = 40 / N →
      ∃ os t, Runs (generateIpv6 undef ip) s ⟨metas, ws ++ rest⟩ os t ⟨metas, rest⟩ ∧ t.Idle ∧
        Packet os.flatten ((octets 40 s.header).drop (s.idx * N) ++ bs) := by
  have hmod : 40 % N < N := Nat.mod_lt 40 hN
  have hdiv : 40 / N * N + 40 % N = 40 := Nat.div_add_mod' 40 N
  induction d with
  | zero =>
    intro s hst hfixed hidx
    have hlast : (s.idx + 1) * N + 40 % N = 40 := by
      rw [Nat.zero_add] at hidx
      rw [hidx]
      exact hdiv
    obtain ⟨w, hcall, hmore, hw⟩ := generate_header undef ip hst (by omega) ⟨metas, ws ++ rest⟩
    rw [if_pos (by omega)] at hcall
    -- the rest of the header is shorter than a word
    have hconsume : ({ s with idx := s.idx + 1, state := .PARTIAL_HEADER } : GenerateIpv6).consume N =
        (octets 40 s.header).drop ((s.idx + 1) * N) := by
      apply List.take_of_length_le
      rw [List.length_drop, length_octets]
      show 40 - (s.idx + 1) * N ≤ N
      omega
    have hlen : ((octets 40 s.header).drop ((s.idx + 1) * N)).length = q.length := by
      rw [List.length_drop, length_octets, hq]
      omega
    obtain ⟨os, t, hrun, ht, hpacket⟩ := generate_body undef ip metas rest
      (s := { s with idx := s.idx + 1, state := .PARTIAL_HEADER }) rfl hfixed (by rw [hconsume, hlen])
      (by omega) h
    rw [hconsume] at hpacket
    refine ⟨_, t, .call hcall hrun, ht, ?_⟩
    rw [← s.consume_append, List.append_assoc]
    exact .cons hmore hw hpacket
  | succ d ih =>
    intro s hst hfixed hidx
    have hfits : (s.idx + 2) * N ≤ 40 / N * N := Nat.mul_le_mul_right N (by omega)
    rw [Nat.succ_mul] at hfits
    obtain ⟨w, hcall, hmore, hw⟩ := generate_header undef ip hst (by omega) ⟨metas, ws ++ rest⟩
    rw [if_neg (by omega)] at hcall
    obtain ⟨os, t, hrun, ht, hpacket⟩ := ih (s := { s with idx := s.idx + 1, state := .HEADER }) rfl hfixed
      (by show s.idx + 1 + (d + 1) = _; omega)
    refine ⟨_, t, .call hcall hrun, ht, ?_⟩
    rw [← s.consume_append, List.append_assoc]
    exact .cons hmore hw hpacket

theorem generate_packet (hN : 0 < N) (hN' : N ≤ 40) (hs : s.Idle) (m : Ipv6Meta)
    (hq : q.length = 40 % N) (h : Packet ws (q ++ bs)) :
    ∃ os t, Runs (generateIpv6 undef ip) s ⟨m :: metas, ws ++ rest⟩ os t ⟨metas, rest⟩ ∧ t.Idle ∧
      Packet os.flatten (headerBytes ip m ++ bs) := by
  have htake : generateIpv6 undef ip s ⟨m :: metas, ws ++ rest⟩ =
      ({ state := .HEADER, header := setHeader s.header m.theirAddress ip m.nextHeader m.length, idx := 0 },
        ⟨metas, ws ++ rest⟩, []) := by
    simp only [generateIpv6, hs.state]
  have hfixed := hs.fixed.setHeader m.theirAddress ip m.nextHeader m.length
  have hpos : 0 < 40 / N := Nat.div_pos hN' hN
  obtain ⟨os, t, hrun, ht, hpacket⟩ := generate_from undef ip metas rest hN hq h (40 / N - 1)
    (s := { state := .HEADER, header := setHeader s.header m.theirAddress ip m.nextHeader m.length, idx := 0 }) rfl hfixed
    (by show 0 + _ = _; omega)
  rw [Nat.zero_mul, List.drop_zero, octets_setHeader _ _ _ _ hs.fixed] at hpacket
  exact ⟨_, t, .call htake hrun, ht, hpacket⟩

end

/-! ## One packet through `process_ipv6` -/

/-- The words that are read before the header is complete. -/
def wordsBefore (N : Nat) : Nat := 39 / N

structure ProcessIpv6.Idle (s : ProcessIpv6 N) : Prop where
  piHeader : Parsed s.piHeader []
  metaWritten : s.metaWritten = false

theorem ProcessIpv6.idle_init : ({} : ProcessIpv6 N).Idle := by
  refine ⟨⟨⟨?_, fun _ => rfl⟩, ?_⟩, rfl⟩
  · simp [IPV6_HEADER_SIZE]
  · intro i _ hi
    simp at hi

theorem processIpv6_waits : Waits (processIpv6 (N := N)) {} := by
  intro s input
  cases input with
  | nil => exact .inl rfl
  | cons currWord rest => exact .inr fun more => rfl

def metaOf (header : BitVec IPV6_HEADER_SIZE) : Ipv6Meta :=
  ⟨getSrcAddress header, getPayloadLen header, getNextHeader header⟩

section

variable {s : ProcessIpv6 N} {w : Word N} {ws : List (Word N)} {bytes : List (BitVec 8)}

theorem process_before {us : List (Word N)} (hs : Parsed s.piHeader (us.map Word.data)) (hmeta : s.metaWritten = false)
    (hlast : w.last = false) (hshort : (us.length + 1) * N < 40) (rest : List (Word N)) :
    ∃ t, processIpv6 s (w :: rest) = (t, rest, {}) ∧ Parsed t.piHeader ((us ++ [w]).map Word.data) ∧
      t.metaWritten = false := by
  have hnext := hs.parseWord w.data
  rw [← List.map_singleton, ← List.map_append] at hnext
  have hready : (s.piHeader.parseWord w.data).ready = false := by
    rw [hnext.fed.ready, List.length_map, List.length_append, List.length_singleton]
    apply decide_eq_false
    rw [Nat.mul_left_comm, IPV6_HEADER_SIZE]
    omega
  exact ⟨_, by simp only [processIpv6, hready, hlast, hmeta]; rfl, hnext, rfl⟩

theorem process_behind (s : ProcessIpv6 N) (w : Word N) (rest : List (Word N))
    (hs : s.piHeader.ready = true ∧ s.metaWritten = true) :
    ∃ t, processIpv6 s (w :: rest) = (t, rest, { output := [w] }) ∧
      (w.last = false → t.piHeader.ready = true ∧ t.metaWritten = true) ∧ (w.last = true → t.Idle) := by
  have hparse : s.piHeader.parseWord w.data = s.piHeader := by rw [PacketHeader.parseWord, if_pos hs.1]
  refine ⟨_, by simp only [processIpv6, hparse, hs.1, hs.2]; rfl, ?_, ?_⟩
  · intro hlast
    rw [hlast]
    exact ⟨hs.1, rfl⟩
  · intro hlast
    rw [hlast]
    exact ⟨parsed_clear (by decide) _, rfl⟩

/-- What is written for a packet: its metadata, and the words from the one on in which the header ends. -/
structure PacketWrites (header : BitVec IPV6_HEADER_SIZE) (ws : List (Word N)) (os : List (ProcessIpv6Out N)) (k : Nat) :
    Prop where
  metas : os.flatMap (·.metaOut) = [metaOf header]
  output : os.flatMap (·.output) = ws.drop k

theorem process_rest {header : BitVec (8 * 40)} {bs : List (BitVec 8)} {us : List (Word N)}
    (hs : Parsed s.piHeader (us.map Word.data)) (hmeta : s.metaWritten = false)
    (h : Packet (us ++ w :: ws) (octets 40 header ++ bs)) (hends : Ends (w :: ws)) (hlong : 40 ≤ (us.length + 1) * N)
    (rest : List (Word N)) :
    ∃ os t, Runs processIpv6 s (w :: ws ++ rest) os t rest ∧ t.Idle ∧ PacketWrites header (w :: ws) os 0 := by
  have hnext := hs.parseWord w.data
  rw [← List.map_singleton, ← List.map_append] at hnext
  have hfull : 320 ≤ ((us ++ [w]).map Word.data).length * (8 * N) := by
    rw [List.length_map, List.length_append, List.length_singleton, Nat.mul_left_comm]
    omega
  have hready : (s.piHeader.parseWord w.data).ready = true := hnext.fed.ready.trans (decide_eq_true hfull)
  have hheader : (s.piHeader.parseWord w.data).header = header := by
    rw [hnext.header_eq hfull]
    have hpacket : Packet ((us ++ [w]) ++ ws) (octets 40 header ++ bs) := by
      rw [List.append_assoc, List.singleton_append]
      exact h
    rw [List.length_map] at hfull
    exact hpacket.header (by rw [Nat.mul_comm (8 * N)]; exact hfull)
  have hcall : processIpv6 s (w :: (ws ++ rest)) =
      ({ piHeader := if w.last then (s.piHeader.parseWord w.data).clear else s.piHeader.parseWord w.data
         metaWritten := !w.last }, ws ++ rest, { metaOut := [metaOf header], output := [w] }) := by
    simp [processIpv6, hready, hheader, hmeta, metaOf]
  have hrun := Ends.runs_first (fun ws => ws) (fun s : ProcessIpv6 N => s.piHeader.ready = true ∧ s.metaWritten = true)
    ProcessIpv6.Idle (fun w => { output := [w] }) process_behind hends rest hcall
    (fun hlast => by rw [hlast]; exact ⟨hready, rfl⟩)
    (fun hlast => by rw [hlast]; exact ⟨parsed_clear (by decide) _, rfl⟩)
  obtain ⟨t, hrun, ht⟩ := hrun
  refine ⟨_, t, hrun, ht, ?_, ?_⟩
  · simp [List.flatMap_map]
  · simp [List.flatMap_map]

/-- The words behind `us`.  Induction on them, up to the one in which the header ends. -/
theorem process_from (hN : 0 < N) {header : BitVec (8 * 40)} {bs : List (BitVec 8)} (hends : Ends ws)
    (rest : List (Word N)) :
    ∀ (us : List (Word N)) {s : ProcessIpv6 N}, Parsed s.piHeader (us.map Word.data) → s.metaWritten = false →
      us.length ≤ wordsBefore N → Packet (us ++ ws) (octets 40 header ++ bs) →
      ∃ os t, Runs processIpv6 s (ws ++ rest) os t rest ∧ t.Idle ∧ PacketWrites header ws os (wordsBefore N - us.length) := by
  have hlong {us : List (Word N)} (hle : us.length ≤ wordsBefore N) (hlong : 40 ≤ (us.length + 1) * N) :
      wordsBefore N - us.length = 0 := by
    have hlt : 39 / N < us.length + 1 := (Nat.div_lt_iff_lt_mul hN).mpr hlong
    unfold wordsBefore
    omega
  induction hends with
  | @last w hlast =>
    intro us s hs hmeta hle h
    have hbound := h.length_bytes.1
    rw [List.length_append, length_octets, List.length_append, List.length_singleton] at hbound
    obtain ⟨os, t, hrun, ht, hwrites⟩ := process_rest hs hmeta h (.last hlast) (by omega) rest
    rw [hlong hle (by omega)]
    exact ⟨os, t, hrun, ht, hwrites⟩
  | @cons w ws hlast hends ih =>
    intro us s hs hmeta hle h
    by_cases hend : 40 ≤ (us.length + 1) * N
    · obtain ⟨os, t, hrun, ht, hwrites⟩ := process_rest hs hmeta h (.cons hlast hends) hend rest
      rw [hlong hle hend]
      exact ⟨os, t, hrun, ht, hwrites⟩
    · have hshort := Nat.lt_of_not_le hend
      obtain ⟨t, hcall, ht, htmeta⟩ := process_before hs hmeta hlast hshort (ws ++ rest)
      have hlt : us.length + 1 ≤ wordsBefore N := (Nat.le_div_iff_mul_le hN).mpr (Nat.le_of_lt_succ hshort)
      have hlength : (us ++ [w]).length = us.length + 1 := by rw [List.length_append, List.length_singleton]
      obtain ⟨os, u, hrun, hu, hwrites⟩ := ih (us ++ [w]) ht htmeta (by rw [hlength]; exact hlt) (by
        rw [List.append_assoc, List.singleton_append]
        exact h)
      refine ⟨_, u, .call hcall hrun, hu, ?_, ?_⟩
      · rw [List.flatMap_cons, hwrites.metas]
        rfl
      · have hone : wordsBefore N - us.length = wordsBefore N - (us ++ [w]).length + 1 := by
          rw [hlength]
          omega
        rw [List.flatMap_cons, hwrites.output, hone]
        rfl

end

/-! ## From end to end -/

instance : Append (GenerateIpv6In N) := ⟨fun i j => ⟨i.metaIn ++ j.metaIn, i.input ++ j.input⟩⟩

instance : Std.Associative (α := GenerateIpv6In N) (· ++ ·) :=
  ⟨fun _ _ _ => congrArg₂ GenerateIpv6In.mk (List.append_assoc _ _ _) (List.append_assoc _ _ _)⟩

theorem generateIpv6_waits (undef : Word N) (ip : BitVec 128) : Waits (generateIpv6 undef ip) [] := by
  intro s i
  obtain ⟨metas, data⟩ := i
  obtain ⟨state, header, idx⟩ := s
  cases state with
  | META =>
    cases metas with
    | nil => exact .inl rfl
    | cons m metas => exact .inr fun more => rfl
  | HEADER => exact .inr fun more => rfl
  | PARTIAL_HEADER | BODY =>
    cases data with
    | nil => exact .inl rfl
    | cons w data => exact .inr fun more => rfl

theorem reframe {ds : List (Ipv6Meta × Framed N)} {h : Ipv6Meta × Framed N → List (BitVec 8)} {ws : List (Word N)}
    (hws : Packets ws (ds.map h)) :
    ∃ es : List (Ipv6Meta × Framed N), es.flatMap (·.2.words) = ws ∧
      es.map (fun e => (e.1, e.2.bytes)) = ds.map fun d => (d.1, h d) := by
  induction ds generalizing ws with
  | nil =>
    cases hws
    exact ⟨[], rfl, rfl⟩
  | cons d ds ih =>
    cases hws with
    | cons hpacket hws =>
      obtain ⟨es, hwords, hbytes⟩ := ih hws
      refine ⟨(d.1, ⟨_, _, hpacket⟩) :: es, ?_, ?_⟩
      · rw [List.flatMap_cons, hwords]
      · rw [List.map_cons, hbytes, List.map_cons]

/-- What the transmit side makes of packets: each one with its header in front of it. -/
def Sends (undef : Word N) (ip : BitVec 128) (ds : List (Ipv6Meta × Framed N)) (words : List (Word N)) : Prop :=
  ∃ shifted,
    Completes (lshiftWordByOctet (remainder N)) [] id LShift.Idle {} [] (ds.flatMap (·.2.words)) shifted ∧
    Completes (generateIpv6 undef ip) [] id GenerateIpv6.Idle {} ⟨[], []⟩ ⟨ds.map (·.1), shifted⟩ words ∧
    Packets words (ds.map fun d => headerBytes ip d.1 ++ d.2.bytes)

/-- What the receive side makes of them: the packets, with the sender's address, the length and the next header. -/
def Receives (ip : BitVec 128) (ds : List (Ipv6Meta × Framed N)) (words : List (Word N)) : Prop :=
  ∃ forwarded out,
    Completes processIpv6 {} (·.output) ProcessIpv6.Idle {} [] words forwarded ∧
    Completes processIpv6 {} (·.metaOut) ProcessIpv6.Idle {} [] words
      (ds.map fun d => ⟨ip, d.1.length, d.1.nextHeader⟩) ∧
    Completes (rshiftWordByOctet (remainder N)) [] id (RShift.Idle (remainder N)) (.init (remainder N)) [] forwarded out ∧
    Packets out (ds.map (·.2.bytes))

def RoundTrip (undef : Word N) (ip : BitVec 128) (ds : List (Ipv6Meta × Framed N)) : Prop :=
  ∃ words, Sends undef ip ds words ∧ Receives ip ds words

section

variable {undef : Word N} {ip : BitVec 128} {ds : List (Ipv6Meta × Framed N)} {words : List (Word N)}

theorem remainder_eq (hN : N ∈ [8, 16, 32, 64]) : remainder N = 40 % N := by
  have hwidth : N = 8 ∨ N = 16 ∨ N = 32 ∨ N = 64 := by simpa using hN
  rcases hwidth with rfl | rfl | rfl | rfl <;> rfl

/-- Up to 256 bits the transmit side is right. -/
theorem sends (hN : N ∈ [8, 16, 32]) (undef : Word N) (ip : BitVec 128) (ds : List (Ipv6Meta × Framed N)) :
    ∃ words, Sends undef ip ds words := by
  have hwidth : N = 8 ∨ N = 16 ∨ N = 32 := by simpa using hN
  have hpos : 0 < N := by omega
  have hmod : 40 % N < N := Nat.mod_lt 40 hpos
  have hremainder : remainder N = 40 % N := remainder_eq (by rcases hwidth with rfl | rfl | rfl <;> decide)
  obtain ⟨shifted, hshift, hshifted⟩ := Axi.packets_completes (Q := fun _ => True)
    (fun ds : List (Ipv6Meta × Framed N) => ds.flatMap (·.2.words)) (fun d => List.replicate (remainder N) 0 ++ d.2.bytes)
    (Axi.lshift_waits (remainder N)) (fun s hs => Axi.lshift_idle hs)
    (fun s d ds hs _ => Axi.lshift_packet (by omega) (by omega) d.2.packet hs _) LShift.idle_init
    fun d (_ : d ∈ ds) => trivial
  obtain ⟨es, rfl, hes⟩ := reframe hshifted
  have hroom : ∀ e ∈ es, 40 % N ≤ e.2.bytes.length := by
    intro e he
    have hmem := List.mem_map_of_mem (f := fun e : Ipv6Meta × Framed N => (e.1, e.2.bytes)) he
    rw [hes] at hmem
    obtain ⟨d, -, hd⟩ := List.mem_map.mp hmem
    rw [← (Prod.mk.inj hd).2, List.length_append, List.length_replicate, hremainder]
    omega
  obtain ⟨words, hgenerate, hwords⟩ := Axi.packets_completes (Q := fun e => 40 % N ≤ e.2.bytes.length)
    (fun es : List (Ipv6Meta × Framed N) => (⟨es.map (·.1), es.flatMap (·.2.words)⟩ : GenerateIpv6In N))
    (fun e => headerBytes ip e.1 ++ e.2.bytes.drop (40 % N)) (generateIpv6_waits undef ip)
    (fun s (hs : s.Idle) => by simp [generateIpv6, hs.state])
    (fun s e es hs he => by
      have hpacket := e.2.packet
      rw [← List.take_append_drop (40 % N) e.2.bytes] at hpacket
      exact generate_packet undef ip _ _ hpos (by omega) hs e.1 (by rw [List.length_take]; omega) hpacket)
    (s := {}) ⟨rfl, fixed_init⟩ hroom
  have hmetas : es.map (·.1) = ds.map (·.1) := by
    have hfst := congrArg (List.map Prod.fst) hes
    rw [List.map_map, List.map_map] at hfst
    exact hfst
  have hbytes : es.map (fun e => headerBytes ip e.1 ++ e.2.bytes.drop (40 % N)) =
      ds.map fun d => headerBytes ip d.1 ++ d.2.bytes := by
    have hall := congrArg (List.map fun p : Ipv6Meta × List (BitVec 8) => headerBytes ip p.1 ++ p.2.drop (40 % N)) hes
    rw [List.map_map, List.map_map] at hall
    refine hall.trans (List.map_congr_left fun d _ => ?_)
    show headerBytes ip d.1 ++ (List.replicate (remainder N) 0 ++ d.2.bytes).drop (40 % N) = _
    rw [List.drop_left' (by rw [List.length_replicate, hremainder])]
  rw [hmetas] at hgenerate
  rw [Axi.PacketsFor, hbytes] at hwords
  exact ⟨words, _, hshift, hgenerate, hwords⟩

theorem length_headerBytes (ip : BitVec 128) (m : Ipv6Meta) : (headerBytes ip m).length = 40 := by
  rw [headerBytes, List.length_append, List.length_append, length_octets, length_octets]
  rfl

/-- The packet of an item has its header in front. -/
def HasHeader (ip : BitVec 128) (e : Ipv6Meta × Framed N) : Prop := ∃ bs, e.2.bytes = headerBytes ip e.1 ++ bs

theorem process_completes (ip : BitVec 128) (hN : 0 < N) {β : Type} {g : ProcessIpv6Out N → List β} (hg : g {} = [])
    (h : Ipv6Meta × Framed N → List β)
    (hone : ∀ (e : Ipv6Meta × Framed N) os header, metaOf header = ⟨ip, e.1.length, e.1.nextHeader⟩ →
      PacketWrites header e.2.words os (wordsBefore N) → os.flatMap g = h e)
    {es : List (Ipv6Meta × Framed N)} (hes : ∀ e ∈ es, HasHeader ip e) :
    Completes processIpv6 {} g ProcessIpv6.Idle {} [] (es.flatMap (·.2.words)) (es.flatMap h) := by
  refine completes_each (Q := HasHeader ip) h (fun es : List (Ipv6Meta × Framed N) => es.flatMap (·.2.words))
    processIpv6_waits hg rfl (fun s (_ : s.Idle) => rfl) ?_ es ProcessIpv6.idle_init hes
  rintro s e es hs ⟨bs, hbs⟩
  let header := setHeader ipv6Header e.1.theirAddress ip e.1.nextHeader e.1.length
  have hpacket := e.2.packet
  have hoctets : headerBytes ip e.1 = octets 40 header := (octets_setHeader _ _ _ _ fixed_init).symm
  have hmeta : metaOf header = ⟨ip, e.1.length, e.1.nextHeader⟩ := by
    rw [metaOf, getSrcAddress_setHeader, getPayloadLen_setHeader, getNextHeader_setHeader]
  rw [hbs, hoctets] at hpacket
  obtain ⟨os, t, hrun, ht, hwrites⟩ := process_from hN hpacket.ends (es.flatMap (·.2.words)) [] hs.piHeader hs.metaWritten
    (Nat.zero_le _) hpacket
  exact ⟨os, t, hrun, ht, hone e os header hmeta hwrites⟩

/-- The words that are passed on carry the packets without what is in front of the word in which the header ends. -/
theorem forwarded_packets (hN : 0 < N) {es : List (Ipv6Meta × Framed N)} (hes : ∀ e ∈ es, HasHeader ip e) :
    Packets (es.flatMap fun e => e.2.words.drop (wordsBefore N))
      (es.map fun e => e.2.bytes.drop (wordsBefore N * N)) := by
  induction es with
  | nil => exact .nil
  | cons e es ih =>
    obtain ⟨⟨bs, hbs⟩, hes⟩ := List.forall_mem_cons.mp hes
    refine .cons (e.2.packet.drop ?_) (ih hes)
    have hlen := e.2.packet.length_bytes.1
    have hbefore : wordsBefore N * N ≤ 39 := Nat.div_mul_le_self 39 N
    rw [hbs, List.length_append, length_headerBytes] at hlen
    exact Nat.lt_of_mul_lt_mul_right (a := N) (by omega)

/-- The receive side takes this many bytes off each packet. -/
theorem receives_iff (hN : N ∈ [8, 16, 32, 64])
    (hwords : Packets words (ds.map fun d => headerBytes ip d.1 ++ d.2.bytes)) :
    Receives ip ds words ↔ wordsBefore N * N + remainder N = 40 ∨ ds = [] := by
  have hwidth : N = 8 ∨ N = 16 ∨ N = 32 ∨ N = 64 := by simpa using hN
  have hpos : 0 < N := by omega
  have hremainder : remainder N < N := by
    rw [remainder_eq hN]
    exact Nat.mod_lt 40 hpos
  obtain ⟨es, rfl, hes⟩ := reframe hwords
  have hheader : ∀ e ∈ es, HasHeader ip e := by
    intro e he
    have hmem := List.mem_map_of_mem (f := fun e : Ipv6Meta × Framed N => (e.1, e.2.bytes)) he
    rw [hes] at hmem
    obtain ⟨d, -, hd⟩ := List.mem_map.mp hmem
    obtain ⟨hfst, hsnd⟩ := Prod.mk.inj hd
    exact ⟨d.2.bytes, by rw [← hsnd, hfst]⟩
  have hforwarded := process_completes ip (g := (·.output)) hpos rfl (fun e => e.2.words.drop (wordsBefore N))
    (fun e os header _ hwrites => hwrites.output) hheader
  have hmetas := process_completes ip (g := (·.metaOut)) hpos rfl (fun e => [(⟨ip, e.1.length, e.1.nextHeader⟩ : Ipv6Meta)])
    (fun e os header hmeta hwrites => hwrites.metas.trans (congrArg (fun m => [m]) hmeta)) hheader
  rw [← List.map_eq_flatMap] at hmetas
  have hmap : es.map (fun e => (⟨ip, e.1.length, e.1.nextHeader⟩ : Ipv6Meta)) =
      ds.map fun d => ⟨ip, d.1.length, d.1.nextHeader⟩ := by
    have hall := congrArg (List.map fun p : Ipv6Meta × List (BitVec 8) => (⟨ip, p.1.length, p.1.nextHeader⟩ : Ipv6Meta)) hes
    rw [List.map_map, List.map_map] at hall
    exact hall
  rw [hmap] at hmetas
  obtain ⟨ps, hps, hbytes⟩ := (forwarded_packets hpos hheader).framed
  obtain ⟨out, hshift, hout⟩ := Axi.packets_completes (Q := fun _ => True) (List.flatMap Framed.words)
    (fun p => p.bytes.drop (remainder N)) (Axi.rshift_waits (remainder N)) (fun s hs => Axi.rshift_idle hs)
    (fun s p ps hs _ => Axi.rshift_packet hremainder p.packet hs _) (RShift.idle_init (remainder N))
    fun p (_ : p ∈ ps) => trivial
  rw [hps] at hshift
  have hdrop : ps.map (fun p => p.bytes.drop (remainder N)) =
      ds.map fun d => (headerBytes ip d.1 ++ d.2.bytes).drop (wordsBefore N * N + remainder N) := by
    have hfirst := congrArg (List.map (List.drop (remainder N))) hbytes
    have hsecond := congrArg
      (List.map fun p : Ipv6Meta × List (BitVec 8) => p.2.drop (wordsBefore N * N + remainder N)) hes
    rw [List.map_map, List.map_map] at hfirst hsecond
    refine hfirst.trans (Eq.trans ?_ hsecond)
    exact List.map_congr_left fun e _ => List.drop_drop
  rw [Axi.PacketsFor, hdrop] at hout
  have hwhole (d : Ipv6Meta × Framed N) : (headerBytes ip d.1 ++ d.2.bytes).drop 40 = d.2.bytes :=
    List.drop_left' (length_headerBytes ip d.1)
  constructor
  · rintro ⟨forwarded, out', hforwarded', -, hshift', hout'⟩
    cases hforwarded.unique rfl hforwarded'
    cases hshift.unique rfl hshift'
    have hsame := hout'.unique hout
    cases ds with
    | nil => exact .inr rfl
    | cons d ds =>
      rw [List.map_cons, List.map_cons] at hsame
      have hlen := congrArg List.length (List.cons.inj hsame).1
      rw [List.length_drop, List.length_append, length_headerBytes] at hlen
      have hle : wordsBefore N * N + remainder N ≤ 40 := by
        rcases hwidth with rfl | rfl | rfl | rfl <;> decide
      exact .inl (by omega)
  · intro hcut
    refine ⟨_, out, hforwarded, hmetas, hshift, ?_⟩
    rcases hcut with hcut | rfl
    · rw [hcut] at hout
      rw [List.map_congr_left fun d _ => hwhole d] at hout
      exact hout
    · exact hout

theorem not_holds_gap {w : Word N} {q : List (BitVec 8)} (h : w.Holds q) {i j : Nat} (hij : i < j)
    (hi : w.keepAt i = false) (hj : w.keepAt j = true) : False := by
  rw [h.keepAt] at hi hj
  have hlow := of_decide_eq_false hi
  have hhigh := of_decide_eq_true hj
  omega

theorem first_kept (hN : 0 < N) {ws : List (Word N)} {bs : List (BitVec 8)} (h : Packet ws bs) (hbs : bs ≠ []) :
    ∃ w us, ws = w :: us ∧ w.keepAt 0 = true := by
  cases h with
  | last _ hw => exact ⟨_, [], rfl, (hw.keepAt 0).trans (decide_eq_true (List.length_pos_of_ne_nil hbs))⟩
  | @cons w us q bs' _ hw _ =>
    have hlen : q.length = N := Axi.Word.length_full hw
    have hpos : 0 < q.length := hlen ▸ hN
    exact ⟨w, us, rfl, ((Axi.Word.holds_full hw).keepAt 0).trans (decide_eq_true hpos)⟩

/-- At 512 bits the room for the header is wider than the constant that fills its enables, and the header is sent in a
word of its own in front of that room. -/
theorem not_sends {undef : Word 64} {ds : List (Ipv6Meta × Framed 64)} {words : List (Word 64)}
    (hds : ∀ d ∈ ds, d.2.bytes ≠ []) (hne : ds ≠ []) : ¬Sends undef ip ds words := by
  rintro ⟨shifted, hshift, hgenerate, hpackets⟩
  cases ds with
  | nil => exact hne rfl
  | cons d ds =>
    obtain ⟨w, us, hwords, hfirst⟩ := first_kept (by decide) d.2.packet (hds d List.mem_cons_self)
    rw [List.flatMap_cons, hwords] at hshift
    obtain ⟨os, t, hrest, -, hos⟩ := hshift.rests
    have hcall : lshiftWordByOctet 40 ({} : LShift 64) (w :: (us ++ ds.flatMap (·.2.words))) =
        ({ prevWord := w, firstWord := w.last, writeRemainder := w.last && !(LShift.send 40 {} w).last },
          us ++ ds.flatMap (·.2.words), [LShift.send 40 {} w]) := by
      simp [lshiftWordByOctet]
    obtain ⟨os', -, hsplit⟩ := hrest.after (g := id) rfl (.one hcall)
    have hshifted : shifted = LShift.send 40 {} w :: os'.flatMap id := hos.symm.trans hsplit
    rw [hshifted, List.map_cons] at hgenerate
    -- the metadata, the word with the header, and the first word of the room
    obtain ⟨os, t, hrest, -, hos⟩ := hgenerate.rests
    have hmeta : generateIpv6 undef ip {} ⟨d.1 :: ds.map (·.1), LShift.send 40 {} w :: os'.flatMap id⟩ =
        (⟨.HEADER, setHeader ipv6Header d.1.theirAddress ip d.1.nextHeader d.1.length, 0⟩,
          ⟨ds.map (·.1), LShift.send 40 {} w :: os'.flatMap id⟩, []) := rfl
    obtain ⟨full, hfull⟩ : ∃ full, generateIpv6 undef ip
        ⟨.HEADER, setHeader ipv6Header d.1.theirAddress ip d.1.nextHeader d.1.length, 0⟩
        ⟨ds.map (·.1), LShift.send 40 {} w :: os'.flatMap id⟩ =
        (⟨.PARTIAL_HEADER, setHeader ipv6Header d.1.theirAddress ip d.1.nextHeader d.1.length, 1⟩,
          ⟨ds.map (·.1), LShift.send 40 {} w :: os'.flatMap id⟩, [full]) := ⟨_, rfl⟩
    have hroom (s : GenerateIpv6) (i : GenerateIpv6In 64) (hstate : s.state = .PARTIAL_HEADER) (hidx : s.idx = 1) :
        ∃ t, generateIpv6 undef ip s { i with input := LShift.send 40 {} w :: i.input } =
          (t, i, [LShift.send 40 {} w]) := by
      have hnone : s.consume 64 = [] := by
        rw [GenerateIpv6.consume, hidx, List.drop_eq_nil_of_le (by rw [length_octets]; decide), List.take_nil]
      exact ⟨_, by simp only [generateIpv6, hstate, hnone]; rfl⟩
    obtain ⟨u, hsend⟩ := hroom ⟨.PARTIAL_HEADER, setHeader ipv6Header d.1.theirAddress ip d.1.nextHeader d.1.length, 1⟩
      ⟨ds.map (·.1), os'.flatMap id⟩ rfl rfl
    obtain ⟨os'', -, hsplit'⟩ := hrest.after (g := id) rfl (.call hmeta (.call hfull (.one hsend)))
    have hwritten : LShift.send 40 {} w ∈ words := by
      rw [← hos, hsplit']
      exact List.mem_cons_of_mem _ List.mem_cons_self
    obtain ⟨q, hq⟩ := hpackets.holds _ hwritten
    refine not_holds_gap hq (i := 32) (j := 40) (by decide) ?_ ?_
    · simp [Axi.Word.keepAt, Axi.Word.keeps, LShift.send, Axi.filler, List.getElem?_append]
    · have hlane : (LShift.send 40 {} w).keepAt 40 = w.keepAt 0 := by
        simp [Axi.Word.keepAt, Axi.Word.keeps, LShift.send, Axi.filler, List.getElem?_append]
      exact hlane.trans hfirst

theorem sends_nil (undef : Word N) (ip : BitVec 128) : Sends undef ip [] [] := by
  have hshift : Completes (lshiftWordByOctet (remainder N)) [] id LShift.Idle {} [] [] ([] : List (Word N)) :=
    .of_rests (Axi.lshift_waits (remainder N)) rfl ⟨.refl _ _, Axi.lshift_idle LShift.idle_init⟩ LShift.idle_init rfl
  have hgenerate : Completes (generateIpv6 undef ip) [] id GenerateIpv6.Idle {} ⟨[], []⟩ ⟨[], []⟩ [] :=
    .of_rests (generateIpv6_waits undef ip) rfl ⟨.refl _ _, rfl⟩ ⟨rfl, fixed_init⟩ rfl
  exact ⟨[], hshift, hgenerate, .nil⟩

/-- Packets come through as they were at 128 and at 256 bits, and at no other width. -/
theorem round_trip_of (hN : N ∈ [8, 16, 32, 64]) (undef : Word N) (ip : BitVec 128) (ds : List (Ipv6Meta × Framed N))
    (hds : ∀ d ∈ ds, d.2.bytes ≠ []) : RoundTrip undef ip ds ↔ ds = [] ∨ N = 16 ∨ N = 32 := by
  have hwidth : N = 8 ∨ N = 16 ∨ N = 32 ∨ N = 64 := by simpa using hN
  have hback {words : List (Word N)} (hsends : Sends undef ip ds words) :
      Receives ip ds words ↔ wordsBefore N * N + remainder N = 40 ∨ ds = [] := by
    obtain ⟨-, -, -, hpackets⟩ := hsends
    exact receives_iff hN hpackets
  constructor
  · rintro ⟨words, hsends, hreceives⟩
    rw [hback hsends] at hreceives
    rcases hwidth with rfl | rfl | rfl | rfl
    · exact .inl (hreceives.resolve_left (by decide))
    · exact .inr (.inl rfl)
    · exact .inr (.inr rfl)
    · by_cases hnil : ds = []
      · exact .inl hnil
      · exact absurd hsends (not_sends hds hnil)
  · rintro (rfl | hwide)
    · exact ⟨[], sends_nil undef ip, (receives_iff hN .nil).mpr (.inr rfl)⟩
    · obtain ⟨words, hsends⟩ := sends (by rcases hwide with rfl | rfl <;> decide) undef ip ds
      refine ⟨words, hsends, (hback hsends).mpr (.inl ?_)⟩
      rcases hwide with rfl | rfl <;> decide

theorem round_trip_iff (hN : N ∈ [8, 16, 32, 64]) (undef : Word N) (ip : BitVec 128) (ds : List (Ipv6Meta × Framed N))
    (hds : ∀ d ∈ ds, d.2.bytes ≠ []) : RoundTrip undef ip ds ↔ ds = [] ∨ N = 16 ∨ N = 32 :=
  round_trip_of hN undef ip ds hds

end

def byteItem (N : Nat) (hN : 0 < N) : Ipv6Meta × Framed N := (⟨2, 1, 0x11⟩, .single [0xAB] hN)

theorem round_trip_byte : RoundTrip Word.zero 1 [byteItem 32 (by decide)] :=
  (round_trip_iff (by decide) Word.zero 1 [byteItem 32 (by decide)]
    (List.forall_mem_singleton.mpr (List.cons_ne_nil _ _))).mpr (.inr (.inr rfl))

/-- At 64 bits the last eight bytes of the header stay in front of the payload. -/
theorem header_left : ¬RoundTrip Word.zero 1 [byteItem 8 (by decide)] := by
  rw [round_trip_of (by decide) Word.zero 1 _ (List.forall_mem_singleton.mpr (List.cons_ne_nil _ _))]
  simp

end FpgaNetworkStack.Ipv6
