import FpgaNetworkStack.Icmp.ErrorMessages

/-!
# What an error message carries

The quoted packet gives the header, with its own length and 28 more, and the ICMP checksum is the sum of its whole words
in twenty bits.
-/

namespace FpgaNetworkStack.Icmp

open Lib
open Axi (Lane Word Packet Packets Ends Framed overlay overlay_lanes octets)
open Toe (setHalfword reverse16 halfwords internetSum withChecksum)

/-! ## The packet that is built -/

def typeOf (k : Fin 2) : BitVec 8 := if k = 0 then 3 else 11

def codeOf (k : Fin 2) : BitVec 8 := if k = 0 then 3 else 0

def totalLength (bytes : List (BitVec 8)) : BitVec 16 := bytes.getD 2 0 ++ bytes.getD 3 0

/-- The header that goes in front: its source address is that of the server. -/
def errorHeader (quoted : List (BitVec 8)) : List (BitVec 8) :=
  let length := totalLength quoted + 28
  (quoted.take 2 ++ [length.extractLsb' 8 8, length.extractLsb' 0 8] ++ (quoted.drop 4).take 4) ++
    (([0x80, 0x01] ++ (quoted.drop 10).take 2 ++ List.replicate 4 1) ++ (quoted.drop 12).take 4)

def errorMessage (k : Fin 2) (checksum : BitVec 16) (quoted : List (BitVec 8)) : List (BitVec 8) :=
  typeOf k :: codeOf k :: (bytesOf checksum ++ (List.replicate 4 0 ++ quoted))

/-- The words that leave `udpAddIpHeader` for a packet. -/
structure Built (d : Fin 2 × Framed 8) (ws : List (Word 8)) where
  first : Word 8
  second : Word 8
  third : Word 8
  more : List (Word 8)
  front : List (BitVec 8)
  middle : List (BitVec 8)
  source : List (BitVec 8)
  words_eq : ws = first :: second :: third :: more
  header_eq : errorHeader d.2.bytes = front ++ (middle ++ source)
  first_last : first.last = false
  second_last : second.last = false
  third_last : third.last = false
  first_lanes : first.lanes = front.map Lane.kept
  second_lanes : second.lanes = middle.map Lane.kept
  third_lanes : third.lanes = (source ++ [typeOf d.1, codeOf d.1, 0, 0]).map Lane.kept
  source_length : source.length = 4
  packet : Packet more (List.replicate 4 0 ++ d.2.bytes)

theorem octets_icmpHeader (k : Fin 2) : octets 8 (icmpHeader k) = [typeOf k, codeOf k, 0, 0] ++ List.replicate 4 0 := by
  match k with
  | 0 => decide
  | 1 => decide

theorem octets_extract {n m k : Nat} (x : BitVec n) :
    octets k (x.extractLsb' (8 * m) (8 * k)) = (octets (m + k) x).drop m := by
  apply List.ext_getElem
  · rw [List.length_drop, Axi.length_octets, Axi.length_octets, Nat.add_sub_cancel_left]
  · intro i hi hi'
    rw [Axi.length_octets] at hi
    simp only [octets, List.getElem_map, List.getElem_range, List.getElem_drop]
    apply BitVec.eq_of_getLsbD_eq
    intro j hj
    have hin : 8 * i + j < 8 * k := by omega
    have hsum : 8 * m + (8 * i + j) = 8 * (m + i) + j := by omega
    simp [hj, hin, hsum]

section

variable {w : Word 8}

theorem withLength_lanes {a b c d : BitVec 8} {q : List (BitVec 8)} (hw : w.lanes = (a :: b :: c :: d :: q).map Lane.kept)
    {length : BitVec 16} (hlength : c ++ d = length) :
    (withLength w.data).lanes =
      ([a, b] ++ (length + 28).extractLsb' 8 8 :: (length + 28).extractLsb' 0 8 :: q).map Lane.kept := by
  have hread : reverse16 (w.data.extractLsb' 16 16) = length := by
    have hswap := IpHandler.reverse16_extract w.data 2
    rw [data_full hw, Axi.headerOf_octet (by decide), Axi.headerOf_octet (by decide)] at hswap
    rw [data_full hw, ← hlength]
    exact hswap
  have hlanes : (wordOf w.data).lanes = ([a, b] ++ c :: d :: q).map Lane.kept ++ [] := by
    rw [wordOf_lanes hw, List.append_nil]
    rfl
  have hset := Toe.setHalfword_lanes (length + 28) hlanes
  rw [List.append_nil] at hset
  rw [withLength, hread]
  exact hset

theorem withProtocol_lanes {a b c d : BitVec 8} {q : List (BitVec 8)} (hw : w.lanes = (a :: b :: c :: d :: q).map Lane.kept) :
    (withProtocol w.data).lanes = ([0x80, 0x01] ++ [c, d] ++ List.replicate 4 1).map Lane.kept := by
  have hlanes : (wordOf w.data).lanes = [a, b].map Lane.kept ++ (c :: d :: q).map Lane.kept := by
    rw [wordOf_lanes hw]
    rfl
  have hover : (overlay [0x80, 0x01] (wordOf w.data)).lanes =
      [0x80, 0x01].map Lane.kept ++ (c :: d :: q).map Lane.kept := overlay_lanes hlanes rfl
  show (overlay [0x80, 0x01] (wordOf w.data)).lanes.take 4 ++ List.replicate 4 (Lane.kept 1) = _
  rw [hover]
  rfl

theorem octets_source {q source : List (BitVec 8)} (hw : w.lanes = (q ++ source).map Lane.kept) (hq : q.length = 4) :
    octets 4 (w.data.extractLsb' 32 32) = source := by
  have hlen := Axi.Word.length_full hw
  have hextract := octets_extract (m := 4) (k := 4) w.data
  rw [data_full hw, octets_headerOf hlen, List.drop_left' hq] at hextract
  rw [data_full hw]
  exact hextract

end

theorem halves_lanes {prev source q q' : List (BitVec 8)} {w : Word 8} (h : prev.length = 4) (hprev : prev = source)
    (hw : w.lanes = (q ++ q').map Lane.kept) (hq : q.length = 4) :
    (halves prev w h).lanes = (source ++ q).map Lane.kept := by
  subst hprev
  show prev.map Lane.kept ++ (w.lanes.take 4).map (fun l => Lane.kept l.data) = _
  rw [hw, ← List.map_take, List.take_left' hq, List.map_map, List.map_append]
  rfl

variable {d : Fin 2 × Framed 8}

theorem addIpHeader_packet (hd : Quotable d.2) {s : AddIpHeader} (hs : s.addIpState = .AIP_IDLE)
    (rest : List (Word 8)) (headers : List (BitVec 64)) :
    ∃ os t, Runs (udpAddIpHeader false) s ⟨dataFor d ++ rest, headerFor d ++ headers⟩ os t ⟨rest, headers⟩ ∧
      t.addIpState = .AIP_IDLE ∧ Nonempty (Built d (os.flatMap id)) := by
  obtain ⟨k, p⟩ := d
  have hbytes : 28 ≤ p.bytes.length := hd
  obtain ⟨P⟩ := exists_parts p.packet (by omega)
  obtain ⟨front, front', hfront, hlen, hlen'⟩ := split_eight P.front_length
  obtain ⟨a, b, c, e, rfl⟩ := List.length_eq_four.mp hlen
  obtain ⟨a', b', c', e', hmiddle⟩ := List.length_eq_four.mp P.middle_length
  have hfirst : P.first.lanes = (a :: b :: c :: e :: front').map Lane.kept := by
    rw [P.first_lanes, hfront]
    rfl
  have hsecond : P.second.lanes = ([a', b', c', e'] ++ P.source).map Lane.kept := by rw [P.second_lanes, hmiddle]
  have hsource := octets_source hsecond rfl
  have hicmp : (wordOf (icmpHeader k)).lanes = ([typeOf k, codeOf k, 0, 0] ++ List.replicate 4 0).map Lane.kept :=
    congrArg (List.map Lane.kept) (octets_icmpHeader k)
  have hheaders : headerFor (k, p) = [P.first.data, P.second.data, P.third.data] :=
    congrArg (fun ws : List (Word 8) => (ws.take 3).map Word.data) P.words_eq
  have h1 : udpAddIpHeader false s ⟨dataFor (k, p) ++ rest, headerFor (k, p) ++ headers⟩ =
      ({ s with addIpState := .AIP_IP, tempWord := withLength P.first.data },
        ⟨dataFor (k, p) ++ rest, [P.second.data, P.third.data] ++ headers⟩, [withLength P.first.data]) := by
    rw [hheaders]
    simp only [udpAddIpHeader, hs]
    rfl
  have h2 : udpAddIpHeader false { s with addIpState := .AIP_IP, tempWord := withLength P.first.data }
      ⟨dataFor (k, p) ++ rest, [P.second.data, P.third.data] ++ headers⟩ =
      (⟨.AIP_MERGE, withProtocol P.second.data, P.second.data.extractLsb' 32 32⟩,
        ⟨dataFor (k, p) ++ rest, [P.third.data] ++ headers⟩, [withProtocol P.second.data]) := rfl
  have h3 : udpAddIpHeader false ⟨.AIP_MERGE, withProtocol P.second.data, P.second.data.extractLsb' 32 32⟩
      ⟨dataFor (k, p) ++ rest, [P.third.data] ++ headers⟩ =
      (⟨.AIP_STREAM, wordOf (icmpHeader k), P.second.data.extractLsb' 32 32⟩, ⟨p.words ++ rest, headers⟩,
        [halves (octets 4 (P.second.data.extractLsb' 32 32)) (wordOf (icmpHeader k)) (Axi.length_octets 4 _)]) := rfl
  obtain ⟨os, t, hrun, ht, hpacket⟩ := addIpHeader_stream p.packet rest headers
    (s := ⟨.AIP_STREAM, wordOf (icmpHeader k), P.second.data.extractLsb' 32 32⟩) rfl hicmp
  have hthird := halves_lanes (Axi.length_octets 4 (P.second.data.extractLsb' 32 32)) hsource hicmp rfl
  have hsplit : p.bytes = (a :: b :: c :: e :: front') ++ ([a', b', c', e'] ++ (P.source ++ (P.destination ++
      P.type :: P.code :: P.low :: P.high :: P.tail))) := by
    have hall := P.bytes_split
    rw [hfront, hmiddle] at hall
    exact hall
  obtain ⟨f0, f1, f2, f3, rfl⟩ := List.length_eq_four.mp hlen'
  obtain ⟨s0, s1, s2, s3, hs4⟩ := List.length_eq_four.mp P.source_length
  have hlength : c ++ e = totalLength p.bytes := by
    rw [hsplit]
    rfl
  refine ⟨_, t, .call h1 (.call h2 (.call h3 hrun)), ht, ⟨{
    first := withLength P.first.data
    second := withProtocol P.second.data
    third := halves (octets 4 (P.second.data.extractLsb' 32 32)) (wordOf (icmpHeader k)) (Axi.length_octets 4 _)
    more := os.flatMap id
    front := [a, b] ++ (totalLength p.bytes + 28).extractLsb' 8 8 :: (totalLength p.bytes + 28).extractLsb' 0 8 :: [f0, f1, f2, f3]
    middle := [0x80, 0x01] ++ [c', e'] ++ List.replicate 4 1
    source := P.source
    words_eq := rfl
    header_eq := ?_
    first_last := rfl
    second_last := rfl
    third_last := rfl
    first_lanes := withLength_lanes hfirst hlength
    second_lanes := withProtocol_lanes hsecond
    third_lanes := hthird
    source_length := P.source_length
    packet := hpacket }⟩⟩
  show errorHeader p.bytes = _
  rw [errorHeader, hs4]
  generalize totalLength p.bytes + 28 = length
  rw [hsplit, hs4]
  rfl

theorem length_errorHeader {quoted : List (BitVec 8)} (h : 20 ≤ quoted.length) : (errorHeader quoted).length = 20 := by
  simp only [errorHeader, List.length_append, List.length_take, List.length_drop, List.length_cons, List.length_nil,
    List.length_replicate]
  omega

def errorBytes (d : Fin 2 × Framed 8) : List (BitVec 8) :=
  errorHeader d.2.bytes ++ errorMessage d.1 (valueFor d) d.2.bytes

theorem Built.reply {ws : List (Word 8)} (B : Built d ws) (checksum : BitVec 16) :
    Packet (replyWords checksum ws) (errorHeader d.2.bytes ++ errorMessage d.1 checksum d.2.bytes) := by
  have hlen : (B.source ++ [typeOf d.1, codeOf d.1]).length = 6 := by
    rw [List.length_append, B.source_length]
    rfl
  have hlanes : B.third.lanes = ((B.source ++ [typeOf d.1, codeOf d.1]) ++ 0 :: 0 :: []).map Lane.kept ++ [] := by
    rw [B.third_lanes, List.append_nil, List.append_assoc]
    rfl
  have hset := Toe.setHalfword_lanes (reverse16 checksum) hlanes
  rw [Toe.reverse16_reverse16, hlen, List.append_nil, reverse16, BitVec.extractLsb'_append_eq_right,
    BitVec.extractLsb'_append_eq_left] at hset
  have hlast : (setHalfword 6 checksum B.third).last = false := B.third_last
  have hthird := Packet.cons hlast hset B.packet
  have hall := Packet.cons B.first_last B.first_lanes (Packet.cons B.second_last B.second_lanes hthird)
  have hwords : replyWords checksum ws = B.first :: B.second :: setHalfword 6 checksum B.third :: B.more :=
    congrArg (replyWords checksum) B.words_eq
  rw [hwords, B.header_eq, errorMessage, bytesOf]
  simp only [List.append_assoc, List.cons_append, List.nil_append] at hall ⊢
  exact hall

/-! ## All packets -/

/-- A packet of a length that the answer can still tell. -/
structure Quoted (p : Framed 8) : Prop where
  least : Quotable p
  most : p.bytes.length ≤ 65507

theorem addIpHeader_packets (ds : List (Fin 2 × Framed 8)) (hds : ∀ d ∈ ds, Quoted d.2) :
    ∀ {s : AddIpHeader}, s.addIpState = .AIP_IDLE →
      ∃ os t, ∃ wss : List (List (Word 8)),
        Rests (udpAddIpHeader false) [] s ⟨ds.flatMap dataFor, ds.flatMap headerFor⟩ os t {} ∧ t.addIpState = .AIP_IDLE ∧
        os.flatMap id = wss.flatten ∧ List.Forall₂ (fun d ws => Nonempty (Built d ws)) ds wss := by
  induction ds with
  | nil =>
    intro s hs
    exact ⟨[], s, [], ⟨.refl s _, by simp only [udpAddIpHeader, hs]⟩, hs, rfl, .nil⟩
  | cons d ds ih =>
    intro s hs
    obtain ⟨hd, hds⟩ := List.forall_mem_cons.mp hds
    obtain ⟨os, t, hrun, ht, hbuilt⟩ := addIpHeader_packet hd.least hs (ds.flatMap dataFor) (ds.flatMap headerFor)
    obtain ⟨os', u, wss, hrests, hu, hos, hall⟩ := ih hds ht
    refine ⟨os ++ os', u, os.flatMap id :: wss, hrests.before hrun, hu, ?_, .cons hbuilt hall⟩
    rw [List.flatMap_append, hos, List.flatten_cons]

variable {ds : List (Fin 2 × Framed 8)}

theorem insert_packets {wss : List (List (Word 8))}
    (h : List.Forall₂ (fun d ws => Nonempty (Built d ws)) ds wss) (hds : ∀ d ∈ ds, Quoted d.2) :
    ∀ {s : InsertChecksum}, s.wordCount = 0 →
      ∃ os t, Rests (insertOn 1) [] s ⟨wss.flatten, ds.map valueFor⟩ os t {} ∧ t.wordCount = 0 ∧
        Packets (os.flatMap id) (ds.map errorBytes) := by
  induction h with
  | nil =>
    intro s hs
    exact ⟨[], s, ⟨.refl s _, insert_empty 1 s []⟩, hs, .nil⟩
  | @cons d ws ds wss hbuilt _ ih =>
    intro s hs
    obtain ⟨hd, hds⟩ := List.forall_mem_cons.mp hds
    obtain ⟨B⟩ := hbuilt
    have hlen := B.packet.length_bytes.2
    have hmost := hd.most
    rw [List.length_append, List.length_replicate] at hlen
    obtain ⟨os, t, hrun, hos, ht⟩ := insert_words (k := 1) B.packet.ends (by omega) hs B.first B.second B.third
      B.second_last wss.flatten (valueFor d) (ds.map valueFor)
    obtain ⟨os', u, hrests, hu, hpackets⟩ := ih hds ht
    rw [← B.words_eq] at hrun hos
    refine ⟨os ++ os', u, hrests.before hrun, hu, ?_⟩
    rw [List.flatMap_append, List.flatMap_id, hos, List.map_cons]
    exact .cons (B.reply (valueFor d)) hpackets

/-! ## The checksum -/

/-- The sum of the halfwords with the low byte first. -/
def lowSum : List (BitVec 8) → Nat
  | [] => 0
  | [b] => b.toNat
  | b :: b' :: bs => b.toNat + 256 * b'.toNat + lowSum bs

theorem lowSum_append {bs : List (BitVec 8)} (bs' : List (BitVec 8)) (h : bs.length % 2 = 0) :
    lowSum (bs ++ bs') = lowSum bs + lowSum bs' := by
  induction bs using lowSum.induct with
  | case1 => exact (Nat.zero_add _).symm
  | case2 b =>
    rw [List.length_singleton] at h
    omega
  | case3 b b' bs ih =>
    rw [List.length_cons, List.length_cons] at h
    show b.toNat + 256 * b'.toNat + lowSum (bs ++ bs') = _
    rw [ih (by omega), lowSum]
    omega

theorem lowSum_mod (bs : List (BitVec 8)) : 256 * (halfwords bs).sum % 65535 = lowSum bs % 65535 := by
  induction bs using lowSum.induct with
  | case1 => rfl
  | case2 b =>
    have hbyte : (b ++ (0 : BitVec 8)).toNat = 256 * b.toNat + 0 := toNat_bytes b 0
    simp only [halfwords, lowSum, List.sum_cons, List.sum_nil, hbyte]
    omega
  | case3 b b' bs ih =>
    rw [halfwords, lowSum, List.sum_cons, toNat_bytes]
    omega

theorem toNat_half {w : Word 8} {bs : List (BitVec 8)} (hw : w.lanes.map (·.data) = bs) {k : Nat} (hk : k + 1 < 8) :
    (w.data.extractLsb' (8 * k) 16).toNat = (bs.getD k 0).toNat + 256 * (bs.getD (k + 1) 0).toNat := by
  have hdata : w.data = Axi.headerOf 8 bs := by
    rw [← hw]
    rfl
  have hswap := IpHandler.reverse16_extract w.data k
  have hback := congrArg reverse16 hswap
  rw [Toe.reverse16_reverse16, hdata, Axi.headerOf_octet (by omega), Axi.headerOf_octet (by omega)] at hback
  rw [hdata, hback, reverse16, BitVec.extractLsb'_append_eq_right, BitVec.extractLsb'_append_eq_left, toNat_bytes,
    Nat.add_comm]

theorem toNat_wordSum (w : Word 8) : (wordSum w.data).toNat = lowSum (w.lanes.map (·.data)) := by
  have hlen : (w.lanes.map (·.data)).length = 8 := by rw [List.length_map, w.length_eq]
  obtain ⟨bs, hbs⟩ : ∃ bs, w.lanes.map (·.data) = bs := ⟨_, rfl⟩
  have h0 : (w.data.extractLsb' 0 16).toNat = _ := toNat_half hbs (k := 0) (by decide)
  have h2 : (w.data.extractLsb' 16 16).toNat = _ := toNat_half hbs (k := 2) (by decide)
  have h4 : (w.data.extractLsb' 32 16).toNat = _ := toNat_half hbs (k := 4) (by decide)
  have h6 : (w.data.extractLsb' 48 16).toNat = _ := toNat_half hbs (k := 6) (by decide)
  rw [hbs] at hlen ⊢
  match bs, hlen with
  | [b0, b1, b2, b3, b4, b5, b6, b7], _ =>
    simp only [List.getD_cons_zero, List.getD_cons_succ] at h0 h2 h4 h6
    have e0 := b0.isLt
    have e1 := b1.isLt
    have e2 := b2.isLt
    have e3 := b3.isLt
    have e4 := b4.isLt
    have e5 := b5.isLt
    have e6 := b6.isLt
    have e7 := b7.isLt
    simp only [wordSum, BitVec.toNat_add, BitVec.toNat_setWidth, h0, h2, h4, h6, lowSum]
    omega

theorem toNat_sumWords (ws : List (Word 8)) (c : BitVec 20) :
    (sumWords c ws).toNat = (c.toNat + lowSum (Axi.laneData ws)) % 2 ^ 20 := by
  induction ws generalizing c with
  | nil => exact (Nat.mod_eq_of_lt c.isLt).symm
  | cons w ws ih =>
    have hlen : (w.lanes.map (·.data)).length % 2 = 0 := by rw [List.length_map, w.length_eq]
    show (sumWords (c + wordSum w.data) ws).toNat = _
    rw [ih, BitVec.toNat_add, toNat_wordSum, Axi.laneData_cons, lowSum_append _ hlen]
    omega

theorem toNat_finish (c : BitVec 20) :
    ∃ folded ≤ 65535, folded % 65535 = c.toNat % 65535 ∧ (finish c).toNat = 65535 - folded := by
  have hlt := c.isLt
  have hmask : (0xFFFF#20).toNat = 2 ^ 16 - 1 := rfl
  have honce : ((c &&& 0xFFFF#20) + c >>> 16).toNat = c.toNat % 65536 + c.toNat / 65536 := by
    rw [BitVec.toNat_add, BitVec.toNat_and, hmask, Nat.and_two_pow_sub_one_eq_mod, BitVec.toNat_ushiftRight,
      Nat.shiftRight_eq_div_pow]
    omega
  generalize honce' : (c &&& 0xFFFF#20) + c >>> 16 = once at honce
  have htwice : ((once &&& 0xFFFF#20) + once >>> 16).toNat = once.toNat % 65536 + once.toNat / 65536 := by
    rw [BitVec.toNat_add, BitVec.toNat_and, hmask, Nat.and_two_pow_sub_one_eq_mod, BitVec.toNat_ushiftRight,
      Nat.shiftRight_eq_div_pow]
    omega
  refine ⟨once.toNat % 65536 + once.toNat / 65536, by omega, by omega, ?_⟩
  rw [finish, honce', BitVec.extractLsb'_toNat, BitVec.toNat_not, Nat.shiftRight_zero, htwice]
  omega

/-! ## Well formed -/

/-- A header of twenty bytes with the length of the packet, and a message that quotes and verifies. -/
structure IsError (k : Fin 2) (quoted reply : List (BitVec 8)) : Prop where
  headerLength : (reply.getD 0 0).extractLsb' 0 4 = 5
  length : (totalLength reply).toNat = reply.length
  message : ∃ checksum : BitVec 16, reply.drop 20 = errorMessage k checksum quoted
  verifies : internetSum (reply.drop 20) = 0xFFFF

/-- What the bytes of the last word that are not kept add to the sum. -/
def unusedSum (p : Framed 8) : Nat := lowSum (Axi.laneData p.words) - lowSum p.bytes

/-- How often the sum of the words, with the ICMP header, goes past twenty bits. -/
def overflows (k : Fin 2) (p : Framed 8) : Nat := ((icmpHeader k).toNat + lowSum (Axi.laneData p.words)) / 2 ^ 20

/-- The quoted packet has a header without options and its own length, and the bytes that are not kept make up for the
carries that are lost. -/
structure Right (k : Fin 2) (p : Framed 8) : Prop where
  headerLength : (p.bytes.getD 0 0).extractLsb' 0 4 = 5
  length : (totalLength p.bytes).toNat = p.bytes.length
  sum : unusedSum p % 65535 = 16 * overflows k p % 65535

theorem icmpHeader_sum (k : Fin 2) :
    (icmpHeader k).toNat = (typeOf k).toNat + 256 * (codeOf k).toNat ∧ (wordSum (icmpHeader k)).toNat = (icmpHeader k).toNat ∧
      0 < (typeOf k).toNat := by
  match k with
  | 0 => decide
  | 1 => decide

theorem lowSum_message (k : Fin 2) (checksum : BitVec 16) (quoted : List (BitVec 8)) :
    lowSum (errorMessage k checksum quoted) = (icmpHeader k).toNat + checksum.toNat + lowSum quoted := by
  have hsplit : checksum.extractLsb' 8 8 ++ checksum.extractLsb' 0 8 = checksum := BitVec.extractLsb'_append_extractLsb'
  have hbytes := toNat_bytes (checksum.extractLsb' 8 8) (checksum.extractLsb' 0 8)
  rw [hsplit] at hbytes
  have hzeros : lowSum (List.replicate 4 0 ++ quoted) = lowSum quoted := by
    rw [lowSum_append quoted (by decide)]
    exact Nat.zero_add _
  rw [errorMessage, bytesOf]
  show (typeOf k).toNat + 256 * (codeOf k).toNat + ((checksum.extractLsb' 0 8).toNat +
    256 * (checksum.extractLsb' 8 8).toNat + lowSum (List.replicate 4 0 ++ quoted)) = _
  rw [hzeros, (icmpHeader_sum k).1]
  omega

theorem lowSum_le_append (bs more : List (BitVec 8)) : lowSum bs ≤ lowSum (bs ++ more) := by
  induction bs using lowSum.induct with
  | case1 => exact Nat.zero_le _
  | case2 b =>
    match more with
    | [] => exact Nat.le_refl _
    | c :: more =>
      show b.toNat ≤ b.toNat + 256 * c.toNat + lowSum more
      omega
  | case3 b b' bs ih => exact Nat.add_le_add_left ih _

theorem lowSum_packet (p : Framed 8) : lowSum p.bytes ≤ lowSum (Axi.laneData p.words) := by
  obtain ⟨unkept, hlanes⟩ := p.packet.lanes
  have hdata : Axi.laneData p.words = p.bytes ++ unkept := hlanes
  rw [hdata]
  exact lowSum_le_append p.bytes unkept

/-- The checksum of the words makes the message verify exactly when it is also that of the bytes. -/
theorem verifies_iff (d : Fin 2 × Framed 8) :
    internetSum (errorMessage d.1 (valueFor d) d.2.bytes) = 0xFFFF ↔
      unusedSum d.2 % 65535 = 16 * overflows d.1 d.2 % 65535 := by
  obtain ⟨k, p⟩ := d
  obtain ⟨htype, hhead, hpos⟩ := icmpHeader_sum k
  obtain ⟨folded, hle, hmod, hvalue⟩ := toNat_finish (sumWords (wordSum (icmpHeader k)) p.words)
  rw [toNat_sumWords, hhead] at hmod
  have hmessage := lowSum_message k (valueFor (k, p)) p.bytes
  have hsum := lowSum_mod (errorMessage k (valueFor (k, p)) p.bytes)
  have hchecksum : (valueFor (k, p)).toNat = 65535 - folded := hvalue
  have hlanes := lowSum_packet p
  have hne : (halfwords (errorMessage k (valueFor (k, p)) p.bytes)).sum ≠ 0 := by
    rw [errorMessage, bytesOf, List.cons_append, List.cons_append, List.nil_append, message_sum]
    omega
  rw [internetSum_ones_iff, unusedSum, overflows]
  generalize lowSum (errorMessage k (valueFor (k, p)) p.bytes) = message at *
  generalize (halfwords (errorMessage k (valueFor (k, p)) p.bytes)).sum = total at *
  generalize lowSum (Axi.laneData p.words) = lanes at *
  generalize lowSum p.bytes = bytes at *
  generalize (icmpHeader k).toNat = head at *
  show total ≠ 0 ∧ total % 65535 = 0 ↔ (lanes - bytes) % 65535 = _
  have hzero : total % 65535 = 0 ↔ message % 65535 = 0 := by omega
  rw [hzero, hmessage, hchecksum]
  constructor
  · rintro ⟨-, h⟩
    omega
  · intro h
    exact ⟨hne, by omega⟩

theorem errorBytes_length (hd : Quoted d.2) : (errorBytes d).length = d.2.bytes.length + 28 := by
  have hleast : 28 ≤ d.2.bytes.length := hd.least
  rw [errorBytes, List.length_append, length_errorHeader (by omega), errorMessage, List.length_cons, List.length_cons,
    List.length_append, List.length_append, List.length_replicate, bytesOf, List.length_cons, List.length_singleton]
  omega

theorem errorBytes_drop (hd : Quoted d.2) :
    (errorBytes d).drop 20 = errorMessage d.1 (valueFor d) d.2.bytes := by
  have hleast : 28 ≤ d.2.bytes.length := hd.least
  exact List.drop_left' (length_errorHeader (by omega))

theorem errorBytes_header (hd : Quoted d.2) :
    (errorBytes d).getD 0 0 = d.2.bytes.getD 0 0 ∧ totalLength (errorBytes d) = totalLength d.2.bytes + 28 := by
  have hleast : 28 ≤ d.2.bytes.length := hd.least
  have hsplit : (totalLength d.2.bytes + 28).extractLsb' 8 8 ++ (totalLength d.2.bytes + 28).extractLsb' 0 8 =
      totalLength d.2.bytes + 28 := BitVec.extractLsb'_append_extractLsb'
  rw [totalLength, errorBytes, errorHeader]
  generalize totalLength d.2.bytes + 28 = length at *
  match d.2.bytes, hleast with
  | a :: b :: bytes, _ => exact ⟨rfl, hsplit⟩

theorem right_iff (hd : Quoted d.2) :
    Right d.1 d.2 ↔ ((errorBytes d).getD 0 0).extractLsb' 0 4 = 5 ∧
      (totalLength (errorBytes d)).toNat = (errorBytes d).length ∧ internetSum ((errorBytes d).drop 20) = 0xFFFF := by
  obtain ⟨hfirst, hlength⟩ := errorBytes_header hd
  have hmost := hd.most
  have hlt := (totalLength d.2.bytes).isLt
  have hlen : (totalLength (errorBytes d)).toNat = (errorBytes d).length ↔
      (totalLength d.2.bytes).toNat = d.2.bytes.length := by
    rw [hlength, errorBytes_length hd, BitVec.toNat_add]
    show ((totalLength d.2.bytes).toNat + 28) % 65536 = _ ↔ _
    omega
  rw [hfirst, hlen, errorBytes_drop hd, verifies_iff]
  exact ⟨fun h => ⟨h.headerLength, h.length, h.sum⟩, fun h => ⟨h.1, h.2.1, h.2.2⟩⟩

def ErrorsOf (ds : List (Fin 2 × Framed 8)) (out : List (Word 8)) : Prop :=
  ∃ replies, Packets out replies ∧ List.Forall₂ (fun d reply => IsError d.1 d.2.bytes reply) ds replies

theorem errorsOf_of_right (hds : ∀ d ∈ ds, Quoted d.2) (h : ∀ d ∈ ds, Right d.1 d.2)
    {out : List (Word 8)} (hout : Packets out (ds.map errorBytes)) : ErrorsOf ds out := by
  refine ⟨_, hout, ?_⟩
  rw [List.forall₂_map_right_iff, List.forall₂_same]
  intro d hd
  obtain ⟨hheader, hlength, hverifies⟩ := (right_iff (hds d hd)).mp (h d hd)
  exact ⟨hheader, hlength, ⟨_, errorBytes_drop (hds d hd)⟩, hverifies⟩

theorem right_of_errors (hds : ∀ d ∈ ds, Quoted d.2) :
    ∀ {ds' : List (Fin 2 × Framed 8)},
      List.Forall₂ (fun d reply => IsError d.1 d.2.bytes reply) ds' (ds.map errorBytes) → ∀ d ∈ ds, Right d.1 d.2 := by
  induction ds with
  | nil =>
    intro ds' _
    exact fun d hd => absurd hd List.not_mem_nil
  | cons d ds ih =>
    intro ds' h
    obtain ⟨hd, hds⟩ := List.forall_mem_cons.mp hds
    rw [List.map_cons] at h
    cases h with
    | cons herror hmore =>
      exact List.forall_mem_cons.mpr
        ⟨(right_iff hd).mpr ⟨herror.headerLength, herror.length, herror.verifies⟩, ih hds hmore⟩

theorem right_of_errorsOf {ds ds' : List (Fin 2 × Framed 8)} (hds : ∀ d ∈ ds, Quoted d.2) {out : List (Word 8)}
    (hout : Packets out (ds.map errorBytes)) (h : ErrorsOf ds' out) : ∀ d ∈ ds, Right d.1 d.2 := by
  obtain ⟨replies, hpackets, hall⟩ := h
  have heq := hpackets.unique hout
  rw [heq] at hall
  exact right_of_errors hds hall

/-! ## The three processes -/

def packetsIn (ps : Fin 2 → List (Framed 8)) : UnreachableIn := ⟨fun k => (ps k).flatMap (·.words)⟩

def noPackets : UnreachableIn := ⟨fun _ => []⟩

/-- What a call takes from this when it reads no word. -/
def Unreachable.left (s : Unreachable) : Nat :=
  match s.udpState with
  | .UDP_IDLE => 2
  | .UDP_IP | .UDP_STREAM => 1
  | .UDP_CS => 3

theorem unreachable_rests (s : Unreachable) (i : UnreachableIn) :
    ∃ os t j, Rests (udpPortUnreachable {}) {} s i os t j := by
  refine Rests.exists (fun s i => 3 * ((i.input 0).length + (i.input 1).length) + s.left) ?_ s i
  intro s i
  simp only [Unreachable.left]
  have hcalls := unreachable_calls s i
  have hread {w : Word 8} {rest : List (Word 8)} (hi : i.input s.streamSource = w :: rest) :
      (Function.update i.input s.streamSource rest 0).length + (Function.update i.input s.streamSource rest 1).length + 1 =
        (i.input 0).length + (i.input 1).length := by
    rcases Fin.exists_fin_two.mp ⟨s.streamSource, rfl⟩ with hk | hk
    · rw [hk] at hi ⊢
      rw [Function.update_self, Function.update_of_ne (by decide), hi, List.length_cons]
      omega
    · rw [hk] at hi ⊢
      rw [Function.update_self, Function.update_of_ne (by decide), hi, List.length_cons]
      omega
  generalize udpPortUnreachable {} s i = r at hcalls
  cases hcalls with
  | idle | waits => exact .inl rfl
  | begins hs k hne =>
    right
    simp only [hs]
    omega
  | header hs w rest hi =>
    right
    have hless := hread hi
    by_cases htwo : s.ipWordCounter = 2
    · simp only [if_pos htwo, hs]
      omega
    · simp only [if_neg htwo, hs]
      omega
  | stream hs w rest hi =>
    right
    have hless := hread hi
    cases hlast : w.last
    · simp only [Bool.false_eq_true, if_false, hs]
      omega
    · simp only [if_true, hs]
      omega
  | value hs =>
    right
    simp only [hs]
    omega

/-- However the packets come in, every one of them is answered with one message, in some order. -/
def Answered (ps : Fin 2 → List (Framed 8)) : Prop :=
  (∃ os t, Rests (udpPortUnreachable {}) {} {} (packetsIn ps) os t noPackets) ∧
  ∀ xs os t j, xs.foldl (· ++ ·) noPackets = packetsIn ps → Fed (udpPortUnreachable {}) {} noPackets xs os t j →
    udpPortUnreachable {} t j = (t, j, {}) →
    ∃ ds built out, Interleaves ds ps ∧
      Completes (udpAddIpHeader false) [] id (fun s : AddIpHeader => s.addIpState = .AIP_IDLE) {} {}
        ⟨os.flatMap (·.data), os.flatMap (·.header)⟩ built ∧
      Completes (insertOn 1) [] id (fun s => s.wordCount = 0) {} {} ⟨built, os.flatMap (·.value)⟩ out ∧ ErrorsOf ds out

theorem Interleaves.mem {ps : Fin 2 → List (Framed 8)} (h : Interleaves ds ps) {k : Fin 2}
    {p : Framed 8} : (k, p) ∈ ds ↔ p ∈ ps k := by
  rw [← h k, List.mem_map]
  constructor
  · intro hmem
    exact ⟨(k, p), List.mem_filter.mpr ⟨hmem, decide_eq_true rfl⟩, rfl⟩
  · rintro ⟨⟨k', p'⟩, hmem, rfl⟩
    obtain ⟨hin, hk⟩ := List.mem_filter.mp hmem
    obtain rfl : k' = k := of_decide_eq_true hk
    exact hin

section

variable {ps : Fin 2 → List (Framed 8)} (hps : ∀ k, ∀ p ∈ ps k, Quoted p)

include hps

theorem answers_of (xs : List UnreachableIn) {os : List UnreachableOut} {t : Unreachable} {j : UnreachableIn}
    (hxs : xs.foldl (· ++ ·) noPackets = packetsIn ps) (h : Fed (udpPortUnreachable {}) {} noPackets xs os t j)
    (hend : udpPortUnreachable {} t j = (t, j, {})) :
    j = noPackets ∧ ∃ ds built out, Interleaves ds ps ∧ (∀ d ∈ ds, Quoted d.2) ∧
      Completes (udpAddIpHeader false) [] id (fun s : AddIpHeader => s.addIpState = .AIP_IDLE) {} {}
        ⟨os.flatMap (·.data), os.flatMap (·.header)⟩ built ∧
      Completes (insertOn 1) [] id (fun s => s.wordCount = 0) {} {} ⟨built, os.flatMap (·.value)⟩ out ∧
      Packets out (ds.map errorBytes) := by
  have hcomes : Comes {} noPackets xs [] ps := by
    intro k
    have hk := congrArg (fun i => i.input k) hxs
    rw [foldl_input] at hk
    rw [ite_self, hk]
    rfl
  obtain ⟨-, hj, ds, hds, hdata, hheader, hvalue⟩ := fed_answers h [] rfl hcomes
    (fun k p hp => (hps k p hp).least) hend
  have hquoted : ∀ d ∈ ds, Quoted d.2 := fun d hd => hps d.1 d.2 (hds.mem.mp hd)
  obtain ⟨ao, a, wss, hadd, ha, hao, hbuilt⟩ := addIpHeader_packets ds hquoted (s := {}) rfl
  obtain ⟨io, c, hinsert, hc, hpackets⟩ := insert_packets hbuilt hquoted (s := {}) rfl
  refine ⟨hj, ds, wss.flatten, io.flatMap id, hds, hquoted, ?_, ?_, hpackets⟩
  · rw [hdata, hheader]
    exact .of_rests udpAddIpHeader_waits rfl hadd ha hao
  · rw [hvalue]
    exact .of_rests (insertOn_waits 1) rfl hinsert hc rfl

theorem answered_of : Answered ps ↔ ∀ k, ∀ p ∈ ps k, Right k p := by
  have hrests : ∃ os t, Rests (udpPortUnreachable {}) {} {} (packetsIn ps) os t noPackets := by
    obtain ⟨os, t, j, hrest⟩ := unreachable_rests {} (packetsIn ps)
    have hrun : Fed (udpPortUnreachable {}) {} noPackets [packetsIn ps] os t j := .feed _ (Runs.fed hrest.run)
    obtain ⟨rfl, -⟩ := answers_of hps [packetsIn ps] rfl hrun hrest.rest
    exact ⟨os, t, hrest⟩
  constructor
  · rintro ⟨⟨os, t, hrest⟩, hall⟩
    have hrun : Fed (udpPortUnreachable {}) {} noPackets [packetsIn ps] os t noPackets :=
      .feed _ (Runs.fed hrest.run)
    obtain ⟨-, ds, built, out, hds, hquoted, hadd, hinsert, hpackets⟩ := answers_of hps [packetsIn ps] rfl hrun
      hrest.rest
    obtain ⟨ds', built', out', -, hadd', hinsert', herrors⟩ := hall [packetsIn ps] os t noPackets rfl hrun hrest.rest
    obtain rfl := hadd.unique rfl hadd'
    obtain rfl := hinsert.unique rfl hinsert'
    intro k p hp
    exact right_of_errorsOf hquoted hpackets herrors (k, p) (hds.mem.mpr hp)
  · intro hright
    refine ⟨hrests, fun xs os t j hxs hfed hend => ?_⟩
    obtain ⟨-, ds, built, out, hds, hquoted, hadd, hinsert, hpackets⟩ := answers_of hps xs hxs hfed hend
    exact ⟨ds, built, out, hds, hadd, hinsert,
      errorsOf_of_right hquoted (fun d hd => hright d.1 d.2 (hds.mem.mp hd)) hpackets⟩

end

/-- The messages are right exactly when every quoted packet has a header of twenty bytes and its own length, and the bytes
that are not kept make up for the carries that are lost. -/
theorem errors_iff (ps : Fin 2 → List (Framed 8)) (hps : ∀ k, ∀ p ∈ ps k, Quoted p) :
    Answered ps ↔ ∀ k, ∀ p ∈ ps k, Right k p := answered_of hps

/-- A packet with `length` as its length and the payload `tail`, which begins with four bytes in the last word of the
header. -/
def quotedPacket (length : BitVec 8) (last : Framed 8) : Framed 8 :=
  .full [0x45, 0, 0, length, 0, 0, 0, 0] rfl (.full [0x40, 0x11, 0, 0, 0x0A, 0x01, 0xD4, 0xD1] rfl
    (.full [0x0A, 0x01, 0xD4, 0xD2, 0, 7, 0, 9] rfl last))

def smallPacket : Framed 8 := quotedPacket 28 (.single [0, 8, 0, 0] (by decide))

theorem errors_iff_small : Answered fun k => if k = 0 then [smallPacket] else [] := by
  have hps : ∀ k, ∀ p ∈ (fun k : Fin 2 => if k = 0 then [smallPacket] else []) k, Quoted p := by
    intro k p hp
    match k with
    | 0 =>
      rw [List.mem_singleton.mp hp]
      exact ⟨show 28 ≤ _ by decide, by decide⟩
    | 1 => exact absurd hp List.not_mem_nil
  refine (errors_iff _ hps).mpr fun k p hp => ?_
  match k with
  | 0 =>
    rw [List.mem_singleton.mp hp]
    constructor <;> decide
  | 1 => exact absurd hp List.not_mem_nil

def largePacket : Framed 8 :=
  quotedPacket 68 (.full [0, 48, 0, 0, 0xFF, 0xFF, 0xFF, 0xFF] rfl (.full (List.replicate 8 0xFF) rfl
    (.full (List.replicate 8 0xFF) rfl (.full (List.replicate 8 0xFF) rfl (.full (List.replicate 8 0xFF) rfl
      (.single [0xFF, 0xFF, 0xFF, 0xFF] (by decide)))))))

/-- The sum goes past twenty bits. -/
theorem carry_lost : ¬∀ ps : Fin 2 → List (Framed 8), (∀ k, ∀ p ∈ ps k, Quoted p) → Answered ps := by
  intro h
  have hps : ∀ k, ∀ p ∈ (fun k : Fin 2 => if k = 0 then [largePacket] else []) k, Quoted p := by
    intro k p hp
    match k with
    | 0 =>
      rw [List.mem_singleton.mp hp]
      exact ⟨show 28 ≤ _ by decide, by decide⟩
    | 1 => exact absurd hp List.not_mem_nil
  have hright := (answered_of hps).mp (h _ hps) 0 largePacket (List.mem_singleton_self _)
  exact absurd hright.sum (by decide)

end FpgaNetworkStack.Icmp
