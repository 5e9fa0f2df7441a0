import FpgaNetworkStack.Ipv4.Checksum
import FpgaNetworkStack.Toe.Checksum

/-!
# Echo requests and replies (`icmp_server.cpp`)

`check_icmp_checksum` makes the reply out of every packet and tells behind it whether the packet was a valid request;
`dropper` drops the others, and `insertChecksum` writes the checksum of the reply into the third word.
-/

namespace FpgaNetworkStack.Icmp

open Lib
open Axi (Lane Word Packet Packets Ends Framed overlay overlay_lanes)
open Ipv4 (addPart partSum halfAt)
open IpHandler (SubSums foldAdd addHalves StandsFor Total not_eq_zero_iff)
open Toe (addWord setHalfword reverse16 halfwords internetSum folds_internetSum withChecksum)

def ECHO_REQUEST : BitVec 8 := 0x08

def ECHO_REPLY : BitVec 8 := 0x00

/-! ## `check_icmp_checksum` -/

structure CheckIcmp where
  sums : SubSums := List.replicate 4 0
  wordCount : BitVec 16 := 0
  prevWord : Word 8 := .zero
  writeLastOne : Bool := false
  computeCs : Bool := false
  state : BitVec 2 := 0
  icmpChecksum : BitVec 17 := 0
  icmpType : BitVec 8 := 0
  icmpCode : BitVec 8 := 0

@[ext]
structure CheckIcmpOut where
  dataOut : List (Word 8) := []
  validFifoOut : List Bool := []
  checksumFifoOut : List (BitVec 16) := []

/-- The word before the third one, with the destination address in the place of the source address. -/
def withDestination (prevWord currWord : Word 8) : Word 8 where
  lanes := (prevWord.lanes.take 4 ++ currWord.lanes.take 4).map fun l => ⟨l.data, true⟩
  last := false
  length_eq := by
    rw [List.length_map, List.length_append, List.length_take, List.length_take, prevWord.length_eq, currWord.length_eq]
    rfl

/-- The third word, with the source address and the type of a reply. -/
def withSource (prevWord currWord : Word 8) : Word 8 :=
  overlay ((prevWord.lanes.drop 4).map (·.data) ++ [ECHO_REPLY]) currWord

/-- One of the four steps behind the last word. -/
def CheckIcmp.compute (s : CheckIcmp) : CheckIcmp × CheckIcmpOut :=
  if s.state = 0 then
    ({ s with sums := addHalves 2 s.sums ++ s.sums.drop 2, icmpChecksum := ~~~s.icmpChecksum, state := s.state + 1 }, {})
  else if s.state = 1 then
    let icmpChecksum := s.icmpChecksum - ECHO_REQUEST.setWidth 17
    ({ s with
        sums := addHalves 1 (s.sums.take 2) ++ s.sums.drop 1
        icmpChecksum := (icmpChecksum - icmpChecksum >>> 16) &&& 0xFFFF
        state := s.state + 1 }, {})
  else if s.state = 2 then
    ({ s with sums := s.sums.modify 0 (~~~·), icmpChecksum := ~~~s.icmpChecksum, state := s.state + 1 }, {})
  else
    ({ s with computeCs := false, state := s.state + 1 },
      if (s.sums.headD 0).extractLsb' 0 16 == 0 && s.icmpType == ECHO_REQUEST && s.icmpCode == 0 then
        { validFifoOut := [true], checksumFifoOut := [s.icmpChecksum.extractLsb' 0 16] }
      else { validFifoOut := [false] })

/-- The switch over `cics_wordCount`, with the word that is kept for the next call. -/
def CheckIcmp.word (s : CheckIcmp) (currWord : Word 8) : CheckIcmp × List (Word 8) :=
  if s.wordCount = 0 then ({ s with sums := List.replicate 4 0, prevWord := currWord }, [])
  else if s.wordCount = 1 then ({ s with prevWord := currWord }, [s.prevWord])
  else if s.wordCount = 2 then
    ({ s with
        sums := addPart (fun i => decide (2 ≤ i)) currWord.data s.sums
        prevWord := withSource s.prevWord currWord
        icmpChecksum := (1 : BitVec 1) ++ currWord.data.extractLsb' 48 16
        icmpType := currWord.data.extractLsb' 32 8
        icmpCode := currWord.data.extractLsb' 40 8 }, [withDestination s.prevWord currWord])
  else ({ s with sums := addWord s.sums currWord.lanes, prevWord := currWord }, [s.prevWord])

def checkIcmpChecksum (s : CheckIcmp) (dataIn : List (Word 8)) : CheckIcmp × List (Word 8) × CheckIcmpOut :=
  if s.writeLastOne then ({ s with writeLastOne := false }, dataIn, { dataOut := [s.prevWord] })
  else if s.computeCs then (s.compute.1, dataIn, s.compute.2)
  else
    match dataIn with
    | [] => (s, [], {})
    | currWord :: rest =>
      ({ (s.word currWord).1 with
          wordCount := if currWord.last then 0 else s.wordCount + 1
          writeLastOne := currWord.last
          computeCs := currWord.last },
        rest, { dataOut := (s.word currWord).2 })

/-! ## `dropper` -/

theorem keeps_first : true = true → false = false := fun _ => rfl

structure Dropper where
  isFirstWord : Bool := true
  drop : Bool := false
  fresh : isFirstWord = true → drop = false := by exact keeps_first

structure DropperIn where
  dataIn : List (Word 8) := []
  validFifoIn : List Bool := []

/-- One call of `dropper`; `unread` is `last` of a word that was declared and not read. -/
def dropper (unread : Bool) (s : Dropper) (i : DropperIn) : Dropper × DropperIn × List (Word 8) :=
  match i.dataIn with
  | [] => (s, i, [])
  | currWord :: rest =>
    if s.isFirstWord then
      match i.validFifoIn with
      | [] => (if unread then {} else s, i, [])
      | valid :: valids =>
        (if currWord.last then {} else ⟨false, s.drop || !valid, Bool.noConfusion⟩, ⟨rest, valids⟩,
          if valid then [currWord] else [])
    else
      (if currWord.last then {} else s, { i with dataIn := rest }, if s.drop then [] else [currWord])

/-! ## `insertChecksum` -/

scoped instance instNeZeroTwo : NeZero 2 := ⟨by decide⟩

structure InsertChecksum where
  wordCount : BitVec 16 := 0
  streamSource : Fin 2 := 0

structure InsertIn where
  inputStreams : Fin 2 → List (Word 8)
  checksumStreams : Fin 2 → List (BitVec 16)

def insertChecksum (s : InsertChecksum) (i : InsertIn) : InsertChecksum × InsertIn × List (Word 8) :=
  if s.wordCount = 0 then
    -- the loop over the streams ends at the first one that is not empty
    match i.inputStreams 0, i.inputStreams 1 with
    | inputWord :: rest, _ =>
      (⟨s.wordCount + 1, 0⟩, { i with inputStreams := Function.update i.inputStreams 0 rest }, [inputWord])
    | [], inputWord :: rest =>
      (⟨s.wordCount + 1, 1⟩, { i with inputStreams := Function.update i.inputStreams 1 rest }, [inputWord])
    | [], [] => (s, i, [])
  else if s.wordCount = 2 then
    match i.inputStreams s.streamSource, i.checksumStreams s.streamSource with
    | inputWord :: rest, icmpChecksum :: checksums =>
      ({ s with wordCount := s.wordCount + 1 },
        ⟨Function.update i.inputStreams s.streamSource rest, Function.update i.checksumStreams s.streamSource checksums⟩,
        [setHalfword 6 icmpChecksum inputWord])
    | _, _ => (s, i, [])
  else
    match i.inputStreams s.streamSource with
    | [] => (s, i, [])
    | inputWord :: rest =>
      ({ s with wordCount := if inputWord.last then 0 else s.wordCount + 1 },
        { i with inputStreams := Function.update i.inputStreams s.streamSource rest }, [inputWord])

/-! ## The checksum of the reply -/

/-- The checksum of a request without the type: complement, subtraction with an end-around borrow, complement. -/
def replyChecksum (checksum : BitVec 16) : BitVec 16 :=
  let inverted := ~~~((1 : BitVec 1) ++ checksum)
  let difference := inverted - ECHO_REQUEST.setWidth 17
  (~~~((difference - difference >>> 16) &&& 0xFFFF)).extractLsb' 0 16

theorem toNat_replyChecksum (checksum : BitVec 16) :
    (replyChecksum checksum).toNat =
      if checksum.toNat + 8 < 65536 then checksum.toNat + 8 else checksum.toNat + 8 - 65535 := by
  have hlt := checksum.isLt
  have hinverted : (~~~((1 : BitVec 1) ++ checksum)).toNat = 65535 - checksum.toNat := by
    have happend : ((1 : BitVec 1) ++ checksum).toNat = 65536 + checksum.toNat := by
      rw [BitVec.toNat_append, Nat.shiftLeft_eq, Nat.mul_comm, ← Nat.two_pow_add_eq_or_of_lt hlt]
      rfl
    rw [BitVec.toNat_not, happend]
    omega
  have hdifference : (~~~((1 : BitVec 1) ++ checksum) - ECHO_REQUEST.setWidth 17).toNat =
      if checksum.toNat + 8 < 65536 then 65527 - checksum.toNat else 196599 - checksum.toNat := by
    rw [BitVec.toNat_sub, hinverted]
    show (131072 - 8 + (65535 - checksum.toNat)) % 131072 = _
    split <;> omega
  have hmask : (0xFFFF : BitVec 17).toNat = 2 ^ 16 - 1 := rfl
  unfold replyChecksum
  dsimp only
  rw [BitVec.extractLsb'_toNat, BitVec.toNat_not, Nat.shiftRight_zero, BitVec.toNat_and, hmask,
    Nat.and_two_pow_sub_one_eq_mod, BitVec.toNat_sub, BitVec.toNat_ushiftRight, Nat.shiftRight_eq_div_pow, hdifference]
  split <;> omega

theorem internetSum_ones_iff (bs : List (BitVec 8)) :
    internetSum bs = 0xFFFF ↔ (halfwords bs).sum ≠ 0 ∧ (halfwords bs).sum % 65535 = 0 := by
  obtain ⟨hlt, hmod, hzero⟩ := folds_internetSum bs
  omega

theorem toNat_bytes (b b' : BitVec 8) : (b ++ b').toNat = 256 * b.toNat + b'.toNat := by
  rw [BitVec.toNat_append, Nat.shiftLeft_eq, Nat.mul_comm, ← Nat.two_pow_add_eq_or_of_lt b'.isLt]

/-- The bytes of a halfword that is kept as it stands in the packet. -/
def bytesOf (checksum : BitVec 16) : List (BitVec 8) := [checksum.extractLsb' 0 8, checksum.extractLsb' 8 8]

theorem message_sum (type code low high : BitVec 8) (tail : List (BitVec 8)) :
    (halfwords (type :: code :: low :: high :: tail)).sum =
      256 * type.toNat + code.toNat + (256 * low.toNat + high.toNat + (halfwords tail).sum) := by
  rw [halfwords, halfwords, List.sum_cons, List.sum_cons, toNat_bytes, toNat_bytes]

section

variable {low high : BitVec 8} {tail : List (BitVec 8)}

/-- In the halfwords of the message the type counts 256 times as much, and so does the eight that is added. -/
theorem reply_verifies (hvalid : internetSum (ECHO_REQUEST :: 0 :: low :: high :: tail) = 0xFFFF) :
    internetSum (ECHO_REPLY :: 0 :: (bytesOf (replyChecksum (high ++ low)) ++ tail)) = 0xFFFF := by
  have hreply := toNat_replyChecksum (high ++ low)
  have hsplit : (replyChecksum (high ++ low)).extractLsb' 8 8 ++ (replyChecksum (high ++ low)).extractLsb' 0 8 =
      replyChecksum (high ++ low) := BitVec.extractLsb'_append_extractLsb'
  rw [← hsplit, toNat_bytes, toNat_bytes] at hreply
  have hrequest : ECHO_REQUEST.toNat = 8 := rfl
  have hanswer : ECHO_REPLY.toNat = 0 := rfl
  have hcode : (0 : BitVec 8).toNat = 0 := rfl
  have hlow := low.isLt
  have hhigh := high.isLt
  rw [internetSum_ones_iff, message_sum, hrequest, hcode] at hvalid
  rw [internetSum_ones_iff, bytesOf, List.cons_append, List.cons_append, List.nil_append, message_sum, hanswer,
    hcode]
  split at hreply <;> omega

theorem reply_unchanged (hvalid : internetSum (ECHO_REQUEST :: 0 :: low :: high :: tail) = 0xFFFF) :
    internetSum (ECHO_REPLY :: 0 :: low :: high :: tail) ≠ 0xFFFF := by
  have hrequest : ECHO_REQUEST.toNat = 8 := rfl
  have hanswer : ECHO_REPLY.toNat = 0 := rfl
  have hcode : (0 : BitVec 8).toNat = 0 := rfl
  rw [internetSum_ones_iff, message_sum, hrequest, hcode] at hvalid
  rw [ne_eq, internetSum_ones_iff, message_sum, hanswer, hcode]
  omega

end

/-! ## The words of a packet -/

/-- The first words of a packet with a header of twenty bytes and at least the first four bytes of an ICMP message. -/
structure Parts (ws : List (Word 8)) (bytes : List (BitVec 8)) where
  first : Word 8
  second : Word 8
  third : Word 8
  more : List (Word 8)
  front : List (BitVec 8)
  middle : List (BitVec 8)
  source : List (BitVec 8)
  destination : List (BitVec 8)
  type : BitVec 8
  code : BitVec 8
  low : BitVec 8
  high : BitVec 8
  tail : List (BitVec 8)
  words_eq : ws = first :: second :: third :: more
  bytes_eq : bytes = front ++ ((middle ++ source) ++ ((destination ++ [type, code, low, high]) ++ tail))
  first_last : first.last = false
  second_last : second.last = false
  first_lanes : first.lanes = front.map Lane.kept
  second_lanes : second.lanes = (middle ++ source).map Lane.kept
  third_lanes : third.lanes = (destination ++ [type, code, low, high]).map Lane.kept
  rest : third.last = true ∧ more = [] ∧ tail = [] ∨ third.last = false ∧ Packet more tail
  middle_length : middle.length = 4
  source_length : source.length = 4
  destination_length : destination.length = 4

variable {q front middle source destination : List (BitVec 8)}

theorem split_eight (hq : q.length = 8) : ∃ a b, q = a ++ b ∧ a.length = 4 ∧ b.length = 4 := by
  refine ⟨q.take 4, q.drop 4, (List.take_append_drop 4 q).symm, ?_, ?_⟩
  · rw [List.length_take, hq]
    rfl
  · rw [List.length_drop, hq]

variable {ws : List (Word 8)} {bytes : List (BitVec 8)}

theorem exists_parts (h : Packet ws bytes) (hlen : 24 ≤ bytes.length) :
    Nonempty (Parts ws bytes) := by
  have hbytes {q : List (BitVec 8)} (hq : q.length = 8) :
      ∃ a t c l h, q = a ++ [t, c, l, h] ∧ a.length = 4 := by
    obtain ⟨a, b, rfl, ha, hb⟩ := split_eight hq
    obtain ⟨t, c, l, h, rfl⟩ := List.length_eq_four.mp hb
    exact ⟨a, t, c, l, h, rfl, ha⟩
  cases h with
  | last _ hw =>
    have hle := hw.length_le
    omega
  | @cons first ws front bytes hfirst hfirst' h =>
  cases h with
  | last _ hw =>
    have hle := hw.length_le
    have hfront : front.length = 8 := Axi.Word.length_full hfirst'
    rw [List.length_append] at hlen
    omega
  | @cons second ws half bytes hsecond hsecond' h =>
  have hfront : front.length = 8 := Axi.Word.length_full hfirst'
  obtain ⟨middle, source, rfl, hmiddle, hsource⟩ := split_eight (Axi.Word.length_full hsecond')
  rw [List.length_append, List.length_append, List.length_append] at hlen
  cases h with
  | @last third bytes hthird hw =>
    have hfull : bytes.length = 8 := by
      have hle := hw.length_le
      omega
    obtain ⟨destination, type, code, low, high, rfl, hdestination⟩ := hbytes hfull
    exact ⟨{
      first, second, third, more := [], front, middle, source, destination, type, code, low, high, tail := []
      words_eq := rfl
      bytes_eq := by rw [List.append_nil]
      first_last := hfirst
      second_last := hsecond
      first_lanes := hfirst'
      second_lanes := hsecond'
      third_lanes := hw.full hfull
      rest := .inl ⟨hthird, rfl, rfl⟩
      middle_length := hmiddle
      source_length := hsource
      destination_length := hdestination }⟩
  | @cons third more q tail hthird hthird' h =>
    obtain ⟨destination, type, code, low, high, rfl, hdestination⟩ := hbytes (Axi.Word.length_full hthird')
    exact ⟨{
      first, second, third, more, front, middle, source, destination, type, code, low, high, tail
      words_eq := rfl
      bytes_eq := rfl
      first_last := hfirst
      second_last := hsecond
      first_lanes := hfirst'
      second_lanes := hsecond'
      third_lanes := hthird'
      rest := .inr ⟨hthird, h⟩
      middle_length := hmiddle
      source_length := hsource
      destination_length := hdestination }⟩

/-- What is written of a packet: the addresses are exchanged and the type is that of a reply. -/
def answer (bytes : List (BitVec 8)) : List (BitVec 8) :=
  bytes.take 12 ++ ((bytes.drop 16).take 4 ++ ((bytes.drop 12).take 4 ++ ECHO_REPLY :: bytes.drop 21))

def answerWords : List (Word 8) → List (Word 8)
  | first :: second :: third :: more => first :: withDestination second third :: withSource second third :: more
  | ws => ws

theorem answer_append (hfront : front.length = 8)
    (hmiddle : middle.length = 4) (hsource : source.length = 4) (hdestination : destination.length = 4)
    (type : BitVec 8) (l : List (BitVec 8)) :
    answer (front ++ (middle ++ (source ++ (destination ++ type :: l)))) =
      front ++ (middle ++ (destination ++ (source ++ ECHO_REPLY :: l))) := by
  obtain ⟨front, front', rfl, hfront, hfront'⟩ := split_eight hfront
  obtain ⟨_, _, _, _, rfl⟩ := List.length_eq_four.mp hfront
  obtain ⟨_, _, _, _, rfl⟩ := List.length_eq_four.mp hfront'
  obtain ⟨_, _, _, _, rfl⟩ := List.length_eq_four.mp hmiddle
  obtain ⟨_, _, _, _, rfl⟩ := List.length_eq_four.mp hsource
  obtain ⟨_, _, _, _, rfl⟩ := List.length_eq_four.mp hdestination
  rfl

theorem drop_message (hfront : front.length = 8)
    (hmiddle : middle.length = 4) (hsource : source.length = 4) (hdestination : destination.length = 4)
    (l : List (BitVec 8)) : (front ++ (middle ++ (source ++ (destination ++ l)))).drop 20 = l := by
  rw [← List.append_assoc, ← List.append_assoc, ← List.append_assoc]
  apply List.drop_left'
  simp only [List.length_append, hfront, hmiddle, hsource, hdestination]

section

variable {ws : List (Word 8)} {bytes : List (BitVec 8)} (p : Parts ws bytes)

theorem Parts.front_length : p.front.length = 8 := Axi.Word.length_full p.first_lanes

theorem Parts.bytes_split : bytes = p.front ++ (p.middle ++ (p.source ++ (p.destination ++
    p.type :: p.code :: p.low :: p.high :: p.tail))) := by
  have hbytes := p.bytes_eq
  simp only [List.append_assoc, List.cons_append, List.nil_append] at hbytes
  exact hbytes

theorem Parts.message_eq : bytes.drop 20 = p.type :: p.code :: p.low :: p.high :: p.tail :=
  (congrArg (List.drop 20) p.bytes_split).trans
    (drop_message p.front_length p.middle_length p.source_length p.destination_length _)

theorem Parts.answer_eq : answer bytes = p.front ++ (p.middle ++ (p.destination ++ (p.source ++
    ECHO_REPLY :: p.code :: p.low :: p.high :: p.tail))) :=
  (congrArg answer p.bytes_split).trans
    (answer_append p.front_length p.middle_length p.source_length p.destination_length _ _)

theorem Parts.answer_message : (answer bytes).drop 20 = ECHO_REPLY :: p.code :: p.low :: p.high :: p.tail := by
  rw [p.answer_eq]
  exact drop_message p.front_length p.middle_length p.destination_length p.source_length _

theorem Parts.withDestination_lanes :
    (withDestination p.second p.third).lanes = (p.middle ++ p.destination).map Lane.kept := by
  show (p.second.lanes.take 4 ++ p.third.lanes.take 4).map _ = _
  rw [p.second_lanes, p.third_lanes, ← List.map_take, ← List.map_take, List.take_left' p.middle_length,
    List.take_left' p.destination_length, ← List.map_append, List.map_map]
  rfl

theorem Parts.withSource_lanes :
    (withSource p.second p.third).lanes = (p.source ++ [ECHO_REPLY, p.code, p.low, p.high]).map Lane.kept := by
  have hsource : (p.second.lanes.drop 4).map (·.data) = p.source := by
    rw [p.second_lanes, ← List.map_drop, List.drop_left' p.middle_length, Axi.map_data_kept]
  have hthird : p.third.lanes = (p.destination ++ [p.type]).map Lane.kept ++ [p.code, p.low, p.high].map Lane.kept := by
    rw [p.third_lanes, ← List.map_append, List.append_assoc]
    rfl
  rw [withSource, hsource, overlay_lanes hthird (by simp [p.source_length, p.destination_length]), ← List.map_append,
    List.append_assoc]
  rfl

theorem Parts.third_packet (p : Parts ws bytes) :
    Packet (withSource p.second p.third :: p.more) (p.source ++ ECHO_REPLY :: p.code :: p.low :: p.high :: p.tail) := by
  have happend : p.source ++ ECHO_REPLY :: p.code :: p.low :: p.high :: p.tail =
      (p.source ++ [ECHO_REPLY, p.code, p.low, p.high]) ++ p.tail := by
    rw [List.append_assoc]
    rfl
  rw [happend]
  rcases p.rest with ⟨hlast, hmore, htail⟩ | ⟨hlast, hpacket⟩
  · rw [hmore, htail, List.append_nil]
    exact .last hlast (Axi.Word.holds_full p.withSource_lanes)
  · exact .cons hlast p.withSource_lanes hpacket

theorem Parts.answerWords_eq :
    answerWords ws = p.first :: withDestination p.second p.third :: withSource p.second p.third :: p.more :=
  congrArg answerWords p.words_eq

theorem Parts.length_eq : ws.length = p.more.length + 3 := congrArg List.length p.words_eq

theorem Parts.length_answerWords (p : Parts ws bytes) : (answerWords ws).length = ws.length := by
  rw [p.length_eq, p.answerWords_eq]
  rfl

theorem Parts.answer_packet (p : Parts ws bytes) : Packet (answerWords ws) (answer bytes) := by
  have hsecond := Packet.cons rfl p.withDestination_lanes p.third_packet
  have hfirst := Packet.cons p.first_last p.first_lanes hsecond
  rw [List.append_assoc, ← p.answer_eq] at hfirst
  rw [p.answerWords_eq]
  exact hfirst

end

/-! ## One packet through `check_icmp_checksum` -/

/-- An echo request whose message adds up to all ones. -/
def isRequest (bytes : List (BitVec 8)) : Bool :=
  bytes.getD 20 0 == ECHO_REQUEST && bytes.getD 21 0 == 0 && decide (internetSum (bytes.drop 20) = 0xFFFF)

/-- The checksum of the message, its first byte in the low bits. -/
def checksumOf (bytes : List (BitVec 8)) : BitVec 16 := bytes.getD 23 0 ++ bytes.getD 22 0

structure CheckIcmp.Idle (s : CheckIcmp) : Prop where
  wordCount : s.wordCount = 0
  writeLastOne : s.writeLastOne = false
  computeCs : s.computeCs = false
  state : s.state = 0

/-- Word number `k` comes next, and `prev` has been read before it. -/
structure CheckIcmp.Reading (s : CheckIcmp) (k total : Nat) (prev : Word 8) : Prop where
  wordCount : s.wordCount.toNat = k
  prevWord : s.prevWord = prev
  writeLastOne : s.writeLastOne = false
  computeCs : s.computeCs = false
  state : s.state = 0
  sums : Total s.sums 4 total

/-- The last word has been read. -/
structure CheckIcmp.Complete (s : CheckIcmp) (total : Nat) : Prop where
  wordCount : s.wordCount = 0
  writeLastOne : s.writeLastOne = true
  computeCs : s.computeCs = true
  state : s.state = 0
  sums : Total s.sums 4 total

/-- The two states have read the same head of a message. -/
structure CheckIcmp.SameHead (s t : CheckIcmp) : Prop where
  icmpChecksum : t.icmpChecksum = s.icmpChecksum
  icmpType : t.icmpType = s.icmpType
  icmpCode : t.icmpCode = s.icmpCode

section

variable {s : CheckIcmp} {k total : Nat} {prev w : Word 8}

theorem check_read (hs : s.writeLastOne = false) (hs' : s.computeCs = false) (rest : List (Word 8)) :
    checkIcmpChecksum s (w :: rest) =
      ({ (s.word w).1 with
          wordCount := if w.last then 0 else s.wordCount + 1
          writeLastOne := w.last
          computeCs := w.last },
        rest, { dataOut := (s.word w).2 }) := by
  rw [checkIcmpChecksum, hs, hs']
  rfl

theorem CheckIcmp.word_more (hk : 3 ≤ s.wordCount.toNat) :
    s.word w = ({ s with sums := addWord s.sums w.lanes, prevWord := w }, [s.prevWord]) := by
  have hne (n : BitVec 16) (hn : n.toNat < 3) : s.wordCount ≠ n := by
    intro heq
    rw [heq] at hk
    omega
  rw [CheckIcmp.word, if_neg (hne 0 (by decide)), if_neg (hne 1 (by decide)), if_neg (hne 2 (by decide))]

theorem total_addWord_holds {sums : SubSums} (h : Total sums 4 total) {bs : List (BitVec 8)} (hw : w.Holds bs) :
    Total (addWord sums w.lanes) 4 (total + (halfwords bs).sum) := by
  obtain ⟨unkept, hlanes, hunkept⟩ := hw
  have hlen := w.length_eq
  rw [hlanes, List.length_append, List.length_map] at hlen
  rw [hlanes]
  exact Toe.total_addWord h hunkept hlen

variable {ws : List (Word 8)} {tail message bytes : List (BitVec 8)}

/-- The words behind the third one: each is written when the next one is read.  Induction on the packet. -/
theorem check_body (h : Packet ws tail) (rest : List (Word 8)) :
    ∀ {s : CheckIcmp} {k total : Nat} {prev : Word 8}, s.Reading k total prev → 3 ≤ k → k + ws.length ≤ 65536 →
      ∃ vs t, Runs checkIcmpChecksum s (ws ++ rest) (vs.map fun w => { dataOut := [w] }) t rest ∧
        vs ++ [t.prevWord] = prev :: ws ∧ t.Complete (total + (halfwords tail).sum) ∧ s.SameHead t := by
  induction h with
  | @last w bs hlast hw =>
    intro s k total prev hs hk hle
    have hcall := check_read (w := w) hs.writeLastOne hs.computeCs rest
    rw [CheckIcmp.word_more (by rw [hs.wordCount]; exact hk), hlast] at hcall
    refine ⟨[s.prevWord], _, .one hcall, ?_, ?_, ⟨rfl, rfl, rfl⟩⟩
    · rw [hs.prevWord]
      rfl
    · exact ⟨rfl, rfl, rfl, hs.state, total_addWord_holds hs.sums hw⟩
  | @cons w ws bs bs' hlast hw hmore ih =>
    intro s k total prev hs hk hle
    have hpos := List.length_pos_iff.mpr hmore.ne_nil
    rw [List.length_cons] at hle
    have hcall := check_read (w := w) hs.writeLastOne hs.computeCs (ws ++ rest)
    rw [CheckIcmp.word_more (by rw [hs.wordCount]; exact hk), hlast] at hcall
    have hcount : (s.wordCount + 1).toNat = k + 1 := by
      rw [BitVec.toNat_add, hs.wordCount, Nat.mod_eq_of_lt (by show k + 1 < 65536; omega)]
      rfl
    have hlen : bs.length = 8 := Axi.Word.length_full hw
    obtain ⟨vs, t, hrun, hvs, ht, hhead⟩ := ih (s := { s with
        sums := addWord s.sums w.lanes, prevWord := w, wordCount := s.wordCount + 1, writeLastOne := false
        computeCs := false })
      ⟨hcount, rfl, rfl, rfl, hs.state, total_addWord_holds hs.sums (Axi.Word.holds_full hw)⟩ (by omega) (by omega)
    refine ⟨s.prevWord :: vs, t, .call hcall hrun, ?_, ?_, ?_⟩
    · rw [List.cons_append, hvs, hs.prevWord]
    · rw [Toe.halfwords_append bs' (by omega), List.sum_append, ← Nat.add_assoc]
      exact ht
    · exact { hhead with }

theorem check_compute {checksum : BitVec 16} (hs : s.Complete (halfwords message).sum)
    (hchecksum : s.icmpChecksum = (1 : BitVec 1) ++ checksum) (rest : List (Word 8)) :
    ∃ t, Runs checkIcmpChecksum s rest
        [{ dataOut := [s.prevWord] }, {}, {}, {},
          if decide (internetSum message = 0xFFFF) && s.icmpType == ECHO_REQUEST && s.icmpCode == 0 then
            { validFifoOut := [true], checksumFifoOut := [replyChecksum checksum] }
          else { validFifoOut := [false] }] t rest ∧ t.Idle := by
  obtain ⟨xs, hxs, hlen, hsum⟩ := hs.sums
  obtain ⟨a, b, c, d, hsums⟩ := List.length_eq_four.mp (hxs.length_eq.trans hlen)
  have hfolds := (hs.sums.addHalves (n := 2)).addHalves (n := 1) |>.one
  rw [hsums] at hfolds
  change Folds 65536 (foldAdd (foldAdd a c) (foldAdd b d)).toNat (halfwords message).sum at hfolds
  have hzero : ((~~~foldAdd (foldAdd a c) (foldAdd b d)).extractLsb' 0 16 == 0) = decide (internetSum message = 0xFFFF) := by
    rw [not_eq_zero_iff hfolds.lt, hfolds.unique (folds_internetSum message)]
    exact Bool.eq_iff_iff.mpr (by rw [beq_iff_eq, decide_eq_true_iff])
  obtain ⟨sums, wordCount, prevWord, writeLastOne, computeCs, state, icmpChecksum, icmpType, icmpCode⟩ := s
  obtain ⟨rfl, rfl, rfl, rfl, -⟩ := hs
  subst hsums hchecksum
  rw [← hzero]
  refine ⟨_, .call rfl (.call rfl (.call rfl (.call rfl (.one rfl)))), ?_, ?_, ?_, ?_⟩
  · rfl
  · rfl
  · rfl
  · show (0 + 1 + 1 + 1 + 1 : BitVec 2) = 0
    rfl

theorem Parts.third_data (p : Parts ws bytes) :
    p.third.data = Axi.headerOf 8 (p.destination ++ [p.type, p.code, p.low, p.high]) := by
  have hdata : p.third.data = Axi.headerOf 8 (p.third.lanes.map (·.data)) := rfl
  rw [hdata, p.third_lanes, Axi.map_data_kept]

theorem Parts.octet (p : Parts ws bytes) {n : Nat} (hn : n < 4) :
    p.third.data.extractLsb' (8 * (4 + n)) 8 = [p.type, p.code, p.low, p.high].getD n 0 := by
  rw [p.third_data, Axi.headerOf_octet (by omega), List.getD_append_right _ _ _ _ (by rw [p.destination_length]; omega),
    p.destination_length, Nat.add_sub_cancel_left]

theorem Parts.checksum_eq (p : Parts ws bytes) : p.third.data.extractLsb' 48 16 = p.high ++ p.low := by
  have hswap := IpHandler.reverse16_extract p.third.data 6
  have hlow : p.third.data.extractLsb' (8 * 6) 8 = p.low := p.octet (n := 2) (by decide)
  have hhigh : p.third.data.extractLsb' (8 * (6 + 1)) 8 = p.high := p.octet (n := 3) (by decide)
  rw [hlow, hhigh] at hswap
  have hback := congrArg reverse16 hswap
  rw [Toe.reverse16_reverse16] at hback
  refine hback.trans ?_
  rw [reverse16, BitVec.extractLsb'_append_eq_right, BitVec.extractLsb'_append_eq_left]

-- the first two halfwords belong to the address
theorem Parts.partSum_eq (p : Parts ws bytes) :
    partSum (fun i => decide (2 ≤ i)) (p.third.lanes.map (·.data)) 4 =
      (halfwords [p.type, p.code, p.low, p.high]).sum := by
  obtain ⟨_, _, _, _, hdestination⟩ := List.length_eq_four.mp p.destination_length
  rw [p.third_lanes, Axi.map_data_kept, hdestination]
  simp [partSum, List.range_succ, halfAt, halfwords]

theorem check_third (p : Parts ws bytes) (hlen : ws.length ≤ 65536)
    (hs : s.Reading 2 0 p.second) (rest : List (Word 8)) :
    ∃ vs t, Runs checkIcmpChecksum s (p.third :: p.more ++ rest) (vs.map fun w => { dataOut := [w] }) t rest ∧
      vs ++ [t.prevWord] = withDestination p.second p.third :: withSource p.second p.third :: p.more ∧
      t.Complete (halfwords (bytes.drop 20)).sum ∧
      t.icmpChecksum = (1 : BitVec 1) ++ (p.high ++ p.low) ∧ t.icmpType = p.type ∧ t.icmpCode = p.code := by
  have htwo : s.wordCount = 2 := BitVec.eq_of_toNat_eq hs.wordCount
  have hword : s.word p.third =
      ({ s with
          sums := addPart (fun i => decide (2 ≤ i)) p.third.data s.sums
          prevWord := withSource p.second p.third
          icmpChecksum := (1 : BitVec 1) ++ (p.high ++ p.low)
          icmpType := p.type
          icmpCode := p.code }, [withDestination p.second p.third]) := by
    rw [← p.checksum_eq, CheckIcmp.word, htwo, hs.prevWord]
    have htype : p.third.data.extractLsb' 32 8 = p.type := p.octet (n := 0) (by decide)
    have hcode : p.third.data.extractLsb' 40 8 = p.code := p.octet (n := 1) (by decide)
    rw [htype, hcode]
    rfl
  have hsums := Ipv4.addPart_total (w := p.third) (by decide) hs.sums fun i => decide (2 ≤ i)
  rw [p.partSum_eq, Nat.zero_add] at hsums
  have hmessage : (halfwords (bytes.drop 20)).sum =
      (halfwords [p.type, p.code, p.low, p.high]).sum + (halfwords p.tail).sum := by
    rw [p.message_eq, ← List.sum_append, ← Toe.halfwords_append _ (by simp)]
    rfl
  have hcall := check_read (w := p.third) hs.writeLastOne hs.computeCs (p.more ++ rest)
  rw [hword] at hcall
  rcases p.rest with ⟨hlast, hmore, htail⟩ | ⟨hlast, hpacket⟩
  · rw [hlast, hmore] at hcall
    rw [hmore, hmessage, htail]
    exact ⟨[withDestination p.second p.third], _, .one hcall, rfl, ⟨rfl, rfl, rfl, hs.state, hsums⟩, rfl, rfl, rfl⟩
  · rw [hlast] at hcall
    have hthree : (s.wordCount + 1).toNat = 3 := by rw [htwo]; rfl
    have hwords := congrArg List.length p.words_eq
    rw [List.length_cons, List.length_cons, List.length_cons] at hwords
    obtain ⟨vs, t, hrun, hvs, ht, hhead⟩ := check_body hpacket rest (s := { s with
        sums := addPart (fun i => decide (2 ≤ i)) p.third.data s.sums
        prevWord := withSource p.second p.third
        wordCount := s.wordCount + 1
        writeLastOne := false
        computeCs := false
        icmpChecksum := (1 : BitVec 1) ++ (p.high ++ p.low)
        icmpType := p.type
        icmpCode := p.code })
      ⟨hthree, rfl, rfl, rfl, hs.state, hsums⟩ (Nat.le_refl 3) (by omega)
    refine ⟨withDestination p.second p.third :: vs, t, .call hcall hrun, ?_, ?_, hhead.icmpChecksum, hhead.icmpType,
      hhead.icmpCode⟩
    · rw [List.cons_append, hvs]
    · rw [hmessage]
      exact ht

theorem Parts.byte_eq (p : Parts ws bytes) (n : Nat) :
    bytes.getD (20 + n) 0 = (p.type :: p.code :: p.low :: p.high :: p.tail).getD n 0 := by
  rw [← p.message_eq, List.getD_eq_getElem?_getD, List.getD_eq_getElem?_getD, List.getElem?_drop]

theorem Parts.isRequest_eq (p : Parts ws bytes) :
    isRequest bytes = (decide (internetSum (bytes.drop 20) = 0xFFFF) && p.type == ECHO_REQUEST && p.code == 0) := by
  have htype : bytes.getD 20 0 = p.type := p.byte_eq 0
  have hcode : bytes.getD 21 0 = p.code := p.byte_eq 1
  rw [isRequest, htype, hcode, Bool.and_comm, Bool.and_assoc]

theorem Parts.checksumOf_eq (p : Parts ws bytes) : checksumOf bytes = p.high ++ p.low := by
  have hlow : bytes.getD 22 0 = p.low := p.byte_eq 2
  have hhigh : bytes.getD 23 0 = p.high := p.byte_eq 3
  rw [checksumOf, hlow, hhigh]

/-- What is written for a packet: its answer, whether it is a request, and the checksum of the reply. -/
structure PacketWrites (ws : List (Word 8)) (bytes : List (BitVec 8)) (os : List CheckIcmpOut) : Prop where
  data : os.flatMap (·.dataOut) = answerWords ws
  valid : os.flatMap (·.validFifoOut) = [isRequest bytes]
  checksum : os.flatMap (·.checksumFifoOut) = if isRequest bytes then [replyChecksum (checksumOf bytes)] else []

theorem check_packet (hs : s.Idle) (p : Parts ws bytes)
    (hlen : ws.length ≤ 65536) (rest : List (Word 8)) :
    ∃ os t, Runs checkIcmpChecksum s (ws ++ rest) os t rest ∧ t.Idle ∧ PacketWrites ws bytes os := by
  have hwords (rest : List (Word 8)) : ws ++ rest = p.first :: p.second :: (p.third :: p.more ++ rest) :=
    congrArg (· ++ rest) p.words_eq
  have hfirst : checkIcmpChecksum s (p.first :: p.second :: (p.third :: p.more ++ rest)) =
      ({ s with
          sums := List.replicate 4 0, prevWord := p.first, wordCount := 1, writeLastOne := false, computeCs := false },
        p.second :: (p.third :: p.more ++ rest), {}) := by
    rw [check_read hs.writeLastOne hs.computeCs, CheckIcmp.word, if_pos hs.wordCount, p.first_last, hs.wordCount]
    rfl
  have hsecond : checkIcmpChecksum { s with
        sums := List.replicate 4 0, prevWord := p.first, wordCount := 1, writeLastOne := false, computeCs := false }
      (p.second :: (p.third :: p.more ++ rest)) =
      ({ s with
          sums := List.replicate 4 0, prevWord := p.second, wordCount := 2, writeLastOne := false, computeCs := false },
        p.third :: p.more ++ rest, { dataOut := [p.first] }) := by
    rw [check_read rfl rfl, p.second_last]
    rfl
  obtain ⟨vs, t, hrun, hvs, ht, hchecksum, htype, hcode⟩ := check_third p hlen (s := { s with
      sums := List.replicate 4 0, prevWord := p.second, wordCount := 2, writeLastOne := false, computeCs := false })
    ⟨rfl, rfl, rfl, rfl, hs.state, Ipv4.total_zero 4⟩ rest
  obtain ⟨u, hend, hu⟩ := check_compute ht hchecksum rest
  rw [htype, hcode, ← p.isRequest_eq, ← p.checksumOf_eq] at hend
  have hall := Runs.call hfirst (Runs.call hsecond (hrun.trans hend))
  rw [← hwords] at hall
  refine ⟨_, u, hall, hu, ?_, ?_, ?_⟩
  · have hanswer : answerWords ws = p.first :: (vs ++ [t.prevWord]) := by rw [hvs, p.answerWords_eq]
    rw [hanswer]
    cases isRequest bytes <;> simp [List.flatMap_map]
  · cases isRequest bytes <;> simp [List.flatMap_map]
  · cases isRequest bytes <;> simp [List.flatMap_map]

end

theorem checkIcmpChecksum_waits : Waits checkIcmpChecksum {} := by
  intro s dataIn
  obtain ⟨sums, wordCount, prevWord, writeLastOne, computeCs, state, icmpChecksum, icmpType, icmpCode⟩ := s
  cases writeLastOne with
  | true => exact .inr fun more => rfl
  | false =>
    cases computeCs with
    | true => exact .inr fun more => rfl
    | false =>
      cases dataIn with
      | nil => exact .inl rfl
      | cons currWord rest => exact .inr fun more => rfl

/-! ## One packet through `dropper` -/

instance : Append DropperIn := ⟨fun i j => ⟨i.dataIn ++ j.dataIn, i.validFifoIn ++ j.validFifoIn⟩⟩

instance : Std.Associative (α := DropperIn) (· ++ ·) :=
  ⟨fun _ _ _ => congrArg₂ DropperIn.mk (List.append_assoc _ _ _) (List.append_assoc _ _ _)⟩

theorem dropper_waits (unread : Bool) : Waits (dropper unread) [] := by
  intro s i
  obtain ⟨dataIn, validFifoIn⟩ := i
  obtain ⟨isFirstWord, drop, fresh⟩ := s
  cases dataIn with
  | nil => exact .inl rfl
  | cons currWord rest =>
    cases isFirstWord with
    | false => exact .inr fun more => rfl
    | true =>
      cases validFifoIn with
      | nil =>
        apply Or.inl
        obtain rfl := fresh rfl
        cases unread <;> rfl
      | cons valid valids => exact .inr fun more => rfl

theorem dropper_packet (unread : Bool) {s : Dropper} (hs : s.isFirstWord = true) (h : Ends ws)
    (valid : Bool) (rest : List (Word 8)) (valids : List Bool) :
    ∃ os t, Runs (dropper unread) s ⟨ws ++ rest, valid :: valids⟩ os t ⟨rest, valids⟩ ∧ t.isFirstWord = true ∧
      os.flatten = if valid then ws else [] := by
  obtain ⟨w, ws, rfl⟩ : ∃ w ws', ws = w :: ws' := by cases h <;> exact ⟨_, _, rfl⟩
  have hfresh := s.fresh hs
  have hfirst : dropper unread s ⟨w :: (ws ++ rest), valid :: valids⟩ =
      (if w.last then {} else ⟨false, !valid, Bool.noConfusion⟩, ⟨ws ++ rest, valids⟩, if valid then [w] else []) := by
    simp [dropper, hs, hfresh]
  obtain ⟨t, hrun, ht⟩ := h.runs_first (fun ws => (⟨ws, valids⟩ : DropperIn))
    (fun s : Dropper => s.isFirstWord = false ∧ s.drop = !valid) (fun s : Dropper => s.isFirstWord = true)
    (fun w => if valid then [w] else []) (fun s w rest hs => by
      refine ⟨if w.last then {} else s, ?_, fun hlast => ?_, fun hlast => ?_⟩
      · cases valid <;> simp [dropper, hs.1, hs.2]
      · rw [hlast]
        exact hs
      · rw [hlast]
        rfl) rest hfirst (fun hlast => by rw [hlast]; exact ⟨rfl, rfl⟩) (fun hlast => by rw [hlast]; rfl)
  refine ⟨_, t, hrun, ht, ?_⟩
  cases valid <;> simp [List.flatten_cons, Axi.flatten_singletons]

/-! ## One reply through `insertChecksum` -/

/-- What is in the streams from `dropper` when nothing comes from `udpAddIpHeader`. -/
structure FirstStreams where
  dataIn : List (Word 8) := []
  checksumIn : List (BitVec 16) := []

instance : Append FirstStreams := ⟨fun i j => ⟨i.dataIn ++ j.dataIn, i.checksumIn ++ j.checksumIn⟩⟩

instance : Std.Associative (α := FirstStreams) (· ++ ·) :=
  ⟨fun _ _ _ => congrArg₂ FirstStreams.mk (List.append_assoc _ _ _) (List.append_assoc _ _ _)⟩

def FirstStreams.streams (i : FirstStreams) : InsertIn :=
  ⟨fun k => if k = 0 then i.dataIn else [], fun k => if k = 0 then i.checksumIn else []⟩

/-- One call of `insertChecksum` on these. -/
def insertFirst (s : InsertChecksum) (i : FirstStreams) : InsertChecksum × FirstStreams × List (Word 8) :=
  let r := insertChecksum s i.streams
  (r.1, ⟨r.2.1.inputStreams 0, r.2.1.checksumStreams 0⟩, r.2.2)

/-- The same for either of the two sources. -/
def FirstStreams.on (k : Fin 2) (i : FirstStreams) : InsertIn :=
  ⟨fun j => if j = k then i.dataIn else [], fun j => if j = k then i.checksumIn else []⟩

def insertOn (k : Fin 2) (s : InsertChecksum) (i : FirstStreams) : InsertChecksum × FirstStreams × List (Word 8) :=
  let r := insertChecksum s (i.on k)
  (r.1, ⟨r.2.1.inputStreams k, r.2.1.checksumStreams k⟩, r.2.2)

section

variable {k : Fin 2} {s : InsertChecksum} (w : Word 8) (rest : List (Word 8)) (checksum : BitVec 16)
  (checksums : List (BitVec 16))

theorem insert_start (hs : s.wordCount = 0) :
    insertOn k s ⟨w :: rest, checksums⟩ = (⟨1, k⟩, ⟨rest, checksums⟩, [w]) := by
  obtain ⟨wordCount, streamSource⟩ := s
  cases hs
  match k with
  | 0 => rfl
  | 1 => rfl

theorem insert_third (hs : s.wordCount = 2) (hs' : s.streamSource = k) :
    insertOn k s ⟨w :: rest, checksum :: checksums⟩ = (⟨3, k⟩, ⟨rest, checksums⟩, [setHalfword 6 checksum w]) := by
  obtain ⟨wordCount, streamSource⟩ := s
  cases hs
  cases hs'
  match streamSource with
  | 0 => rfl
  | 1 => rfl

theorem insert_other (hs : s.wordCount ≠ 0) (hs' : s.wordCount ≠ 2) (hs'' : s.streamSource = k) :
    insertOn k s ⟨w :: rest, checksums⟩ = (⟨if w.last then 0 else s.wordCount + 1, k⟩, ⟨rest, checksums⟩, [w]) := by
  obtain ⟨wordCount, streamSource⟩ := s
  cases hs''
  simp only [insertOn, insertChecksum, if_neg hs, if_neg hs']
  match streamSource with
  | 0 => rfl
  | 1 => rfl

end

variable {s : InsertChecksum}

-- the other stream stays empty, so a process that is bound to it does nothing
theorem insert_elsewhere {k : Fin 2} (hs : s.wordCount ≠ 0) (hs' : s.streamSource ≠ k)
    (i : FirstStreams) : insertOn k s i = (s, i, []) := by
  obtain ⟨wordCount, streamSource⟩ := s
  match k, streamSource, hs' with
  | 0, 0, hne => exact absurd rfl hne
  | 1, 1, hne => exact absurd rfl hne
  | 0, 1, _ =>
    by_cases htwo : wordCount = 2
    · cases htwo
      rfl
    · simp only [insertOn, insertChecksum, if_neg hs, if_neg htwo]
      rfl
  | 1, 0, _ =>
    by_cases htwo : wordCount = 2
    · cases htwo
      rfl
    · simp only [insertOn, insertChecksum, if_neg hs, if_neg htwo]
      rfl

theorem insert_empty (k : Fin 2) (s : InsertChecksum) (checksums : List (BitVec 16)) :
    insertOn k s ⟨[], checksums⟩ = (s, ⟨[], checksums⟩, []) := by
  by_cases hzero : s.wordCount = 0
  · obtain ⟨wordCount, streamSource⟩ := s
    cases hzero
    match k with
    | 0 => rfl
    | 1 => rfl
  · by_cases hsource : s.streamSource = k
    · obtain ⟨wordCount, streamSource⟩ := s
      cases hsource
      by_cases htwo : wordCount = 2
      · cases htwo
        match streamSource with
        | 0 => rfl
        | 1 => rfl
      · simp only [insertOn, insertChecksum, if_neg hzero, if_neg htwo]
        match streamSource with
        | 0 => rfl
        | 1 => rfl
    · exact insert_elsewhere hzero hsource _

theorem insertOn_waits (k : Fin 2) : Waits (insertOn k) [] := by
  intro s i
  obtain ⟨dataIn, checksumIn⟩ := i
  cases dataIn with
  | nil => exact .inl (insert_empty k s checksumIn)
  | cons w rest =>
    by_cases hzero : s.wordCount = 0
    · apply Or.inr
      intro more
      rw [insert_start w rest checksumIn hzero]
      exact insert_start w (rest ++ more.dataIn) (checksumIn ++ more.checksumIn) hzero
    · by_cases hsource : s.streamSource = k
      · by_cases htwo : s.wordCount = 2
        · cases checksumIn with
          | nil =>
            apply Or.inl
            obtain ⟨wordCount, streamSource⟩ := s
            cases htwo
            cases hsource
            match streamSource with
            | 0 => rfl
            | 1 => rfl
          | cons checksum checksums =>
            apply Or.inr
            intro more
            rw [insert_third w rest checksum checksums htwo hsource]
            exact insert_third w (rest ++ more.dataIn) checksum (checksums ++ more.checksumIn) htwo hsource
        · apply Or.inr
          intro more
          rw [insert_other w rest checksumIn hzero htwo hsource]
          exact insert_other w (rest ++ more.dataIn) (checksumIn ++ more.checksumIn) hzero htwo hsource
      · exact .inl (insert_elsewhere hzero hsource _)

/-- From the fourth word on the words are passed on up to the last one.  Induction on them. -/
theorem insert_body {k : Fin 2} (h : Ends ws) (rest : List (Word 8)) (checksums : List (BitVec 16)) :
    ∀ {s : InsertChecksum}, 3 ≤ s.wordCount.toNat → s.streamSource = k → s.wordCount.toNat + ws.length ≤ 65536 →
      ∃ t, Runs (insertOn k) s ⟨ws ++ rest, checksums⟩ (ws.map fun w => [w]) t ⟨rest, checksums⟩ ∧ t.wordCount = 0 := by
  have hne {s : InsertChecksum} (hs : 3 ≤ s.wordCount.toNat) (n : BitVec 16) (hn : n.toNat < 3) : s.wordCount ≠ n := by
    intro heq
    rw [heq] at hs
    omega
  induction h with
  | @last w hlast =>
    intro s hs hsource _
    have hcall := insert_other w rest checksums (hne hs 0 (by decide)) (hne hs 2 (by decide)) hsource
    rw [hlast] at hcall
    exact ⟨_, .one hcall, rfl⟩
  | @cons w ws hlast hends ih =>
    intro s hs hsource hle
    have hpos : 0 < ws.length := by cases hends <;> exact Nat.succ_pos _
    rw [List.length_cons] at hle
    have hcall := insert_other w (ws ++ rest) checksums (hne hs 0 (by decide)) (hne hs 2 (by decide)) hsource
    rw [hlast] at hcall
    have hcount : (s.wordCount + 1).toNat = s.wordCount.toNat + 1 := by
      rw [BitVec.toNat_add, Nat.mod_eq_of_lt (by show s.wordCount.toNat + 1 < 65536; omega)]
      rfl
    obtain ⟨t, hrun, ht⟩ := ih (s := ⟨s.wordCount + 1, k⟩) (by rw [hcount]; omega) rfl (by rw [hcount]; omega)
    exact ⟨t, .call hcall hrun, ht⟩

def replyWords (checksum : BitVec 16) : List (Word 8) → List (Word 8)
  | first :: second :: third :: more => first :: second :: setHalfword 6 checksum third :: more
  | ws => ws

theorem insert_words {k : Fin 2} {more : List (Word 8)} (h : Ends more) (hlen : more.length ≤ 65533)
    (hs : s.wordCount = 0) (first second third : Word 8) (hmore : second.last = false) (rest : List (Word 8))
    (checksum : BitVec 16) (checksums : List (BitVec 16)) :
    ∃ os t, Runs (insertOn k) s ⟨first :: second :: third :: more ++ rest, checksum :: checksums⟩ os t ⟨rest, checksums⟩ ∧
      os.flatten = replyWords checksum (first :: second :: third :: more) ∧ t.wordCount = 0 := by
  have hfirst := insert_start (k := k) first (second :: third :: more ++ rest) (checksum :: checksums) hs
  have hzero : (1 : BitVec 16) ≠ 0 := by decide
  have htwo : (1 : BitVec 16) ≠ 2 := by decide
  have hsecond := insert_other (k := k) (s := ⟨1, k⟩) second (third :: more ++ rest) (checksum :: checksums) hzero htwo rfl
  rw [hmore] at hsecond
  have hthird := insert_third (k := k) (s := ⟨2, k⟩) third (more ++ rest) checksum checksums rfl rfl
  obtain ⟨t, hrun, ht⟩ := insert_body (k := k) h rest checksums (s := ⟨3, k⟩) (by show 3 ≤ 3; decide) rfl
    (by show 3 + more.length ≤ 65536; omega)
  refine ⟨_, t, .call hfirst (.call hsecond (.call hthird hrun)), ?_, ht⟩
  rw [List.flatten_cons, List.flatten_cons, List.flatten_cons, Axi.flatten_singletons]
  rfl

/-- Behind a message of four bytes the process has not seen the end. -/
theorem insert_packet (p : Parts ws bytes) (hlen : ws.length ≤ 65536)
    (hs : s.wordCount = 0) (rest : List (Word 8)) (checksum : BitVec 16)
    (checksums : List (BitVec 16)) :
    ∃ os t, Runs insertFirst s ⟨answerWords ws ++ rest, checksum :: checksums⟩ os t ⟨rest, checksums⟩ ∧
      os.flatten = replyWords checksum (answerWords ws) ∧
      (3 < ws.length → t.wordCount = 0) ∧ (ws.length ≤ 3 → t = ⟨3, 0⟩) := by
  have hlength := p.length_eq
  rw [p.answerWords_eq]
  rcases p.rest with ⟨hlast, hmore, htail⟩ | ⟨hlast, hpacket⟩
  · rw [hmore, List.length_nil] at hlength
    have hfirst := insert_start (k := 0) p.first (withDestination p.second p.third :: withSource p.second p.third :: rest)
      (checksum :: checksums) hs
    have hsecond := insert_other (k := 0) (s := ⟨1, 0⟩) (withDestination p.second p.third)
      (withSource p.second p.third :: rest) (checksum :: checksums) (by decide) (by decide) rfl
    have hthird := insert_third (k := 0) (s := ⟨2, 0⟩) (withSource p.second p.third) rest checksum checksums rfl rfl
    rw [hmore]
    refine ⟨_, _, .call hfirst (.call hsecond (.one hthird)), rfl, fun hlong => ?_, fun _ => rfl⟩
    omega
  · have hpos := List.length_pos_iff.mpr hpacket.ne_nil
    obtain ⟨os, t, hrun, hos, ht⟩ := insert_words (k := 0) hpacket.ends (by omega) hs p.first
      (withDestination p.second p.third) (withSource p.second p.third) rfl rest checksum checksums
    exact ⟨os, t, hrun, hos, fun _ => ht, fun hshort => by omega⟩

/-! ## Every packet -/

/-- The request with its addresses exchanged, the type of a reply and a checksum for which the message verifies. -/
def IsReply (request reply : List (BitVec 8)) : Prop :=
  ∃ checksum : BitVec 16, reply = withChecksum 22 checksum (answer request) ∧ internetSum (reply.drop 20) = 0xFFFF

section

variable {ws : List (Word 8)} {bytes : List (BitVec 8)} (p : Parts ws bytes)

theorem Parts.length_answer (p : Parts ws bytes) : 24 ≤ (answer bytes).length := by
  rw [p.answer_eq]
  simp only [List.length_append, List.length_cons, p.front_length, p.middle_length, p.source_length, p.destination_length]
  omega

theorem Parts.reply_message (checksum : BitVec 16) :
    (withChecksum 22 (reverse16 checksum) (answer bytes)).drop 20 =
      ECHO_REPLY :: p.code :: (bytesOf checksum ++ p.tail) := by
  have hlen := p.length_answer
  have htake : ((answer bytes).take 20).length = 20 := by
    rw [List.length_take]
    omega
  have hlong : 2 + 1 < (ECHO_REPLY :: p.code :: p.low :: p.high :: p.tail).length := by
    simp only [List.length_cons]
    omega
  have hsplit := Toe.withChecksum_append_left ((answer bytes).take 20) hlong (reverse16 checksum)
  rw [htake, ← p.answer_message, List.take_append_drop, p.answer_message] at hsplit
  rw [hsplit, List.drop_left' htake]
  show ECHO_REPLY :: p.code :: (reverse16 checksum).extractLsb' 8 8 :: (reverse16 checksum).extractLsb' 0 8 :: p.tail = _
  rw [reverse16, BitVec.extractLsb'_append_eq_right, BitVec.extractLsb'_append_eq_left]
  rfl

theorem Parts.reply_packet (p : Parts ws bytes) (checksum : BitVec 16) :
    Packet (replyWords checksum (answerWords ws)) (withChecksum 22 (reverse16 checksum) (answer bytes)) := by
  have hlong : 6 + 1 < (p.source ++ ECHO_REPLY :: p.code :: p.low :: p.high :: p.tail).length := by
    simp only [List.length_append, List.length_cons, p.source_length]
    omega
  have hthird := Toe.setHalfword_packet (reverse16 checksum) hlong (by decide) p.third_packet
  rw [Toe.reverse16_reverse16] at hthird
  have hsecond := Packet.cons rfl p.withDestination_lanes hthird
  have hfirst := Packet.cons p.first_last p.first_lanes hsecond
  have hfront : (p.front ++ (p.middle ++ p.destination)).length = 16 := by
    rw [List.length_append, List.length_append, p.front_length, p.middle_length, p.destination_length]
  have hsplit := Toe.withChecksum_append_left (p.front ++ (p.middle ++ p.destination)) hlong (reverse16 checksum)
  rw [hfront, List.append_assoc, List.append_assoc, ← p.answer_eq, List.append_assoc, List.append_assoc] at hsplit
  rw [hsplit, p.answerWords_eq]
  rw [List.append_assoc] at hfirst
  exact hfirst

theorem Parts.valid (p : Parts ws bytes) (hrequest : isRequest bytes = true) :
    p.code = 0 ∧ internetSum (ECHO_REQUEST :: 0 :: p.low :: p.high :: p.tail) = 0xFFFF := by
  rw [p.isRequest_eq, Bool.and_eq_true, Bool.and_eq_true, decide_eq_true_iff, beq_iff_eq, beq_iff_eq, p.message_eq] at hrequest
  obtain ⟨⟨hsum, htype⟩, hcode⟩ := hrequest
  rw [htype, hcode] at hsum
  exact ⟨hcode, hsum⟩

/-- What `insertChecksum` writes for a request that it reads from its start. -/
theorem Parts.isReply (p : Parts ws bytes) (hrequest : isRequest bytes = true) :
    IsReply bytes (withChecksum 22 (reverse16 (replyChecksum (checksumOf bytes))) (answer bytes)) := by
  obtain ⟨hcode, hsum⟩ := p.valid hrequest
  refine ⟨_, rfl, ?_⟩
  rw [p.reply_message, p.checksumOf_eq, hcode]
  exact reply_verifies hsum

theorem Parts.not_isReply (p : Parts ws bytes) (hrequest : isRequest bytes = true) : ¬IsReply bytes (answer bytes) := by
  obtain ⟨hcode, hsum⟩ := p.valid hrequest
  rintro ⟨checksum, -, hreply⟩
  rw [p.answer_message, hcode] at hreply
  exact reply_unchanged hsum hreply

end

def RepliesOf (rs : List (Framed 8)) (out : List (Word 8)) : Prop :=
  ∃ replies, Packets out replies ∧ List.Forall₂ (fun r : Framed 8 => IsReply r.bytes) rs replies

variable {rs : List (Framed 8)}

theorem repliesOf_cons_iff {r : Framed 8} {ws rest : List (Word 8)}
    (h : Packet ws bytes) : RepliesOf (r :: rs) (ws ++ rest) ↔ IsReply r.bytes bytes ∧ RepliesOf rs rest := by
  constructor
  · rintro ⟨replies, hpackets, hreplies⟩
    cases hreplies with
    | cons hr hrs =>
      obtain ⟨hfirst, hmore⟩ := (Axi.packets_cons_iff h.ends).mp hpackets
      rw [h.bytes_iff.mp hfirst] at hr
      exact ⟨hr, _, hmore, hrs⟩
  · rintro ⟨hr, replies, hpackets, hrs⟩
    exact ⟨bytes :: replies, .cons h hpackets, .cons hr hrs⟩

/-- A packet whose ICMP message has at least four bytes. -/
structure HasMessage (p : Framed 8) : Prop where
  least : 24 ≤ p.bytes.length
  most : p.bytes.length < 65536

theorem HasMessage.words_le {p : Framed 8} (h : HasMessage p) : p.words.length ≤ 65533 := by
  have hbytes := p.packet.length_bytes.2
  have hmost := h.most
  omega

/-- What `insertChecksum` reads for some requests. -/
def repliesInput (rs : List (Framed 8)) : FirstStreams :=
  ⟨rs.flatMap fun r => answerWords r.words, rs.map fun r => replyChecksum (checksumOf r.bytes)⟩

/-- A packet with a valid request. -/
structure Requests (p : Framed 8) : Prop extends HasMessage p where
  request : isRequest p.bytes = true

theorem Requests.parts {p : Framed 8} (h : Requests p) : Nonempty (Parts p.words p.bytes) := exists_parts p.packet h.least

/-- When only the last message may have four bytes, every reply is written.  Induction on the requests. -/
theorem insert_replies (hrs : ∀ r ∈ rs, Requests r) (hlong : ∀ r ∈ rs.dropLast, 3 < r.words.length) :
    ∀ {s : InsertChecksum}, s.wordCount = 0 →
      ∃ os t, Rests insertFirst [] s (repliesInput rs) os t {} ∧ RepliesOf rs (os.flatMap id) := by
  induction rs with
  | nil =>
    intro s _
    exact ⟨[], s, ⟨.refl s _, insert_empty 0 s []⟩, [], .nil, .nil⟩
  | cons r rs ih =>
    intro s hs
    obtain ⟨hr, hrs⟩ := List.forall_mem_cons.mp hrs
    obtain ⟨p⟩ := hr.parts
    have hwords := hr.words_le
    obtain ⟨os, t, hrun, hos, hmore, -⟩ := insert_packet p (by omega) hs (repliesInput rs).dataIn
      (replyChecksum (checksumOf r.bytes)) (repliesInput rs).checksumIn
    have hreply := p.reply_packet (replyChecksum (checksumOf r.bytes))
    rw [← hos] at hreply
    have hrest : ∃ os' u, Rests insertFirst [] t (repliesInput rs) os' u {} ∧ RepliesOf rs (os'.flatMap id) := by
      cases rs with
      | nil => exact ⟨[], t, ⟨.refl t _, insert_empty 0 t []⟩, [], .nil, .nil⟩
      | cons r' rs =>
        rw [List.dropLast_cons_cons] at hlong
        obtain ⟨hfirst, hlong⟩ := List.forall_mem_cons.mp hlong
        exact ih hrs hlong (hmore hfirst)
    obtain ⟨os', u, hrests, hreplies⟩ := hrest
    refine ⟨os ++ os', u, hrests.before hrun, ?_⟩
    rw [List.flatMap_append, List.flatMap_id, repliesOf_cons_iff hreply]
    exact ⟨p.isReply hr.request, hreplies⟩

/-- Behind a message of four bytes the next answer goes out with the checksum of its request.  Induction on the requests. -/
theorem long_of_replies (hrs : ∀ r ∈ rs, Requests r) :
    ∀ {s t : InsertChecksum} {os : List (List (Word 8))} {j : FirstStreams}, s.wordCount = 0 →
      Rests insertFirst [] s (repliesInput rs) os t j → RepliesOf rs (os.flatMap id) →
      ∀ r ∈ rs.dropLast, 3 < r.words.length := by
  induction rs with
  | nil =>
    intro s t os j _ _ _
    exact fun r hr => absurd hr List.not_mem_nil
  | cons r rs ih =>
    intro s t os j hs hrests hreplies
    obtain ⟨hr, hrs⟩ := List.forall_mem_cons.mp hrs
    obtain ⟨p⟩ := hr.parts
    have hwords := hr.words_le
    obtain ⟨os', u, hrun, hos, hmore, hend⟩ := insert_packet p (by omega) hs (repliesInput rs).dataIn
      (replyChecksum (checksumOf r.bytes)) (repliesInput rs).checksumIn
    have hreply := p.reply_packet (replyChecksum (checksumOf r.bytes))
    obtain ⟨os'', hrests', hsplit⟩ := Rests.after (g := id) hrests rfl hrun
    rw [hsplit, List.flatMap_id, hos, repliesOf_cons_iff hreply] at hreplies
    cases rs with
    | nil => exact fun r hr => absurd hr List.not_mem_nil
    | cons r' rs =>
      rw [List.dropLast_cons_cons]
      by_cases hlong : 3 < r.words.length
      · exact List.forall_mem_cons.mpr ⟨hlong, ih hrs (hmore hlong) hrests' hreplies.2⟩
      · obtain ⟨hr', -⟩ := List.forall_mem_cons.mp hrs
        obtain ⟨p'⟩ := hr'.parts
        have hcount := hend (Nat.le_of_not_lt hlong)
        have hwords' := hr'.words_le
        obtain ⟨v, hrun', -⟩ := insert_body p'.answer_packet.ends (repliesInput rs).dataIn
          (repliesInput (r' :: rs)).checksumIn (s := u) (by rw [hcount]; decide) (by rw [hcount])
          (by rw [hcount, p'.length_answerWords]; show 3 + _ ≤ _; omega)
        obtain ⟨os₂, -, hsplit'⟩ := Rests.after (g := id) hrests' rfl hrun'
        obtain ⟨-, hreplies⟩ := hreplies
        rw [hsplit', List.flatMap_id, Axi.flatten_singletons, repliesOf_cons_iff p'.answer_packet] at hreplies
        exact absurd hreplies.1 (p'.not_isReply hr'.request)

theorem insert_iff (hrs : ∀ r ∈ rs, Requests r) :
    (∃ out, Completes insertFirst [] id (fun _ => True) {} {} (repliesInput rs) out ∧ RepliesOf rs out) ↔
      ∀ r ∈ rs.dropLast, 3 < r.words.length := by
  constructor
  · rintro ⟨out, hcompletes, hreplies⟩
    obtain ⟨os, t, hrests, -, rfl⟩ := hcompletes.rests
    exact long_of_replies hrs rfl hrests hreplies
  · intro hlong
    obtain ⟨os, t, hrests, hreplies⟩ := insert_replies hrs hlong (s := {}) rfl
    exact ⟨_, .of_rests (insertOn_waits 0) rfl hrests trivial rfl, hreplies⟩

/-! ## The three processes -/

def requests (ps : List (Framed 8)) : List (Framed 8) := ps.filter fun p => isRequest p.bytes

/-- Every valid request is replied to with one packet, and nothing else is sent. -/
def Replies (unread : Bool) (ps : List (Framed 8)) : Prop :=
  ∃ data valids checksums kept out,
    Completes checkIcmpChecksum {} (·.dataOut) CheckIcmp.Idle {} [] (ps.flatMap (·.words)) data ∧
    Completes checkIcmpChecksum {} (·.validFifoOut) CheckIcmp.Idle {} [] (ps.flatMap (·.words)) valids ∧
    Completes checkIcmpChecksum {} (·.checksumFifoOut) CheckIcmp.Idle {} [] (ps.flatMap (·.words)) checksums ∧
    Completes (dropper unread) [] id (fun s => s.isFirstWord = true) {} {} ⟨data, valids⟩ kept ∧
    Completes insertFirst [] id (fun _ => True) {} {} ⟨kept, checksums⟩ out ∧ RepliesOf (requests ps) out

section

variable {ps : List (Framed 8)}

theorem check_completes {β : Type} {g : CheckIcmpOut → List β} (hg : g {} = []) (h : Framed 8 → List β)
    (hone : ∀ (p : Framed 8) os, PacketWrites p.words p.bytes os → os.flatMap g = h p) (hps : ∀ p ∈ ps, HasMessage p) :
    Completes checkIcmpChecksum {} g CheckIcmp.Idle {} [] (ps.flatMap (·.words)) (ps.flatMap h) := by
  refine completes_each (Q := HasMessage) h (fun ps : List (Framed 8) => ps.flatMap (·.words)) checkIcmpChecksum_waits hg
    rfl ?_ ?_ ps ?_ hps
  · intro s hs
    rw [checkIcmpChecksum.eq_def, hs.writeLastOne, hs.computeCs]
    rfl
  · intro s p ps hs hp
    obtain ⟨parts⟩ := exists_parts p.packet hp.least
    have hwords := hp.words_le
    obtain ⟨os, t, hrun, ht, hwrites⟩ := check_packet hs parts (by omega) (ps.flatMap (·.words))
    exact ⟨os, t, hrun, ht, hone p os hwrites⟩
  · exact ⟨rfl, rfl, rfl, rfl⟩

theorem dropper_completes (unread : Bool) (hps : ∀ p ∈ ps, HasMessage p) :
    Completes (dropper unread) [] id (fun s => s.isFirstWord = true) {} {}
      ⟨ps.flatMap fun p => answerWords p.words, ps.map fun p => isRequest p.bytes⟩
      (ps.flatMap fun p => if isRequest p.bytes then answerWords p.words else []) := by
  refine completes_each (Q := HasMessage) (g := id) _
    (fun ps : List (Framed 8) => (⟨ps.flatMap fun p => answerWords p.words, ps.map fun p => isRequest p.bytes⟩ : DropperIn))
    (dropper_waits unread) rfl rfl ?_ ?_ ps ?_ hps
  · intro s _
    rfl
  · intro s p ps hs hp
    obtain ⟨parts⟩ := exists_parts p.packet hp.least
    obtain ⟨os, t, hrun, ht, hos⟩ := dropper_packet unread hs parts.answer_packet.ends (isRequest p.bytes)
      (ps.flatMap fun p => answerWords p.words) (ps.map fun p => isRequest p.bytes)
    exact ⟨os, t, hrun, ht, List.flatMap_id.trans hos⟩
  · rfl

theorem flatMap_requests {β : Type} (f : Framed 8 → List β) :
    (ps.flatMap fun p => if isRequest p.bytes then f p else []) = (requests ps).flatMap f := by
  induction ps with
  | nil => rfl
  | cons p ps ih =>
    unfold requests at ih ⊢
    rw [List.flatMap_cons, ih, List.filter_cons]
    split
    · rw [List.flatMap_cons]
    · rfl

theorem mem_requests (hps : ∀ p ∈ ps, HasMessage p) : ∀ r ∈ requests ps, Requests r := by
  intro r hr
  obtain ⟨hmem, hrequest⟩ := List.mem_filter.mp hr
  exact ⟨hps r hmem, hrequest⟩

/-- Of the three processes only `insertChecksum` can go wrong. -/
theorem replies_iff_insert (unread : Bool) (hps : ∀ p ∈ ps, HasMessage p) :
    Replies unread ps ↔ ∃ out,
      Completes insertFirst [] id (fun _ => True) {} {} (repliesInput (requests ps)) out ∧ RepliesOf (requests ps) out := by
  have hdata := check_completes (g := (·.dataOut)) rfl (fun p => answerWords p.words) (fun p os h => h.data) hps
  have hvalids := check_completes (g := (·.validFifoOut)) rfl (fun p => [isRequest p.bytes]) (fun p os h => h.valid) hps
  have hchecksums := check_completes (g := (·.checksumFifoOut)) rfl
    (fun p => if isRequest p.bytes then [replyChecksum (checksumOf p.bytes)] else []) (fun p os h => h.checksum) hps
  have hkept := dropper_completes unread hps
  rw [← List.map_eq_flatMap] at hvalids
  rw [flatMap_requests, ← List.map_eq_flatMap] at hchecksums
  rw [flatMap_requests] at hkept
  constructor
  · rintro ⟨data, valids, checksums, kept, out, hdata', hvalids', hchecksums', hkept', hout⟩
    rw [hdata.unique rfl hdata', hvalids.unique rfl hvalids'] at hkept'
    rw [hkept.unique rfl hkept', hchecksums.unique rfl hchecksums'] at hout
    exact ⟨out, hout⟩
  · rintro ⟨out, hout⟩
    exact ⟨_, _, _, _, out, hdata, hvalids, hchecksums, hkept, hout⟩

end

/-- The replies are right exactly when no valid request whose message has four bytes comes before another valid one. -/
theorem echo_replies_iff (unread : Bool) (ps : List (Framed 8)) (hps : ∀ p ∈ ps, HasMessage p) :
    Replies unread ps ↔ ∀ r ∈ (requests ps).dropLast, 3 < r.words.length :=
  (replies_iff_insert unread hps).trans (insert_iff (mem_requests hps))

def header : List (BitVec 8) :=
  [0x45, 0, 0, 24, 0, 0, 0, 0, 0x40, 0x01, 0, 0, 0x0A, 0x01, 0xD4, 0xD1, 0x0A, 0x01, 0xD4, 0xD2]

/-- A request with a message of four bytes, and one of five. -/
def shortRequest : Framed 8 :=
  .full (header.take 8) rfl (.full ((header.drop 8).take 8) rfl
    (.single (header.drop 16 ++ [ECHO_REQUEST, 0, 0xF7, 0xFF]) (by decide)))

theorem one_byte_fits : [(0x01 : BitVec 8)].length ≤ 8 := by decide

def longRequest : Framed 8 :=
  .full (header.take 8) rfl (.full ((header.drop 8).take 8) rfl
    (.full (header.drop 16 ++ [ECHO_REQUEST, 0, 0xF6, 0xFF]) rfl (.single [0x01] one_byte_fits)))

theorem echo_replies_iff_long : Replies true [longRequest, shortRequest] := by
  have hmessage : ∀ p ∈ [longRequest, shortRequest], HasMessage p := by
    intro p hp
    rcases List.mem_pair.mp hp with rfl | rfl
    · constructor <;> decide
    · constructor <;> decide
  exact (echo_replies_iff true _ hmessage).mpr (by decide)

/-- The second one of two short requests is answered with the checksum of the request. -/
theorem request_unanswered : ¬ ∀ (unread : Bool) (ps : List (Framed 8)), (∀ p ∈ ps, HasMessage p) → Replies unread ps := by
  intro h
  have hmessage : ∀ p ∈ [shortRequest, shortRequest], HasMessage p := by
    intro p hp
    rcases List.mem_pair.mp hp with rfl | rfl <;> constructor <;> decide
  have hlong := (insert_iff (mem_requests hmessage)).mp ((replies_iff_insert true hmessage).mp (h true _ hmessage))
  exact absurd hlong (by decide)

end FpgaNetworkStack.Icmp
