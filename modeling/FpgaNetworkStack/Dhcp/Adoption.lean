import FpgaNetworkStack.Dhcp.Client
import FpgaNetworkStack.Lib.Reach

/-!
# Adoption of an address

The network remembers every message, which message a record was written at the end of, and how many messages
had come when the identifier in use was chosen.  The parser clears neither the cookie flag nor the fields
between messages, and counts words modulo 64.
-/

namespace FpgaNetworkStack.Dhcp

open Lib

/-! ## Messages -/

/-- The message has all words the parser looks at and no more than it can count, and the first option is the
message type. -/
def complete (ws : List Word) : Bool :=
  decide (31 ≤ ws.length) && decide (ws.length ≤ 64) && ws[30]?.any (·.isOption53) &&
    (ws.length != 31 || ws[30]?.any fun w => w.keep &&& 7 == 7)

/-- The record is made of the fields of this message, which is a complete reply for the local client. -/
structure Genuine (mac : BitVec 48) (ws : List Word) (m : DhcpReplyMeta) : Prop where
  complete : complete ws = true
  reply : ws[0]?.any (·.isReply) = true
  mac1 : ws[3]?.any (·.mac1 mac) = true
  mac2 : ws[4]?.any (·.mac2 mac) = true
  cookie : ws[29]?.any (·.isCookie) = true
  identifier : ws[0]?.map (·.high) = some m.identifier
  assigned : ws[2]?.map (·.low) = some m.assignedIpAddress
  server : ws[2]?.map (·.high) = some m.serverAddress
  type : ws[30]?.map (·.option53) = some m.type

/-- Nothing in these words tells that they are not a reply for the local client; `isDHCP` is the cookie flag
as the words before left it. -/
def suspect (mac : BitVec 48) (isDHCP : Bool) (ws : List Word) : Bool :=
  ws[0]?.any (·.isReply) && ws[3]?.all (·.mac1 mac) && ws[4]?.all (·.mac2 mac) &&
    (ws[29]?.map (·.isCookie)).getD isDHCP

/-! ## The network -/

/-- The state machine has entered `BOUND`. -/
structure Adoption where
  address : BitVec 32
  identity : BitVec 32
  /-- How many messages had arrived when the identifier was chosen. -/
  chosen : Nat
  deriving DecidableEq

structure DhcpNet where
  rx : ReceiveMessage := {}
  dataIn : List Word := []
  fsm : DhcpFsm := {}
  portOpen : List (BitVec 1) := []
  /-- `dhcp_replyMetaFifo`; each record with the number of its message. -/
  replies : List (DhcpReplyMeta × Nat) := []
  /-- The words read of the current message, and those read since the counter was zero. -/
  words : List Word := []
  round : List Word := []
  messages : List (List Word) := []
  /-- Every record that was written. -/
  records : List (DhcpReplyMeta × Nat) := []
  chosen : Nat := 0
  adoptions : List Adoption := []

inductive DhcpLabel where
  | word (w : Word)
  | portOpen
  | receiveMessage
  | dhcpFsm (dhcpEnable : Bool) (inputIpAddress : BitVec 32)

namespace DhcpNet

/-- The words since the counter was zero, with the next one. -/
def nextRound (t : DhcpNet) (w : Word) : List Word := if t.rx.rmWordCount = 0 then [w] else t.round ++ [w]

def callReceive (mac : BitVec 48) (t : DhcpNet) : DhcpNet :=
  let (rx, dataIn, out) := Dhcp.receiveMessage mac t.rx t.dataIn
  match t.dataIn with
  | [] => { t with rx, dataIn }
  | w :: _ =>
    let written := out.map (·, t.messages.length)
    { t with
      rx, dataIn
      words := if w.last then [] else t.words ++ [w]
      round := if w.last then [] else t.nextRound w
      messages := if w.last then t.messages ++ [t.words ++ [w]] else t.messages
      replies := t.replies ++ written
      records := t.records ++ written }

def callFsm (dhcpEnable : Bool) (inputIpAddress : BitVec 32) (t : DhcpNet) : DhcpNet :=
  let (fsm, i, _) := Dhcp.dhcpFsm t.fsm dhcpEnable inputIpAddress ⟨t.replies.map Prod.fst, t.portOpen⟩
  { t with
    fsm
    portOpen := i.portOpen
    replies := t.replies.drop (t.replies.length - i.replyMetaIn.length)
    chosen := if t.fsm.state = .INIT ∧ fsm.state = .SELECTING then t.messages.length else t.chosen
    adoptions := t.adoptions ++
      if t.fsm.state = .REQUESTING ∧ fsm.state = .BOUND then [⟨fsm.myIpAddress, fsm.myIdentity, t.chosen⟩]
      else [] }

def step (mac : BitVec 48) (t : DhcpNet) : DhcpLabel → Option DhcpNet
  | .word w => some { t with dataIn := t.dataIn ++ [w] }
  | .portOpen => some { t with portOpen := t.portOpen ++ [1] }
  | .receiveMessage => some (t.callReceive mac)
  | .dhcpFsm dhcpEnable inputIpAddress => some (t.callFsm dhcpEnable inputIpAddress)

/-- A message that ends is complete unless something in it tells that it is not a reply for the local client;
no record waits with the identifier that is chosen; and the acknowledgement that is taken is for the address
that was offered. -/
def trusted (mac : BitVec 48) (t : DhcpNet) : DhcpLabel → Bool
  | .receiveMessage =>
    match t.dataIn with
    | w :: _ => !w.last || !suspect mac t.rx.rmIsDHCP (t.nextRound w) || complete (t.words ++ [w])
    | [] => true
  | .dhcpFsm _ _ =>
    match t.fsm.state, t.replies with
    | .INIT, replies => replies.all fun r => r.1.identifier != t.fsm.randomValue
    | .REQUESTING, r :: _ =>
      r.1.identifier != t.fsm.myIdentity || r.1.type != ACK || r.1.assignedIpAddress == t.fsm.ipAddressBuffer
    | _, _ => true
  | _ => true

/-- Every record is made of one complete message, and every address was offered and acknowledged by two of
them, one after the other, since the identifier was chosen. -/
structure Adopted (mac : BitVec 48) (t : DhcpNet) : Prop where
  records : ∀ r ∈ t.records, ∃ ws, t.messages[r.2]? = some ws ∧ Genuine mac ws r.1
  adoptions : ∀ a ∈ t.adoptions, ∃ offer ack, offer ∈ t.records ∧ ack ∈ t.records ∧
    a.chosen ≤ offer.2 ∧ offer.2 < ack.2 ∧ offer.1.type = OFFER ∧ ack.1.type = ACK ∧
    offer.1.identifier = a.identity ∧ ack.1.identifier = a.identity ∧
    offer.1.assignedIpAddress = a.address ∧ ack.1.assignedIpAddress = a.address

end DhcpNet

/-! ## The fields of a round -/

/-- What the parser remembers of the words since the counter was zero. -/
structure Fields (mac : BitVec 48) (s : ReceiveMessage) (ws : List Word) : Prop where
  reply : ws[0]?.any (·.isReply) = s.rmIsReply
  identifier : ws[0]?.map (·.high) = some s.metaReg.identifier
  mac : s.rmCorrectMac = (ws[3]?.all (·.mac1 mac) && ws[4]?.all (·.mac2 mac))
  assigned : ∀ w, ws[2]? = some w → s.metaReg.assignedIpAddress = w.low ∧ s.metaReg.serverAddress = w.high
  cookie : ∀ w, ws[29]? = some w → s.rmIsDHCP = w.isCookie
  type : ∀ w, ws[30]? = some w → w.isOption53 = true → s.metaReg.type = w.option53

variable {mac : BitVec 48} {s : ReceiveMessage} {ws : List Word} {w : Word}

theorem fields_first (h : s.rmWordCount = 0) : Fields mac (parseWord mac s w) [w] := by
  have hparse : parseWord mac s w = { s with
      rmIsReply := w.isReply, metaReg := { s.metaReg with identifier := w.high }, rmCorrectMac := true } := by
    unfold parseWord
    rw [h]
    rfl
  rw [hparse]
  constructor <;> simp

theorem Fields.word (h : Fields mac s ws) (hne : ws ≠ []) (hlt : ws.length < 64)
    (hcount : s.rmWordCount.toNat = ws.length) : Fields mac (parseWord mac s w) (ws ++ [w]) := by
  have hpos : 0 < ws.length := List.length_pos_iff.mpr hne
  have hhead : (ws ++ [w])[0]? = ws[0]? := List.getElem?_append_left hpos
  -- a word in another place is the one that was there before
  have hold (k : Nat) (hk : ws.length ≠ k) : (ws ++ [w])[k]? = ws[k]? := by
    rcases Nat.lt_or_gt_of_ne hk with hk | hk
    · rw [List.getElem?_eq_none (by simp; omega), List.getElem?_eq_none (by omega)]
    · exact List.getElem?_append_left hk
  have hnew (k : Nat) (hk : ws.length = k) : (ws ++ [w])[k]? = some w := by
    rw [← hk]
    exact List.getElem?_concat_length
  obtain ⟨hreply, hid, hmac, hassigned, hcookie, htype⟩ := h
  rw [← hhead] at hreply hid
  unfold parseWord
  rw [hcount]
  split
  · next hk => omega
  · next hk =>
      refine ⟨hreply, hid, ?_, ?_, ?_, ?_⟩
      · rw [hold 3 (by omega), hold 4 (by omega)]
        exact hmac
      · rw [hnew 2 hk]
        rintro _ ⟨⟩
        exact ⟨rfl, rfl⟩
      · rw [hold 29 (by omega)]
        exact hcookie
      · rw [hold 30 (by omega)]
        exact htype
  · next hk =>
      have h3 : ws[3]? = none := List.getElem?_eq_none (by omega)
      refine ⟨hreply, hid, ?_, ?_, ?_, ?_⟩
      · rw [h3] at hmac
        rw [hnew 3 hk, hold 4 (by omega)]
        simp [hmac, Bool.and_comm]
      · rw [hold 2 (by omega)]
        exact hassigned
      · rw [hold 29 (by omega)]
        exact hcookie
      · rw [hold 30 (by omega)]
        exact htype
  · next hk =>
      have h4 : ws[4]? = none := List.getElem?_eq_none (by omega)
      refine ⟨hreply, hid, ?_, ?_, ?_, ?_⟩
      · rw [h4] at hmac
        rw [hold 3 (by omega), hnew 4 hk]
        simp [hmac]
      · rw [hold 2 (by omega)]
        exact hassigned
      · rw [hold 29 (by omega)]
        exact hcookie
      · rw [hold 30 (by omega)]
        exact htype
  · next hk =>
      refine ⟨hreply, hid, ?_, ?_, ?_, ?_⟩
      · rw [hold 3 (by omega), hold 4 (by omega)]
        exact hmac
      · rw [hold 2 (by omega)]
        exact hassigned
      · rw [hnew 29 hk]
        rintro _ ⟨⟩
        rfl
      · rw [hold 30 (by omega)]
        exact htype
  · next hk =>
      have hsame : (if w.isOption53 then { s.metaReg with type := w.option53 } else s.metaReg) =
          { s.metaReg with type := if w.isOption53 then w.option53 else s.metaReg.type } := by
        split <;> rfl
      rw [hsame]
      refine ⟨hreply, hid, ?_, ?_, ?_, ?_⟩
      · rw [hold 3 (by omega), hold 4 (by omega)]
        exact hmac
      · rw [hold 2 (by omega)]
        exact hassigned
      · rw [hold 29 (by omega)]
        exact hcookie
      · rw [hnew 30 hk]
        rintro _ ⟨⟩ ho
        exact if_pos ho
  · next h0 h2 h3 h4 h29 h30 =>
      refine ⟨hreply, hid, ?_, ?_, ?_, ?_⟩
      · rw [hold 3 h3, hold 4 h4]
        exact hmac
      · rw [hold 2 h2]
        exact hassigned
      · rw [hold 29 h29]
        exact hcookie
      · rw [hold 30 h30]
        exact htype

theorem parseWord_isDHCP (h : s.rmWordCount.toNat ≠ 29) : (parseWord mac s w).rmIsDHCP = s.rmIsDHCP := by
  unfold parseWord
  split <;> first | rfl | contradiction

theorem parseWord_count : (parseWord mac s w).rmWordCount = s.rmWordCount := by
  unfold parseWord
  split <;> rfl

theorem Fields.accepts {t : ReceiveMessage} (h : Fields mac t ws) {isDHCP : Bool}
    (hkept : ws[29]? = none → t.rmIsDHCP = isDHCP) : t.accepts = suspect mac isDHCP ws := by
  have hcookie : t.rmIsDHCP = (ws[29]?.map (·.isCookie)).getD isDHCP := by
    cases hw : ws[29]? with
    | none => exact hkept hw
    | some w => exact h.cookie w hw
  unfold ReceiveMessage.accepts suspect
  rw [h.reply, h.mac, hcookie]
  simp only [Bool.and_assoc]

/-- A complete message that is accepted makes a record of its own fields. -/
theorem Fields.genuine {t : ReceiveMessage} (h : Fields mac t ws) (hc : complete ws = true)
    (ha : t.accepts = true) : Genuine mac ws t.metaReg := by
  have hc' := hc
  simp only [complete, Bool.and_eq_true, decide_eq_true_eq] at hc'
  obtain ⟨⟨⟨hlong, hshort⟩, hoption⟩, -⟩ := hc'
  have hget (k : Nat) (hk : k < 31) : ∃ w, ws[k]? = some w := ⟨ws[k], List.getElem?_eq_getElem (by omega)⟩
  simp only [ReceiveMessage.accepts, Bool.and_eq_true] at ha
  obtain ⟨⟨hreply, hmac⟩, hdhcp⟩ := ha
  obtain ⟨w2, hw2⟩ := hget 2 (by decide)
  obtain ⟨w3, hw3⟩ := hget 3 (by decide)
  obtain ⟨w4, hw4⟩ := hget 4 (by decide)
  obtain ⟨w29, hw29⟩ := hget 29 (by decide)
  obtain ⟨w30, hw30⟩ := hget 30 (by decide)
  rw [h.mac, hw3, hw4] at hmac
  rw [hw30] at hoption
  simp only [Option.all_some, Option.any_some, Bool.and_eq_true] at hmac hoption
  refine ⟨hc, by rw [h.reply]; exact hreply, ?_, ?_, ?_, h.identifier, ?_, ?_, ?_⟩
  · rw [hw3]
    exact hmac.1
  · rw [hw4]
    exact hmac.2
  · rw [hw29]
    exact (h.cookie w29 hw29).symm.trans hdhcp
  · rw [hw2, (h.assigned w2 hw2).1]
    rfl
  · rw [hw2, (h.assigned w2 hw2).2]
    rfl
  · rw [hw30, h.type w30 hw30 hoption]
    rfl

/-! ## Invariant -/

namespace DhcpNet

/-- The parser in the middle of a message, or between two. -/
structure Reading (mac : BitVec 48) (t : DhcpNet) : Prop where
  count : t.rx.rmWordCount = BitVec.ofNat 6 t.round.length
  short : t.round.length ≤ 64
  rounds : ∃ j, t.words.length = 64 * j + t.round.length ∧ (j = 0 → t.round = t.words)
  started : t.words ≠ [] → t.round ≠ []
  fields : t.round ≠ [] → Fields mac t.rx t.round

/-- Records wait in the order in which they were written. -/
structure Queued (t : DhcpNet) : Prop where
  numbers : ∀ r ∈ t.records, r.2 < t.messages.length
  sorted : t.records.Pairwise fun r r' => r.2 < r'.2
  waiting : t.replies <:+ t.records

/-- The state machine looks for records with its identifier, and only later ones have it. -/
structure Fresh (t : DhcpNet) : Prop where
  chosen : t.chosen ≤ t.messages.length
  replies : t.fsm.state = .SELECTING ∨ t.fsm.state = .REQUESTING →
    ∀ r ∈ t.replies, r.1.identifier = t.fsm.myIdentity → t.chosen ≤ r.2
  offer : t.fsm.state = .REQUESTING → ∃ r ∈ t.records, t.chosen ≤ r.2 ∧ r.1.type = OFFER ∧
    r.1.identifier = t.fsm.myIdentity ∧ r.1.assignedIpAddress = t.fsm.ipAddressBuffer ∧
    ∀ r' ∈ t.replies, r.2 < r'.2

structure Inv (mac : BitVec 48) (t : DhcpNet) : Prop where
  reading : Reading mac t
  queued : Queued t
  fresh : Fresh t
  adopted : Adopted mac t

theorem inv_init : Inv mac {} := by
  refine ⟨⟨rfl, by simp, ⟨0, rfl, fun _ => rfl⟩, by simp, by simp⟩, ⟨by simp, by simp, List.suffix_refl _⟩,
    ⟨Nat.le_refl _, by simp, ?_⟩, ⟨by simp, by simp⟩⟩
  intro h
  cases h

variable {t u : DhcpNet}

/-! ### `receive_message` -/

theorem Reading.next (h : Reading mac t) (w : Word) :
    Fields mac (parseWord mac t.rx w) (t.nextRound w) ∧ (t.nextRound w).length ≤ 64 ∧
      (t.rx.rmWordCount + 1 = BitVec.ofNat 6 (t.nextRound w).length) ∧
      (∃ j, (t.words ++ [w]).length = 64 * j + (t.nextRound w).length ∧ (j = 0 → t.nextRound w = t.words ++ [w])) ∧
      ((t.nextRound w)[29]? = none → t.rx.rmWordCount.toNat ≠ 29) := by
  obtain ⟨hcount, hshort, ⟨j, hlen, hzero⟩, hstarted, hfields⟩ := h
  have hnat : t.rx.rmWordCount.toNat = t.round.length % 64 := by rw [hcount, BitVec.toNat_ofNat]
  have hsucc : t.rx.rmWordCount + 1 = BitVec.ofNat 6 (t.round.length + 1) := by
    rw [hcount, BitVec.ofNat_add]
    rfl
  unfold nextRound
  by_cases hc : t.rx.rmWordCount = 0
  · -- a round starts: nothing was read, or 64 words
    rw [if_pos hc]
    have hmod : t.round.length % 64 = 0 := by
      rw [← hnat, hc]
      rfl
    refine ⟨fields_first hc, by simp, by rw [hc]; rfl, ?_, fun _ => by rw [hnat, hmod]; decide⟩
    rcases Nat.eq_zero_or_pos t.round.length with h0 | hpos
    · have hround : t.round = [] := List.length_eq_zero_iff.mp h0
      have hwords : t.words = [] := by
        by_contra hne
        exact hstarted hne hround
      exact ⟨0, by simp [hwords], fun _ => by simp [hwords]⟩
    · refine ⟨j + 1, ?_, fun hj => absurd hj (Nat.succ_ne_zero j)⟩
      rw [List.length_append, hlen, List.length_singleton]
      omega
  · rw [if_neg hc]
    have hlt : t.round.length < 64 ∧ t.round ≠ [] := by
      have hne : t.rx.rmWordCount.toNat ≠ 0 := fun h0 => hc (BitVec.eq_of_toNat_eq h0)
      refine ⟨by omega, fun hnil => ?_⟩
      rw [hnil] at hnat
      exact hne hnat
    refine ⟨(hfields hlt.2).word hlt.2 hlt.1 (by rw [hnat, Nat.mod_eq_of_lt hlt.1]), ?_, ?_, ?_, ?_⟩
    · rw [List.length_append, List.length_singleton]
      omega
    · rw [List.length_append, List.length_singleton]
      exact hsucc
    · refine ⟨j, by simp [hlen, Nat.add_assoc], fun hj => by rw [hzero hj]⟩
    · intro hnone h29
      have hlen29 : t.round.length = 29 := by omega
      rw [← hlen29, List.getElem?_concat_length] at hnone
      cases hnone

theorem Reading.genuine (h : Reading mac t) {w : Word}
    (hok : suspect mac t.rx.rmIsDHCP (t.nextRound w) = true → complete (t.words ++ [w]) = true)
    (ha : (parseWord mac t.rx w).accepts = true) :
    Genuine mac (t.words ++ [w]) (parseWord mac t.rx w).metaReg := by
  obtain ⟨hfields, hshort, -, ⟨j, hlen, hzero⟩, hkept⟩ := h.next w
  have hsuspect := ha
  rw [hfields.accepts (fun hnone => parseWord_isDHCP (hkept hnone))] at hsuspect
  have hc := hok hsuspect
  -- a complete message is one round
  have hj : j = 0 := by
    have hc' := hc
    simp only [complete, Bool.and_eq_true, decide_eq_true_eq] at hc'
    have hpos : 0 < (t.nextRound w).length := by
      unfold nextRound
      split <;> simp
    omega
  rw [← hzero hj] at hc ⊢
  exact hfields.genuine hc ha

-- A word is taken: inside a message, or at its end with or without a record.
theorem callReceive_cases (mac : BitVec 48) (t : DhcpNet) :
    t.callReceive mac = t ∨
    (∃ w rest, t.dataIn = w :: rest ∧ w.last = false ∧ t.callReceive mac = { t with
      rx := { parseWord mac t.rx w with rmWordCount := t.rx.rmWordCount + 1 }
      dataIn := rest, words := t.words ++ [w], round := t.nextRound w }) ∨
    (∃ w rest, t.dataIn = w :: rest ∧ w.last = true ∧ (parseWord mac t.rx w).accepts = false ∧
      t.callReceive mac = { t with
        rx := { parseWord mac t.rx w with rmWordCount := 0 }
        dataIn := rest, words := [], round := [], messages := t.messages ++ [t.words ++ [w]] }) ∨
    (∃ w rest, t.dataIn = w :: rest ∧ w.last = true ∧ (parseWord mac t.rx w).accepts = true ∧
      t.callReceive mac = { t with
        rx := { parseWord mac t.rx w with rmWordCount := 0 }
        dataIn := rest, words := [], round := [], messages := t.messages ++ [t.words ++ [w]]
        replies := t.replies ++ [((parseWord mac t.rx w).metaReg, t.messages.length)]
        records := t.records ++ [((parseWord mac t.rx w).metaReg, t.messages.length)] }) := by
  unfold callReceive Dhcp.receiveMessage
  cases hin : t.dataIn with
  | nil =>
    left
    simp only
    rw [← hin]
  | cons w rest =>
    right
    cases hlast : w.last with
    | false =>
      left
      exact ⟨w, rest, rfl, hlast, by simp [hlast, parseWord_count]⟩
    | true =>
      right
      cases ha : (parseWord mac t.rx w).accepts with
      | false =>
        left
        exact ⟨w, rest, rfl, hlast, ha, by simp [hlast, ha]⟩
      | true =>
        right
        exact ⟨w, rest, rfl, hlast, ha, by simp [hlast, ha]⟩

theorem reading_start {u : DhcpNet} (hcount : u.rx.rmWordCount = 0) (hwords : u.words = []) (hround : u.round = []) :
    Reading mac u := by
  refine ⟨by rw [hcount, hround]; rfl, by simp [hround], ⟨0, by simp [hwords, hround], fun _ => by rw [hwords, hround]⟩,
    fun hne => absurd hwords hne, fun hne => absurd hround hne⟩

theorem inv_callReceive (h : Inv mac t) (hok : t.trusted mac .receiveMessage = true) :
    Inv mac (t.callReceive mac) := by
  -- a message that was complete before stays where it is
  have hkeep {w : Word} {k : Nat} {ws : List Word} (hk : t.messages[k]? = some ws) :
      (t.messages ++ [t.words ++ [w]])[k]? = some ws := by
    rw [List.getElem?_append_left (List.getElem?_eq_some_iff.mp hk).1]
    exact hk
  have hlt {w : Word} {k : Nat} (hk : k < t.messages.length) : k < (t.messages ++ [t.words ++ [w]]).length := by
    rw [List.length_append]
    exact Nat.lt_add_right _ hk
  rcases callReceive_cases mac t with hu | ⟨w, rest, hin, hlast, hu⟩ | ⟨w, rest, hin, hlast, ha, hu⟩ |
    ⟨w, rest, hin, hlast, ha, hu⟩
  · rw [hu]
    exact h
  · rw [hu]
    obtain ⟨hfields, hshort, hcount, hrounds, -⟩ := h.reading.next w
    refine ⟨⟨hcount, hshort, hrounds, fun _ => ?_, fun _ => ?_⟩, ⟨h.queued.numbers, h.queued.sorted, h.queued.waiting⟩,
      ⟨h.fresh.chosen, h.fresh.replies, h.fresh.offer⟩, ⟨h.adopted.records, h.adopted.adoptions⟩⟩
    · unfold nextRound
      split <;> simp
    · exact { hfields with }
  · rw [hu]
    refine ⟨reading_start rfl rfl rfl, ⟨fun r hr => hlt (h.queued.numbers r hr), h.queued.sorted, h.queued.waiting⟩,
      ⟨?_, h.fresh.replies, h.fresh.offer⟩, ⟨?_, h.adopted.adoptions⟩⟩
    · show t.chosen ≤ (t.messages ++ [t.words ++ [w]]).length
      rw [List.length_append]
      exact Nat.le_add_right_of_le h.fresh.chosen
    · intro r hr
      obtain ⟨ws, hws, hg⟩ := h.adopted.records r hr
      exact ⟨ws, hkeep hws, hg⟩
  · have hcomplete : suspect mac t.rx.rmIsDHCP (t.nextRound w) = true → complete (t.words ++ [w]) = true := by
      intro hs
      simpa [trusted, hin, hlast, hs] using hok
    have hg := h.reading.genuine hcomplete ha
    rw [hu]
    refine ⟨reading_start rfl rfl rfl, ⟨?_, ?_, ?_⟩, ⟨?_, ?_, ?_⟩, ⟨?_, ?_⟩⟩
    · intro r hr
      rcases List.mem_append.mp hr with hr | hr
      · exact hlt (h.queued.numbers r hr)
      · rw [List.mem_singleton.mp hr, List.length_append]
        exact Nat.lt_succ_self _
    · refine List.pairwise_append.mpr ⟨h.queued.sorted, List.pairwise_singleton _ _, ?_⟩
      intro r hr r' hr'
      rw [List.mem_singleton.mp hr']
      exact h.queued.numbers r hr
    · obtain ⟨done, hdone⟩ := h.queued.waiting
      exact ⟨done, by rw [← hdone, List.append_assoc]⟩
    · show t.chosen ≤ (t.messages ++ [t.words ++ [w]]).length
      rw [List.length_append]
      exact Nat.le_add_right_of_le h.fresh.chosen
    · intro hstate r hr hid
      rcases List.mem_append.mp hr with hr | hr
      · exact h.fresh.replies hstate r hr hid
      · rw [List.mem_singleton.mp hr]
        exact h.fresh.chosen
    · intro hstate
      obtain ⟨r, hr, hchosen, hty, hid, haddr, hlater⟩ := h.fresh.offer hstate
      refine ⟨r, List.mem_append_left _ hr, hchosen, hty, hid, haddr, ?_⟩
      intro r' hr'
      rcases List.mem_append.mp hr' with hr' | hr'
      · exact hlater r' hr'
      · rw [List.mem_singleton.mp hr']
        exact h.queued.numbers r hr
    · intro r hr
      rcases List.mem_append.mp hr with hr | hr
      · obtain ⟨ws, hws, hg⟩ := h.adopted.records r hr
        exact ⟨ws, hkeep hws, hg⟩
      · rw [List.mem_singleton.mp hr]
        exact ⟨_, List.getElem?_concat_length, hg⟩
    · intro a haa
      obtain ⟨offer, ack, hoffer, hack, hrest⟩ := h.adopted.adoptions a haa
      exact ⟨offer, ack, List.mem_append_left _ hoffer, List.mem_append_left _ hack, hrest⟩

/-! ### `dhcp_fsm` -/

-- What a call does to the state, the identifier, the addresses and the records that wait.
theorem callFsm_cases (e : Bool) (ip : BitVec 32) (t : DhcpNet) :
    (t.fsm.state = .INIT ∧ (t.callFsm e ip).fsm.state = .SELECTING ∧
      t.callFsm e ip = { t with fsm := (t.callFsm e ip).fsm, chosen := t.messages.length } ∧
      (t.callFsm e ip).fsm.myIdentity = t.fsm.randomValue) ∨
    (∃ r rest, t.fsm.state = .SELECTING ∧ t.replies = r :: rest ∧ r.1.identifier = t.fsm.myIdentity ∧
      r.1.type = OFFER ∧ (t.callFsm e ip).fsm.state = .REQUESTING ∧
      t.callFsm e ip = { t with fsm := (t.callFsm e ip).fsm, replies := rest } ∧
      (t.callFsm e ip).fsm.myIdentity = t.fsm.myIdentity ∧
      (t.callFsm e ip).fsm.ipAddressBuffer = r.1.assignedIpAddress) ∨
    (∃ r rest, t.fsm.state = .REQUESTING ∧ t.replies = r :: rest ∧ r.1.identifier = t.fsm.myIdentity ∧
      r.1.type = ACK ∧ (t.callFsm e ip).fsm.state = .BOUND ∧
      t.callFsm e ip = { t with
        fsm := (t.callFsm e ip).fsm, replies := rest
        adoptions := t.adoptions ++ [⟨t.fsm.ipAddressBuffer, t.fsm.myIdentity, t.chosen⟩] }) ∨
    (∃ replies portOpen, replies <:+ t.replies ∧
      t.callFsm e ip = { t with fsm := (t.callFsm e ip).fsm, portOpen, replies } ∧
      ((t.callFsm e ip).fsm.state = .SELECTING ∨ (t.callFsm e ip).fsm.state = .REQUESTING →
        (t.callFsm e ip).fsm.state = t.fsm.state ∧ (t.callFsm e ip).fsm.myIdentity = t.fsm.myIdentity ∧
          (t.callFsm e ip).fsm.ipAddressBuffer = t.fsm.ipAddressBuffer)) := by
  cases hst : t.fsm.state with
  | PORT_WAIT =>
    right; right; right
    cases hp : t.portOpen with
    | nil =>
      refine ⟨t.replies, [], List.suffix_refl _, ?_, ?_⟩
      · simp [callFsm, Dhcp.dhcpFsm, dhcpSwitch, hst, hp]
      · simp [callFsm, Dhcp.dhcpFsm, dhcpSwitch, hst, hp]
    | cons x rest =>
      refine ⟨t.replies, rest, List.suffix_refl _, ?_, ?_⟩
      · simp [callFsm, Dhcp.dhcpFsm, dhcpSwitch, hst, hp]
      · simp [callFsm, Dhcp.dhcpFsm, dhcpSwitch, hst, hp]
  | INIT =>
    by_cases hchoose : e = true ∧ t.fsm.time = 0
    · left
      simp [callFsm, Dhcp.dhcpFsm, dhcpSwitch, hst, hchoose]
    · right; right; right
      refine ⟨t.replies, t.portOpen, List.suffix_refl _, ?_, ?_⟩
      · by_cases he : e = true
        · have ht : ¬t.fsm.time = 0#32 := fun ht => hchoose ⟨he, ht⟩
          simp [callFsm, Dhcp.dhcpFsm, dhcpSwitch, hst, he, ht]
        · simp [callFsm, Dhcp.dhcpFsm, dhcpSwitch, hst, he]
      · by_cases he : e = true
        · have ht : ¬t.fsm.time = 0#32 := fun ht => hchoose ⟨he, ht⟩
          simp [callFsm, Dhcp.dhcpFsm, dhcpSwitch, hst, he, ht]
        · simp [callFsm, Dhcp.dhcpFsm, dhcpSwitch, hst, he]
  | SELECTING =>
    cases hr : t.replies with
    | nil =>
      right; right; right
      refine ⟨[], t.portOpen, List.suffix_refl _, ?_, ?_⟩
      · simp [callFsm, Dhcp.dhcpFsm, dhcpSwitch, hst, hr, DhcpFsm.wait]
      · simp [callFsm, Dhcp.dhcpFsm, dhcpSwitch, hst, hr, DhcpFsm.wait]
        split <;> simp
    | cons r rest =>
      by_cases hoffer : r.1.identifier = t.fsm.myIdentity ∧ r.1.type = OFFER
      · right; left
        refine ⟨r, rest, rfl, rfl, hoffer.1, hoffer.2, ?_⟩
        simp [callFsm, Dhcp.dhcpFsm, dhcpSwitch, hst, hr, hoffer.1, hoffer.2]
      · right; right; right
        refine ⟨rest, t.portOpen, List.suffix_cons _ _, ?_⟩
        by_cases hid : r.1.identifier = t.fsm.myIdentity
        · have hty : r.1.type ≠ OFFER := fun hty => hoffer ⟨hid, hty⟩
          simp [callFsm, Dhcp.dhcpFsm, dhcpSwitch, hst, hr, hid, hty]
        · simp [callFsm, Dhcp.dhcpFsm, dhcpSwitch, hst, hr, hid]
  | REQUESTING =>
    cases hr : t.replies with
    | nil =>
      right; right; right
      refine ⟨[], t.portOpen, List.suffix_refl _, ?_, ?_⟩
      all_goals
        simp [callFsm, Dhcp.dhcpFsm, dhcpSwitch, hst, hr, DhcpFsm.wait]
        split <;> simp
    | cons r rest =>
      by_cases hack : r.1.identifier = t.fsm.myIdentity ∧ r.1.type = ACK
      · right; right; left
        refine ⟨r, rest, rfl, rfl, hack.1, hack.2, ?_⟩
        simp [callFsm, Dhcp.dhcpFsm, dhcpSwitch, hst, hr, hack.1, hack.2]
      · right; right; right
        refine ⟨rest, t.portOpen, List.suffix_cons _ _, ?_⟩
        by_cases hid : r.1.identifier = t.fsm.myIdentity
        · have hty : r.1.type ≠ ACK := fun hty => hack ⟨hid, hty⟩
          simp [callFsm, Dhcp.dhcpFsm, dhcpSwitch, hst, hr, hid, hty]
        · simp [callFsm, Dhcp.dhcpFsm, dhcpSwitch, hst, hr, hid]
  | BOUND =>
    right; right; right
    refine ⟨t.replies.tail, t.portOpen, List.tail_suffix _, ?_, ?_⟩
    · cases hr : t.replies <;> simp [callFsm, Dhcp.dhcpFsm, dhcpSwitch, hst, hr]
    · cases hr : t.replies <;> cases e <;> simp [callFsm, Dhcp.dhcpFsm, dhcpSwitch, hst, hr]

theorem Queued.head (h : Queued t) {r : DhcpReplyMeta × Nat} {rest : List (DhcpReplyMeta × Nat)}
    (hr : t.replies = r :: rest) : r ∈ t.records ∧ rest <:+ t.records ∧ ∀ r' ∈ rest, r.2 < r'.2 := by
  have hwaiting : r :: rest <:+ t.records := hr ▸ h.waiting
  have hsorted : (r :: rest).Pairwise fun r r' => r.2 < r'.2 := h.sorted.sublist hwaiting.sublist
  exact ⟨hwaiting.subset List.mem_cons_self, (List.suffix_cons r rest).trans hwaiting,
    (List.pairwise_cons.mp hsorted).1⟩

theorem inv_callFsm {e : Bool} {ip : BitVec 32} (h : Inv mac t) (hok : t.trusted mac (.dhcpFsm e ip) = true) :
    Inv mac (t.callFsm e ip) := by
  rcases callFsm_cases e ip t with ⟨hst, hst', hu, hid⟩ | ⟨r, rest, hst, hr, hrid, hty, hst', hu, hid, hip⟩ |
    ⟨r, rest, hst, hr, hrid, hty, hst', hu⟩ | ⟨replies, portOpen, hsuffix, hu, hsame⟩
  · -- an identifier is chosen: no record that waits has it
    have hnone : ∀ r ∈ t.replies, r.1.identifier ≠ t.fsm.randomValue := by
      simpa [trusted, hst] using hok
    generalize (t.callFsm e ip).fsm = f at hu hst' hid
    rw [hu]
    refine ⟨⟨h.reading.count, h.reading.short, h.reading.rounds, h.reading.started, h.reading.fields⟩,
      ⟨h.queued.numbers, h.queued.sorted, h.queued.waiting⟩, ⟨Nat.le_refl _, ?_, ?_⟩,
      ⟨h.adopted.records, h.adopted.adoptions⟩⟩
    · intro _ r hr hri
      exact absurd (hri.trans hid) (hnone r hr)
    · intro hreq
      rw [show f.state = .SELECTING from hst'] at hreq
      cases hreq
  · -- an offer is taken: every record that still waits is of a later message
    obtain ⟨hwait, hrest, hlater⟩ := h.queued.head hr
    generalize (t.callFsm e ip).fsm = f at hu hst' hid hip
    rw [hu]
    refine ⟨⟨h.reading.count, h.reading.short, h.reading.rounds, h.reading.started, h.reading.fields⟩,
      ⟨h.queued.numbers, h.queued.sorted, hrest⟩, ⟨h.fresh.chosen, ?_, ?_⟩,
      ⟨h.adopted.records, h.adopted.adoptions⟩⟩
    · intro _ r' hr' hri
      refine h.fresh.replies (.inl hst) r' ?_ (hri.trans hid)
      rw [hr]
      exact List.mem_cons_of_mem _ hr'
    · intro _
      refine ⟨r, hwait, h.fresh.replies (.inl hst) r ?_ hrid, hty, hrid.trans hid.symm, hip.symm, hlater⟩
      rw [hr]
      exact List.mem_cons_self
  · -- an acknowledgement is taken: the offer was of an earlier message
    obtain ⟨hwait, hrest, -⟩ := h.queued.head hr
    have haddr : r.1.assignedIpAddress = t.fsm.ipAddressBuffer := by
      simpa [trusted, hst, hr, hrid, hty] using hok
    obtain ⟨offer, hoffer, hchosen, hoty, hoid, hoaddr, hafter⟩ := h.fresh.offer hst
    generalize (t.callFsm e ip).fsm = f at hu hst'
    rw [hu]
    refine ⟨⟨h.reading.count, h.reading.short, h.reading.rounds, h.reading.started, h.reading.fields⟩,
      ⟨h.queued.numbers, h.queued.sorted, hrest⟩, ⟨h.fresh.chosen, ?_, ?_⟩, ⟨h.adopted.records, ?_⟩⟩
    · intro hstate
      rw [show f.state = .BOUND from hst'] at hstate
      rcases hstate with hstate | hstate <;> cases hstate
    · intro hreq
      rw [show f.state = .BOUND from hst'] at hreq
      cases hreq
    · intro a ha
      rcases List.mem_append.mp ha with ha | ha
      · exact h.adopted.adoptions a ha
      · rw [List.mem_singleton.mp ha]
        refine ⟨offer, r, hoffer, hwait, hchosen, hafter r ?_, hoty, hty, hoid, hrid, hoaddr, haddr⟩
        rw [hr]
        exact List.mem_cons_self
  · -- nothing is chosen or taken
    generalize (t.callFsm e ip).fsm = f at hu hsame
    rw [hu]
    refine ⟨⟨h.reading.count, h.reading.short, h.reading.rounds, h.reading.started, h.reading.fields⟩,
      ⟨h.queued.numbers, h.queued.sorted, hsuffix.trans h.queued.waiting⟩, ⟨h.fresh.chosen, ?_, ?_⟩,
      ⟨h.adopted.records, h.adopted.adoptions⟩⟩
    · intro hstate r hr hid
      obtain ⟨hstate', hident, -⟩ := hsame hstate
      refine h.fresh.replies ?_ r (hsuffix.subset hr) (hid.trans hident)
      rw [← hstate']
      exact hstate
    · intro hreq
      obtain ⟨hstate', hident, hbuffer⟩ := hsame (.inr hreq)
      obtain ⟨offer, hoffer, hchosen, hty, hid, haddr, hafter⟩ := h.fresh.offer (hstate'.symm.trans hreq)
      exact ⟨offer, hoffer, hchosen, hty, hid.trans hident.symm, haddr.trans hbuffer.symm,
        fun r' hr' => hafter r' (hsuffix.subset hr')⟩

theorem inv_step {l : DhcpLabel} (h : Inv mac t) (hok : t.trusted mac l = true) (hu : step mac t l = some u) :
    Inv mac u := by
  cases l with
  | word | portOpen =>
    cases hu
    exact ⟨⟨h.reading.count, h.reading.short, h.reading.rounds, h.reading.started, h.reading.fields⟩,
      ⟨h.queued.numbers, h.queued.sorted, h.queued.waiting⟩, ⟨h.fresh.chosen, h.fresh.replies, h.fresh.offer⟩,
      ⟨h.adopted.records, h.adopted.adoptions⟩⟩
  | receiveMessage =>
    cases hu
    exact inv_callReceive h hok
  | dhcpFsm e ip =>
    cases hu
    exact inv_callFsm h hok

/-- Every record is made of one complete message, and an address is adopted only after a complete offer and a
later complete acknowledgement, both for this address and the identifier in use, in every run whose messages are
complete or tell that they are not for the local client, in which no record with the identifier that is chosen
waits, and in which the acknowledgement names the offered address. -/
theorem address_adopted (mac : BitVec 48)
    (h : Reach (step mac) (fun t l => t.trusted mac l = true) {} t) : Adopted mac t :=
  (h.invariant (P := Inv mac) inv_init fun _ _ _ hu hok hs => inv_step hu hok hs).adopted

/-! ### Two runs -/

/-- A BOOTP reply of 31 words for the hardware address 0. -/
def bootpReply (identifier address : BitVec 32) (type : BitVec 8) : List Word :=
  let word (data : BitVec 64) : Word := ⟨data, 0xff, false⟩
  [word (identifier ++ (0x2 : BitVec 32)), word 0, word ((0 : BitVec 32) ++ address)] ++
    List.replicate 26 (word 0) ++ [word (MAGIC_COOKIE ++ (0 : BitVec 32)),
      ⟨(0 : BitVec 40) ++ type ++ (0x0135 : BitVec 16), 0xff, true⟩]

def receive (ws : List Word) : List DhcpLabel := ws.flatMap fun w => [.word w, .receiveMessage]

/-- The port opens, the timer runs down and the identifier `0x34aad3b0` is chosen. -/
def discover : List DhcpLabel := .portOpen :: List.replicate 102 (.dhcpFsm true 0)

-- An offer and an acknowledgement of the address 7 are taken.
theorem address_adopted_seven : ∃ t, Reach (step 0) (fun t l => t.trusted 0 l = true) {} t ∧ Adopted 0 t ∧
    t.fsm.state = .BOUND ∧ t.adoptions = [⟨7, 0x34aad3b0, 0⟩] := by
  have hrun : (runIf (step 0) (fun t l => t.trusted 0 l = true) {}
      (discover ++ receive (bootpReply 0x34aad3b0 7 OFFER) ++ [.dhcpFsm true 0] ++
        receive (bootpReply 0x34aad3b0 7 ACK) ++ [.dhcpFsm true 0])).map (fun t => (t.fsm.state, t.adoptions)) =
      some (.BOUND, [⟨7, 0x34aad3b0, 0⟩]) := by
    decide +kernel
  obtain ⟨t, ht, hmap⟩ := Option.map_eq_some_iff.mp hrun
  obtain ⟨hstate, hadoptions⟩ := Prod.mk.inj hmap
  exact ⟨t, reach_of_runIf ht, address_adopted 0 (reach_of_runIf ht), hstate, hadoptions⟩

-- After a complete message, one word that is a reply makes a record with the fields of the message before.
theorem short_message_recorded : ∃ t, Reach (step 0) anyStep {} t ∧
    t.messages[1]? = some [⟨0x3400000002, 0xff, true⟩] ∧ (⟨0x34, 7, 0, OFFER⟩, 1) ∈ t.records ∧ ¬Adopted 0 t := by
  have hrun : (run (step 0) {}
      (receive (bootpReply 0x12 7 OFFER) ++ receive [⟨0x3400000002, 0xff, true⟩])).map
        (fun t => (t.messages[1]?, t.records)) =
      some (some [⟨0x3400000002, 0xff, true⟩], [(⟨0x12, 7, 0, OFFER⟩, 0), (⟨0x34, 7, 0, OFFER⟩, 1)]) := by
    decide +kernel
  obtain ⟨t, ht, hmap⟩ := Option.map_eq_some_iff.mp hrun
  obtain ⟨hm, hr⟩ := Prod.mk.inj hmap
  have hmem : ((⟨0x34, 7, 0, OFFER⟩, 1) : DhcpReplyMeta × Nat) ∈ t.records := by
    rw [hr]
    exact List.mem_cons_of_mem _ List.mem_cons_self
  refine ⟨t, reach_of_run ht, hm, hmem, fun h => ?_⟩
  obtain ⟨ws, hws, hg⟩ := h.records _ hmem
  rw [hm] at hws
  cases hws
  exact absurd hg.complete (by decide)

end DhcpNet

end FpgaNetworkStack.Dhcp
