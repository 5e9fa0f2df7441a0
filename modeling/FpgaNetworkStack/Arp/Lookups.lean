import FpgaNetworkStack.Arp.Server
import FpgaNetworkStack.Lib.Reach
import Mathlib.Data.List.Induction

/-!
# Answers of the ARP table

The network remembers the packets with the local address at their end, and with every lookup how many of
them had come.  `process_arp_pkg` acts at the last word, whether or not the header has been read, and
`arp_table` looks at one byte of an address.
-/

namespace FpgaNetworkStack.Arp

open Lib
open Roce (PacketHeader Parsed packetNat parsed_clear)
open Toe (AxiWord)

variable {N : Nat}

/-! ## Replies -/

/-- A packet and the address of the local host when it ended. -/
structure Frame (N : Nat) where
  words : List (AxiWord N)
  myIpAddress : BitVec 32

namespace Frame

def complete (ws : List (AxiWord N)) : Bool :=
  (List.range 42).all fun k => ws[k / N]?.any fun w => w.keep.getLsbD (k % N)

def header (f : Frame N) : Header := BitVec.ofNat ARP_HEADER_SIZE (packetNat (f.words.map (·.data)))

/-- The sender of a complete reply to the local host. -/
def sender (f : Frame N) : Option ArpTableEntry :=
  if complete f.words && f.header.isReply && (f.header.getTargetProtoAddr == f.myIpAddress) then
    some ⟨f.header.getSenderProtoAddr, f.header.getSenderHwAddr, true⟩
  else none

end Frame

/-- The hardware address in the last complete reply that came from this address. -/
def latestReply (frames : List (Frame N)) (ip : BitVec 32) : Option (BitVec 48) :=
  ((frames.filterMap Frame.sender).reverse.find? (·.ipAddress = ip)).map (·.macAddress)

/-! ## The network -/

inductive Client where
  | mac | host
  deriving DecidableEq

structure Lookup where
  client : Client
  query_ip : BitVec 32
  reply : ArpTableReply
  /-- How many packets had come. -/
  seen : Nat

structure ArpNet (N : Nat) where
  parser : ProcessArpPkg N := {}
  dataIn : List (AxiWord N) := []
  arpTable : Entries := fun _ => {}
  queues : ArpTableIn := {}
  arpReplyMetaFifo : List ArpReplyMeta := []
  sent : ArpTableOut := {}
  /-- The words of the packet that is read. -/
  words : List (AxiWord N) := []
  frames : List (Frame N) := []
  /-- The lookups that were asked for, and those that were answered. -/
  asked : Client → List (BitVec 32) := fun _ => []
  lookups : List Lookup := []

inductive ArpLabel (N : Nat) where
  | word (w : AxiWord N)
  | lookup (client : Client) (query_ip : BitVec 32)
  | processArpPkg (myIpAddress : BitVec 32)
  | arpTable

namespace ArpNet

def waiting (t : ArpNet N) : Client → List (BitVec 32)
  | .mac => t.queues.macIpEncode_req
  | .host => t.queues.hostIpEncode_req

def answers (t : ArpNet N) : Client → List ArpTableReply
  | .mac => t.sent.macIpEncode_rsp
  | .host => t.sent.hostIpEncode_rsp

def callLookup (client : Client) (query_ip : BitVec 32) (t : ArpNet N) : ArpNet N :=
  { t with
    queues := match client with
      | .mac => { t.queues with macIpEncode_req := t.queues.macIpEncode_req ++ [query_ip] }
      | .host => { t.queues with hostIpEncode_req := t.queues.hostIpEncode_req ++ [query_ip] }
    asked := fun c => if c = client then t.asked c ++ [query_ip] else t.asked c }

def callProcess (myIpAddress : BitVec 32) (t : ArpNet N) : ArpNet N :=
  match t.dataIn with
  | [] => t
  | w :: _ =>
    let (parser, dataIn, out) := Arp.processArpPkg t.parser t.dataIn myIpAddress
    { t with
      parser, dataIn
      arpReplyMetaFifo := t.arpReplyMetaFifo ++ out.arpReplyMetaFifo
      queues := { t.queues with
        arpTableInsertFifo := t.queues.arpTableInsertFifo ++ out.arpTableInsertFifo }
      words := if w.last then [] else t.words ++ [w]
      frames := if w.last then t.frames ++ [⟨t.words ++ [w], myIpAddress⟩] else t.frames }

/-- The lookup that the next call of `arp_table` answers. -/
def next (t : ArpNet N) : Option (Client × BitVec 32) :=
  match t.queues.arpTableInsertFifo, t.queues.macIpEncode_req, t.queues.hostIpEncode_req with
  | [], query_ip :: _, _ => some (.mac, query_ip)
  | [], [], query_ip :: _ => some (.host, query_ip)
  | _, _, _ => none

def callTable (t : ArpNet N) : ArpNet N :=
  let (arpTable, queues, out) := Arp.arpTable t.arpTable t.queues
  { t with
    arpTable, queues
    sent :=
      { macIpEncode_rsp := t.sent.macIpEncode_rsp ++ out.macIpEncode_rsp
        hostIpEncode_rsp := t.sent.hostIpEncode_rsp ++ out.hostIpEncode_rsp
        arpRequestMetaFifo := t.sent.arpRequestMetaFifo ++ out.arpRequestMetaFifo }
    lookups := t.lookups ++
      t.next.toList.map fun q =>
        ⟨q.1, q.2, (out.macIpEncode_rsp ++ out.hostIpEncode_rsp).headD ⟨0, false⟩, t.frames.length⟩ }

def step (t : ArpNet N) : ArpLabel N → Option (ArpNet N)
  | .word w => some { t with dataIn := t.dataIn ++ [w] }
  | .lookup client query_ip => some (t.callLookup client query_ip)
  | .processArpPkg myIpAddress => some (t.callProcess myIpAddress)
  | .arpTable => some t.callTable

/-- A packet that ends with a reply to the local host in the header register is complete, and an entry that
is used is for the address that is looked up. -/
def trusted (t : ArpNet N) : ArpLabel N → Bool
  | .processArpPkg myIpAddress =>
    match t.dataIn with
    | w :: _ =>
      let header : Header := (t.parser.header.parseWord w.data).header
      !w.last || !(header.isReply && header.getTargetProtoAddr == myIpAddress) ||
        Frame.complete (t.words ++ [w])
    | [] => true
  | .arpTable => t.next.all fun q => !(t.arpTable (slot q.2)).valid || (t.arpTable (slot q.2)).ipAddress == q.2
  | _ => true

/-- Every hit is the latest reply of the address, every miss asks for the address, and the lookups of each
client are answered once and in order. -/
structure Answered (t : ArpNet N) : Prop where
  hits : ∀ q ∈ t.lookups, q.reply.hit = true →
    latestReply (t.frames.take q.seen) q.query_ip = some q.reply.macAddress
  misses : t.sent.arpRequestMetaFifo = (t.lookups.filter fun q => !q.reply.hit).map (·.query_ip)
  asked : ∀ c, t.asked c = (t.lookups.filter (·.client = c)).map (·.query_ip) ++ t.waiting c
  answers : ∀ c, t.answers c = (t.lookups.filter (·.client = c)).map (·.reply)

end ArpNet

/-! ## Frames and the header register -/

theorem complete_length {ws : List (AxiWord N)} (h : Frame.complete ws = true) :
    ARP_HEADER_SIZE ≤ ws.length * (8 * N) := by
  have h41 : (ws[41 / N]?.any fun w => w.keep.getLsbD (41 % N)) = true :=
    List.all_eq_true.mp h 41 (by decide)
  obtain ⟨w, hw, hkeep⟩ := (Option.any_eq_true _ _).mp h41
  -- a word without bytes keeps nothing
  have hN : 0 < N := Nat.lt_of_le_of_lt (Nat.zero_le _) (BitVec.lt_of_getLsbD hkeep)
  have hlt : 41 / N < ws.length := (List.getElem?_eq_some_iff.mp hw).1
  have hbytes : 41 < ws.length * N := (Nat.div_lt_iff_lt_mul hN).mp hlt
  have hbits : ws.length * (8 * N) = 8 * (ws.length * N) := Nat.mul_left_comm _ _ _
  rw [hbits]
  show 336 ≤ 8 * (ws.length * N)
  omega

theorem header_eq {h : PacketHeader (8 * N) ARP_HEADER_SIZE} {f : Frame N}
    (hp : Parsed h (f.words.map (·.data))) (hc : Frame.complete f.words = true) : h.header = f.header := by
  refine hp.header_eq ?_
  rw [List.length_map]
  exact complete_length hc

-- What a packet inserts when it is complete or says that it is no reply to the local host.
theorem sender_eq {h : PacketHeader (8 * N) ARP_HEADER_SIZE} {f : Frame N}
    (hp : Parsed h (f.words.map (·.data)))
    (hok : (Header.isReply h.header && Header.getTargetProtoAddr h.header == f.myIpAddress) = true →
      Frame.complete f.words = true) :
    f.sender =
      if Header.isReply h.header && Header.getTargetProtoAddr h.header == f.myIpAddress then
        some ⟨Header.getSenderProtoAddr h.header, Header.getSenderHwAddr h.header, true⟩
      else none := by
  unfold Frame.sender
  cases hc : Frame.complete f.words with
  | true =>
    rw [header_eq hp hc, Bool.true_and]
  | false =>
    rw [hc] at hok
    rw [Bool.false_and, Bool.false_and, if_neg Bool.false_ne_true, if_neg fun ha => Bool.false_ne_true (hok ha)]

/-! ## The entries -/

/-- Slot `k` holds the last entry that went there. -/
theorem foldl_insertEntry (es : List ArpTableEntry) (k : BitVec 8) :
    es.foldl insertEntry (fun _ => {}) k = ((es.reverse.find? (slot ·.ipAddress = k)).getD {}) := by
  induction es using List.reverseRecOn with
  | nil => rfl
  | append_singleton es e ih =>
    rw [List.foldl_append, List.reverse_append]
    show insertEntry (es.foldl insertEntry fun _ => {}) e k = _
    by_cases hk : slot e.ipAddress = k
    · simp [insertEntry, ← hk]
    · rw [insertEntry, Function.update_of_ne (Ne.symm hk), ih]
      simp [hk]

theorem find?_of_imp {α : Type} {p q : α → Bool} {l : List α} {x : α} (h : l.find? p = some x) (hx : q x = true)
    (himp : ∀ y, q y = true → p y = true) : l.find? q = some x := by
  obtain ⟨-, before, after, rfl, hbefore⟩ := List.find?_eq_some_iff_append.mp h
  refine List.find?_eq_some_iff_append.mpr ⟨hx, before, after, rfl, ?_⟩
  intro y hy
  have hpy := hbefore y hy
  cases hq : q y with
  | true => simp [himp y hq] at hpy
  | false => rfl

namespace ArpNet

/-! ## Invariant -/

/-- The table is made of the senders so far, up to those that wait to be inserted. -/
def Inserted (t : ArpNet N) : Prop :=
  ∃ es, es ++ t.queues.arpTableInsertFifo = t.frames.filterMap Frame.sender ∧
    t.arpTable = es.foldl insertEntry fun _ => {}

structure Inv (t : ArpNet N) : Prop where
  parsed : Parsed t.parser.header (t.words.map (·.data))
  inserted : Inserted t
  seen : ∀ q ∈ t.lookups, q.seen ≤ t.frames.length
  answered : Answered t

theorem inv_init : Inv ({} : ArpNet N) := by
  refine ⟨parsed_clear (by decide) { header := initialHeader }, ⟨[], rfl, rfl⟩, by simp, ⟨by simp, rfl, ?_, ?_⟩⟩
  · intro c
    cases c <;> rfl
  · intro c
    cases c <;> rfl

variable {t u : ArpNet N}

/-- When nothing waits to be inserted, a valid entry of an address is the latest reply. -/
theorem Inserted.latest (h : Inserted t) (hnone : t.queues.arpTableInsertFifo = []) {ip : BitVec 32}
    (hvalid : (t.arpTable (slot ip)).valid = true) (hip : (t.arpTable (slot ip)).ipAddress = ip) :
    latestReply t.frames ip = some (t.arpTable (slot ip)).macAddress := by
  obtain ⟨es, hes, htable⟩ := h
  rw [hnone, List.append_nil] at hes
  rw [htable, foldl_insertEntry] at hvalid hip ⊢
  unfold latestReply
  rw [← hes]
  cases hf : es.reverse.find? (slot ·.ipAddress = slot ip) with
  | none =>
    rw [hf] at hvalid
    cases hvalid
  | some e =>
    rw [hf] at hip
    have hfirst : es.reverse.find? (·.ipAddress = ip) = some e := by
      refine find?_of_imp hf (decide_eq_true hip) ?_
      intro y hy
      rw [of_decide_eq_true hy]
      exact decide_eq_true rfl
    rw [hfirst]
    rfl

/-! ### Lookups and packets -/

theorem inv_callLookup (h : Inv t) (client : Client) (query_ip : BitVec 32) : Inv (t.callLookup client query_ip) := by
  refine ⟨h.parsed, ?_, h.seen, ⟨h.answered.hits, h.answered.misses, ?_, h.answered.answers⟩⟩
  · cases client <;> exact h.inserted
  · intro c
    have hasked := h.answered.asked c
    unfold callLookup
    cases client <;> cases c <;> simp_all [waiting]

theorem actOn_inserts (s : ProcessArpPkg N) (header : Header) (myIpAddress : BitVec 32) :
    (actOn s header myIpAddress).2.arpTableInsertFifo =
      if header.isReply && header.getTargetProtoAddr == myIpAddress then
        [⟨header.getSenderProtoAddr, header.getSenderHwAddr, true⟩]
      else [] := by
  unfold actOn
  by_cases htarget : header.getTargetProtoAddr = myIpAddress
  · cases hreply : header.isReply with
    | true =>
      have hrequest : header.isRequest = false := by
        simp only [Header.isReply, beq_iff_eq] at hreply
        simp [Header.isRequest, hreply, ARP_OP_REPLY, ARP_OP_REQUEST]
      simp [htarget, hrequest]
    | false => cases hrequest : header.isRequest <;> simp [htarget]
  · simp [htarget]

-- There is no word, or one inside a packet or at its end.
theorem callProcess_cases (myIpAddress : BitVec 32) (t : ArpNet N) :
    t.callProcess myIpAddress = t ∨
    (∃ w rest, t.dataIn = w :: rest ∧ w.last = false ∧ t.callProcess myIpAddress = { t with
      parser := { t.parser with header := t.parser.header.parseWord w.data }
      dataIn := rest, words := t.words ++ [w] }) ∨
    (∃ w rest, ∃ parser : ProcessArpPkg N, ∃ replies, t.dataIn = w :: rest ∧ w.last = true ∧ t.callProcess myIpAddress = { t with
      parser := { parser with header := (t.parser.header.parseWord w.data).clear }
      dataIn := rest, arpReplyMetaFifo := t.arpReplyMetaFifo ++ replies
      queues := { t.queues with
        arpTableInsertFifo := t.queues.arpTableInsertFifo ++
          (actOn t.parser (t.parser.header.parseWord w.data).header myIpAddress).2.arpTableInsertFifo }
      words := [], frames := t.frames ++ [⟨t.words ++ [w], myIpAddress⟩] }) := by
  unfold callProcess Arp.processArpPkg
  cases hin : t.dataIn with
  | nil =>
    left
    rfl
  | cons w rest =>
    right
    cases hlast : w.last with
    | false =>
      left
      exact ⟨w, rest, rfl, hlast, by simp [hlast]⟩
    | true =>
      right
      exact ⟨w, rest, (actOn t.parser (t.parser.header.parseWord w.data).header myIpAddress).1,
        (actOn t.parser (t.parser.header.parseWord w.data).header myIpAddress).2.arpReplyMetaFifo, rfl, hlast,
        by simp [hlast]⟩

theorem inv_callProcess (h : Inv t) {myIpAddress : BitVec 32}
    (hok : t.trusted (.processArpPkg myIpAddress) = true) : Inv (t.callProcess myIpAddress) := by
  have hparsed (w : AxiWord N) : Parsed (t.parser.header.parseWord w.data) ((t.words ++ [w]).map (·.data)) := by
    rw [List.map_append]
    exact h.parsed.parseWord w.data
  rcases callProcess_cases myIpAddress t with hu | ⟨w, rest, hin, hlast, hu⟩ | ⟨w, rest, parser, replies, hin, hlast, hu⟩
  · rw [hu]
    exact h
  · rw [hu]
    refine ⟨hparsed w, h.inserted, h.seen, ⟨h.answered.hits, h.answered.misses, ?_, h.answered.answers⟩⟩
    intro c
    have hasked := h.answered.asked c
    cases c <;> exact hasked
  · have hsender := sender_eq (f := ⟨t.words ++ [w], myIpAddress⟩) (hparsed w) (by
      intro ha
      simpa [trusted, hin, hlast, ha] using hok)
    rw [hu]
    refine ⟨parsed_clear (by decide) _, ?_, ?_, ⟨?_, h.answered.misses, ?_, h.answered.answers⟩⟩
    · obtain ⟨es, hes, htable⟩ := h.inserted
      refine ⟨es, ?_, htable⟩
      show es ++ (t.queues.arpTableInsertFifo ++ _) = (t.frames ++ [_]).filterMap Frame.sender
      rw [List.filterMap_append, ← hes, List.append_assoc, actOn_inserts, List.filterMap_cons, hsender]
      split <;> rfl
    · intro q hq
      refine (h.seen q hq).trans ?_
      show t.frames.length ≤ (t.frames ++ [_]).length
      rw [List.length_append]
      exact Nat.le_add_right _ _
    · intro q hq hhit
      show latestReply ((t.frames ++ [_]).take q.seen) q.query_ip = _
      rw [List.take_append_of_le_length (h.seen q hq)]
      exact h.answered.hits q hq hhit
    · intro c
      have hasked := h.answered.asked c
      cases c <;> exact hasked

-- An entry is inserted, a lookup is answered, or there is nothing to do.
theorem callTable_cases (t : ArpNet N) :
    (∃ e rest, t.queues.arpTableInsertFifo = e :: rest ∧
      t.callTable = { t with
        arpTable := insertEntry t.arpTable e, queues := { t.queues with arpTableInsertFifo := rest } }) ∨
    (∃ ip rest, t.queues.arpTableInsertFifo = [] ∧ t.next = some (.mac, ip) ∧ t.queues.macIpEncode_req = ip :: rest ∧
      t.callTable = { t with
        queues := { t.queues with macIpEncode_req := rest }
        sent := { t.sent with
          macIpEncode_rsp := t.sent.macIpEncode_rsp ++ [reply t.arpTable ip]
          arpRequestMetaFifo := t.sent.arpRequestMetaFifo ++ ask t.arpTable ip }
        lookups := t.lookups ++ [⟨.mac, ip, reply t.arpTable ip, t.frames.length⟩] }) ∨
    (∃ ip rest, t.queues.arpTableInsertFifo = [] ∧ t.next = some (.host, ip) ∧
      t.queues.hostIpEncode_req = ip :: rest ∧
      t.callTable = { t with
        queues := { t.queues with hostIpEncode_req := rest }
        sent := { t.sent with
          hostIpEncode_rsp := t.sent.hostIpEncode_rsp ++ [reply t.arpTable ip]
          arpRequestMetaFifo := t.sent.arpRequestMetaFifo ++ ask t.arpTable ip }
        lookups := t.lookups ++ [⟨.host, ip, reply t.arpTable ip, t.frames.length⟩] }) ∨
    t.callTable = t := by
  unfold callTable Arp.arpTable next
  cases hins : t.queues.arpTableInsertFifo with
  | cons e rest =>
    left
    exact ⟨e, rest, rfl, by simp⟩
  | nil =>
    right
    cases hmac : t.queues.macIpEncode_req with
    | cons ip rest =>
      left
      exact ⟨ip, rest, rfl, rfl, rfl, by simp [hins]⟩
    | nil =>
      right
      cases hhost : t.queues.hostIpEncode_req with
      | cons ip rest =>
        left
        exact ⟨ip, rest, rfl, rfl, rfl, by simp [hins, hmac]⟩
      | nil =>
        right
        simp

section answer

variable {client : Client} {ip : BitVec 32}

def lookup (client : Client) (ip : BitVec 32) (t : ArpNet N) : Lookup := ⟨client, ip, reply t.arpTable ip, t.frames.length⟩

theorem Inv.hits_lookup (h : Inv t) (client : Client) (hnone : t.queues.arpTableInsertFifo = [])
    (hentry : (t.arpTable (slot ip)).valid = true → (t.arpTable (slot ip)).ipAddress = ip) :
    ∀ q ∈ t.lookups ++ [t.lookup client ip], q.reply.hit = true →
      latestReply (t.frames.take q.seen) q.query_ip = some q.reply.macAddress := by
  intro q hq hhit
  rcases List.mem_append.mp hq with hq | hq
  · exact h.answered.hits q hq hhit
  · rw [List.mem_singleton.mp hq] at hhit ⊢
    have hvalid : (t.arpTable (slot ip)).valid = true := hhit
    show latestReply (t.frames.take t.frames.length) ip = some (t.arpTable (slot ip)).macAddress
    rw [List.take_length]
    exact h.inserted.latest hnone hvalid (hentry hvalid)

theorem Inv.misses_lookup (h : Inv t) (client : Client) :
    t.sent.arpRequestMetaFifo ++ ask t.arpTable ip =
      ((t.lookups ++ [t.lookup client ip]).filter fun q => !q.reply.hit).map (·.query_ip) := by
  rw [h.answered.misses, List.filter_append, List.map_append]
  congr 1
  cases hvalid : (t.arpTable (slot ip)).valid <;> simp [ask, lookup, reply, hvalid]

theorem Inv.seen_lookup (h : Inv t) (client : Client) : ∀ q ∈ t.lookups ++ [t.lookup client ip], q.seen ≤ t.frames.length := by
  intro q hq
  rcases List.mem_append.mp hq with hq | hq
  · exact h.seen q hq
  · rw [List.mem_singleton.mp hq]
    exact Nat.le_refl _

end answer

theorem inv_callTable (h : Inv t) (hok : t.trusted .arpTable = true) : Inv t.callTable := by
  rcases callTable_cases t with ⟨e, rest, hins, hu⟩ | ⟨ip, rest, hnone, hnext, hq, hu⟩ |
    ⟨ip, rest, hnone, hnext, hq, hu⟩ | hu
  · rw [hu]
    refine ⟨h.parsed, ?_, h.seen, ⟨h.answered.hits, h.answered.misses, ?_, h.answered.answers⟩⟩
    · obtain ⟨es, hes, htable⟩ := h.inserted
      refine ⟨es ++ [e], ?_, ?_⟩
      · rw [← hes, hins, List.append_assoc]
        rfl
      · show insertEntry t.arpTable e = _
        rw [List.foldl_append, htable]
        rfl
    · intro c
      have hasked := h.answered.asked c
      cases c <;> exact hasked
  · have hentry : (t.arpTable (slot ip)).valid = true → (t.arpTable (slot ip)).ipAddress = ip := by
      intro hvalid
      simpa [trusted, hnext, hvalid] using hok
    rw [hu]
    refine ⟨h.parsed, h.inserted, h.seen_lookup .mac,
      ⟨h.hits_lookup .mac hnone hentry, h.misses_lookup .mac, ?_, ?_⟩⟩
    · intro c
      have hasked := h.answered.asked c
      cases c with
      | mac => simpa [waiting, hq] using hasked
      | host => simpa [waiting] using hasked
    · intro c
      have hanswers := h.answered.answers c
      cases c with
      | mac | host => simpa [answers] using hanswers
  · have hentry : (t.arpTable (slot ip)).valid = true → (t.arpTable (slot ip)).ipAddress = ip := by
      intro hvalid
      simpa [trusted, hnext, hvalid] using hok
    rw [hu]
    refine ⟨h.parsed, h.inserted, h.seen_lookup .host,
      ⟨h.hits_lookup .host hnone hentry, h.misses_lookup .host, ?_, ?_⟩⟩
    · intro c
      have hasked := h.answered.asked c
      cases c with
      | mac => simpa [waiting] using hasked
      | host => simpa [waiting, hq] using hasked
    · intro c
      have hanswers := h.answered.answers c
      cases c with
      | mac | host => simpa [answers] using hanswers
  · rw [hu]
    exact h

theorem inv_step {l : ArpLabel N} (h : Inv t) (hok : t.trusted l = true) (hu : step t l = some u) : Inv u := by
  cases l with
  | word w =>
    cases hu
    exact { h with answered := ⟨h.answered.hits, h.answered.misses, h.answered.asked, h.answered.answers⟩ }
  | lookup client query_ip =>
    cases hu
    exact inv_callLookup h client query_ip
  | processArpPkg myIpAddress =>
    cases hu
    exact inv_callProcess h hok
  | arpTable =>
    cases hu
    exact inv_callTable h hok

/-- Every hit is the latest complete reply of the address that is looked up, every miss asks for it, and each
client has its lookups answered once and in order, in every run in which no incomplete packet leaves a reply to
the local host in the header register and no lookup finds the entry of another address. -/
theorem lookups_answered (h : Reach step (fun t l => t.trusted l = true) ({} : ArpNet N) t) : Answered t :=
  (h.invariant (P := Inv) inv_init fun _ _ _ hu hok hs => inv_step hu hok hs).answered

/-! ### Two runs with words of eight bytes -/

/-- A reply of 42 bytes to the address 7, from the hardware address that `hw` and four zero bytes make. -/
def replyWords (ip : BitVec 32) (hw : BitVec 16) : List (AxiWord 8) :=
  [⟨0, 0xff, false⟩, ⟨0, 0xff, false⟩, ⟨(hw ++ ARP_OP_REPLY ++ (0 : BitVec 32)), 0xff, false⟩,
    ⟨(ip ++ (0 : BitVec 32)), 0xff, false⟩, ⟨0x0007000000000000, 0xff, false⟩, ⟨0, 0x03, true⟩]

/-- The first words of a reply, and the last of them ends the packet. -/
def runtWords (hw : BitVec 16) : List (AxiWord 8) :=
  [⟨0, 0xff, false⟩, ⟨0, 0xff, false⟩, ⟨(hw ++ ARP_OP_REPLY ++ (0 : BitVec 32)), 0xff, true⟩]

def receive (ws : List (AxiWord 8)) : List (ArpLabel 8) := ws.flatMap fun w => [.word w, .processArpPkg 7]

-- The second client is told the address of the reply, and the first one is told to wait for another.
theorem lookups_answered_two : ∃ t : ArpNet 8, Reach step (fun t l => t.trusted l = true) {} t ∧ Answered t ∧
    t.sent.macIpEncode_rsp = [⟨0, false⟩] ∧ t.sent.arpRequestMetaFifo = [5] ∧
    t.sent.hostIpEncode_rsp = [⟨0x21, true⟩] := by
  have hrun : (runIf step (fun t l => t.trusted l = true) ({} : ArpNet 8)
      (receive (replyWords 0x09000001 0x21) ++ [.lookup .host 0x09000001, .lookup .mac 5, .arpTable, .arpTable,
        .arpTable])).map (fun t => (t.sent.macIpEncode_rsp, t.sent.arpRequestMetaFifo, t.sent.hostIpEncode_rsp)) =
      some ([⟨0, false⟩], [5], [⟨0x21, true⟩]) := by
    decide +kernel
  obtain ⟨t, ht, hmap⟩ := Option.map_eq_some_iff.mp hrun
  obtain ⟨hmac, hrest⟩ := Prod.mk.inj hmap
  obtain ⟨hask, hhost⟩ := Prod.mk.inj hrest
  exact ⟨t, reach_of_runIf ht, lookups_answered (reach_of_runIf ht), hmac, hask, hhost⟩

-- The rest of the reply before makes the short packet an answer that nobody sent.
theorem runt_answered : ∃ t : ArpNet 8, Reach step anyStep {} t ∧
    t.frames.filterMap Frame.sender = [⟨0x09000001, 0x21, true⟩] ∧
    t.sent.hostIpEncode_rsp = [⟨0x22, true⟩] ∧ ¬Answered t := by
  have hrun : (run step ({} : ArpNet 8)
      (receive (replyWords 0x09000001 0x21) ++ receive (runtWords 0x22) ++
        [.lookup .host 0x09000001, .arpTable, .arpTable, .arpTable])).map
        (fun t => (t.frames.filterMap Frame.sender, t.sent.hostIpEncode_rsp, t.lookups.any fun q =>
          q.reply.hit && latestReply (t.frames.take q.seen) q.query_ip != some q.reply.macAddress)) =
      some ([⟨0x09000001, 0x21, true⟩], [⟨0x22, true⟩], true) := by
    decide +kernel
  obtain ⟨t, ht, hmap⟩ := Option.map_eq_some_iff.mp hrun
  obtain ⟨hframes, hrest⟩ := Prod.mk.inj hmap
  obtain ⟨hhost, hany⟩ := Prod.mk.inj hrest
  refine ⟨t, reach_of_run ht, hframes, hhost, fun h => ?_⟩
  obtain ⟨q, hq, hwrong⟩ := List.any_eq_true.mp hany
  rw [Bool.and_eq_true] at hwrong
  rw [h.hits q hq hwrong.1] at hwrong
  simp at hwrong

end ArpNet

end FpgaNetworkStack.Arp
