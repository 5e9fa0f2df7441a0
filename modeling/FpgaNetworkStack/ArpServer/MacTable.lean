import FpgaNetworkStack.Lib.Reach
import Mathlib.Data.List.Basic

/-!
# Lookups and updates of the MAC table (`arp_server.cpp`)

The table itself is outside: it answers the lookups and the updates, each of them once and in order, and when it does so is
open.  `arp_table` asks it and remembers in its state what it waits for.
-/

namespace FpgaNetworkStack.ArpServer

open Lib

structure ArpTableEntry where
  macAddress : BitVec 48
  ipAddress : BitVec 32
  valid : BitVec 1
  deriving DecidableEq

structure ArpTableReply where
  macAddress : BitVec 48
  hit : Bool
  deriving DecidableEq

structure RtlMacLookupRequest where
  source : BitVec 1
  key : BitVec 32
  deriving DecidableEq

structure RtlMacUpdateRequest where
  source : BitVec 1
  op : BitVec 1
  value : BitVec 48
  key : BitVec 32
  deriving DecidableEq

structure RtlMacLookupReply where
  hit : BitVec 1
  value : BitVec 48
  deriving DecidableEq

structure RtlMacUpdateReply where
  source : BitVec 1
  op : BitVec 1
  value : BitVec 48
  deriving DecidableEq

/-! ## `arp_table` -/

inductive AState where
  | ARP_IDLE | ARP_UPDATE | ARP_LOOKUP
  deriving DecidableEq, Repr

structure ArpTable where
  arpState : AState := .ARP_IDLE
  at_inputIP : BitVec 32 := 0

structure ArpTableIn where
  arpTableInsertFifo : List ArpTableEntry := []
  macIpEncode_req : List (BitVec 32) := []
  macLookup_resp : List RtlMacLookupReply := []
  macUpdate_resp : List RtlMacUpdateReply := []

structure ArpTableOut where
  macIpEncode_rsp : List ArpTableReply := []
  arpRequestMetaFifo : List (BitVec 32) := []
  macLookup_req : List RtlMacLookupRequest := []
  macUpdate_req : List RtlMacUpdateRequest := []

/-- The first half of `ARP_IDLE`. -/
def startUpdate (s : ArpTable) (i : ArpTableIn) : ArpTable × ArpTableIn × List RtlMacUpdateRequest :=
  match i.arpTableInsertFifo with
  | [] => (s, i, [])
  | queryResult :: rest =>
    ({ s with arpState := .ARP_UPDATE }, { i with arpTableInsertFifo := rest },
      [⟨0, 0, queryResult.macAddress, queryResult.ipAddress⟩])

/-- The second half, which overwrites the state that the first one has set. -/
def startLookup (s : ArpTable) (i : ArpTableIn) : ArpTable × ArpTableIn × List RtlMacLookupRequest :=
  match i.macIpEncode_req with
  | [] => (s, i, [])
  | ip :: rest => (⟨.ARP_LOOKUP, ip⟩, { i with macIpEncode_req := rest }, [⟨0, ip⟩])

def RtlMacLookupReply.toReply (r : RtlMacLookupReply) : ArpTableReply := ⟨r.value, r.hit == 1⟩

def arpTable (s : ArpTable) (i : ArpTableIn) : ArpTable × ArpTableIn × ArpTableOut :=
  match s.arpState with
  | .ARP_IDLE =>
    let (s, i, updates) := startUpdate s i
    let (s, i, lookups) := startLookup s i
    (s, i, { macUpdate_req := updates, macLookup_req := lookups })
  | .ARP_UPDATE =>
    match i.macUpdate_resp with
    | [] => (s, i, {})
    | _ :: rest => ({ s with arpState := .ARP_IDLE }, { i with macUpdate_resp := rest }, {})
  | .ARP_LOOKUP =>
    match i.macLookup_resp with
    | [] => (s, i, {})
    | tempReply :: rest =>
      ({ s with arpState := .ARP_IDLE }, { i with macLookup_resp := rest },
        { macIpEncode_rsp := [tempReply.toReply]
          arpRequestMetaFifo := if tempReply.hit = 0 then [s.at_inputIP] else [] })

/-! ## The table and its clients -/

structure TableNet where
  table : ArpTable := {}
  queues : ArpTableIn := {}
  macLookup_req : List RtlMacLookupRequest := []
  macUpdate_req : List RtlMacUpdateRequest := []
  macIpEncode_rsp : List ArpTableReply := []
  arpRequestMetaFifo : List (BitVec 32) := []
  /-- The addresses that were asked for, and the answers of the MAC table, each with the key it is for. -/
  asked : List (BitVec 32) := []
  found : List (BitVec 32 × RtlMacLookupReply) := []
  /-- The updates that were issued, and how many of their responses were read. -/
  issued : List RtlMacUpdateRequest := []
  consumed : Nat := 0

inductive TableLabel where
  | insert (entry : ArpTableEntry)
  | request (ip : BitVec 32)
  | arpTable
  /-- The MAC table answers. -/
  | answerLookup (reply : RtlMacLookupReply)
  | answerUpdate (reply : RtlMacUpdateReply)

namespace TableNet

def callTable (t : TableNet) : TableNet :=
  let (table, queues, out) := ArpServer.arpTable t.table t.queues
  { t with
    table, queues
    macLookup_req := t.macLookup_req ++ out.macLookup_req
    macUpdate_req := t.macUpdate_req ++ out.macUpdate_req
    macIpEncode_rsp := t.macIpEncode_rsp ++ out.macIpEncode_rsp
    arpRequestMetaFifo := t.arpRequestMetaFifo ++ out.arpRequestMetaFifo
    issued := t.issued ++ out.macUpdate_req
    consumed := t.consumed + (t.queues.macUpdate_resp.length - queues.macUpdate_resp.length) }

def step (t : TableNet) : TableLabel → Option TableNet
  | .insert entry => some { t with queues.arpTableInsertFifo := t.queues.arpTableInsertFifo ++ [entry] }
  | .request ip => some { t with queues.macIpEncode_req := t.queues.macIpEncode_req ++ [ip], asked := t.asked ++ [ip] }
  | .arpTable => some t.callTable
  | .answerLookup reply =>
    match t.macLookup_req with
    | [] => none
    | request :: rest =>
      some { t with
        macLookup_req := rest
        queues.macLookup_resp := t.queues.macLookup_resp ++ [reply]
        found := t.found ++ [(request.key, reply)] }
  | .answerUpdate reply =>
    match t.macUpdate_req with
    | [] => none
    | _ :: rest =>
      some { t with macUpdate_req := rest, queues.macUpdate_resp := t.queues.macUpdate_resp ++ [reply] }

/-- Updates and lookups are kept apart: at most one update has a response that was not read, and each response to a lookup
becomes one reply, for the address that was asked for. -/
structure Balanced (t : TableNet) : Prop where
  updates : t.issued.length ≤ t.consumed + 1
  unreadUpdates : t.queues.macUpdate_resp.length ≤ 1
  unreadLookups : t.queues.macLookup_resp.length ≤ 1
  replies : t.macIpEncode_rsp ++ t.queues.macLookup_resp.map (·.toReply) = t.found.map (·.2.toReply)
  keys : t.asked = t.found.map (·.1) ++ t.macLookup_req.map (·.key) ++ t.queues.macIpEncode_req
  misses : ∃ waiting, waiting.length = (t.queues.macLookup_resp.filter (·.hit = 0)).length ∧
    t.arpRequestMetaFifo ++ waiting = (t.found.filter (·.2.hit = 0)).map (·.1)

/-- The table does not find an entry and a request at once. -/
def oneAtATime (t : TableNet) : TableLabel → Bool
  | .arpTable =>
    t.table.arpState != .ARP_IDLE || t.queues.arpTableInsertFifo.isEmpty || t.queues.macIpEncode_req.isEmpty
  | _ => true

/-! ## Invariant -/

/-- What is on its way to the MAC table or back is what the state waits for. -/
structure Inv (t : TableNet) : Prop where
  updates : t.macUpdate_req.length + t.queues.macUpdate_resp.length = if t.table.arpState = .ARP_UPDATE then 1 else 0
  lookups : t.macLookup_req.length + t.queues.macLookup_resp.length = if t.table.arpState = .ARP_LOOKUP then 1 else 0
  issued : t.issued.length = t.consumed + (t.macUpdate_req.length + t.queues.macUpdate_resp.length)
  inputIP : ∀ r ∈ t.macLookup_req, r.key = t.table.at_inputIP
  replies : t.macIpEncode_rsp ++ t.queues.macLookup_resp.map (·.toReply) = t.found.map (·.2.toReply)
  keys : t.asked = t.found.map (·.1) ++ t.macLookup_req.map (·.key) ++ t.queues.macIpEncode_req
  misses : t.arpRequestMetaFifo ++ (t.queues.macLookup_resp.filter (·.hit = 0)).map (fun _ => t.table.at_inputIP) =
    (t.found.filter (·.2.hit = 0)).map (·.1)

theorem inv_init : Inv {} := by
  refine ⟨rfl, rfl, rfl, ?_, rfl, rfl, rfl⟩
  intro r hr
  exact absurd hr List.not_mem_nil

variable {t u : TableNet}

theorem Inv.balanced (h : Inv t) : Balanced t := by
  have hupdates := h.updates
  have hlookups := h.lookups
  refine ⟨?_, ?_, ?_, h.replies, h.keys, ⟨_, List.length_map _, h.misses⟩⟩
  · rw [h.issued, hupdates]
    split <;> omega
  · split at hupdates <;> omega
  · split at hlookups <;> omega

theorem inv_answerLookup (h : Inv t) (reply : RtlMacLookupReply) (hu : step t (.answerLookup reply) = some u) : Inv u := by
  cases hreq : t.macLookup_req with
  | nil =>
    rw [step, hreq] at hu
    cases hu
  | cons request rest =>
    rw [step, hreq] at hu
    cases hu
    have hlookups := h.lookups
    have hkeys := h.keys
    have hkey : request.key = t.table.at_inputIP := h.inputIP request (by rw [hreq]; exact List.mem_cons_self)
    rw [hreq, List.length_cons] at hlookups
    rw [hreq, List.map_cons] at hkeys
    refine ⟨h.updates, ?_, h.issued, ?_, ?_, ?_, ?_⟩
    · rw [← hlookups]
      simp only [List.length_append, List.length_singleton]
      omega
    · intro r hr
      exact h.inputIP r (by rw [hreq]; exact List.mem_cons_of_mem _ hr)
    · simp only [List.map_append, List.map_singleton]
      rw [← List.append_assoc, h.replies]
    · simp only [List.map_append, List.map_singleton, hkeys, List.append_assoc, List.cons_append, List.nil_append]
    · simp only [List.filter_append, List.map_append, ← h.misses, List.append_assoc]
      by_cases hmiss : reply.hit = 0
      · simp [hmiss, hkey]
      · have hnone : [reply].filter (·.hit = 0) = [] := List.filter_cons_of_neg (by rw [decide_eq_true_eq]; exact hmiss)
        have hnone' : [(request.key, reply)].filter (·.2.hit = 0) = [] :=
          List.filter_cons_of_neg (by rw [decide_eq_true_eq]; exact hmiss)
        rw [hnone, hnone', List.map_nil, List.map_nil]

theorem inv_answerUpdate (h : Inv t) (reply : RtlMacUpdateReply) (hu : step t (.answerUpdate reply) = some u) : Inv u := by
  cases hreq : t.macUpdate_req with
  | nil =>
    rw [step, hreq] at hu
    cases hu
  | cons request rest =>
    rw [step, hreq] at hu
    cases hu
    have hupdates := h.updates
    have hissued := h.issued
    rw [hreq, List.length_cons] at hupdates hissued
    refine { h with updates := ?_, issued := ?_ }
    · rw [← hupdates]
      simp only [List.length_append, List.length_singleton]
      omega
    · rw [hissued]
      simp only [List.length_append, List.length_singleton]
      omega

theorem Inv.idle (h : Inv t) (hs : t.table.arpState = .ARP_IDLE) :
    (t.macUpdate_req = [] ∧ t.queues.macUpdate_resp = []) ∧ t.macLookup_req = [] ∧ t.queues.macLookup_resp = [] := by
  have hupdates := h.updates
  have hlookups := h.lookups
  rw [hs, if_neg (by decide), Nat.add_eq_zero_iff] at hupdates hlookups
  exact ⟨hupdates.imp List.length_eq_zero_iff.mp List.length_eq_zero_iff.mp,
    hlookups.imp List.length_eq_zero_iff.mp List.length_eq_zero_iff.mp⟩

theorem callTable_nothing (h : ArpServer.arpTable t.table t.queues = (t.table, t.queues, {})) : t.callTable = t := by
  simp [callTable, h]

theorem inv_callTable (h : Inv t) (hone : oneAtATime t .arpTable = true) : Inv t.callTable := by
  obtain ⟨⟨state, inputIP⟩, ⟨inserts, requests, lookupResps, updateResps⟩, lookupReqs, updateReqs, rsps, asks, asked, found,
    issued, consumed⟩ := t
  cases state with
  | ARP_IDLE =>
    obtain ⟨⟨rfl, rfl⟩, rfl, rfl⟩ := h.idle rfl
    cases inserts with
    | nil =>
      cases requests with
      | nil =>
        rw [callTable_nothing rfl]
        exact h
      | cons ip requests =>
        have hcall : callTable ⟨⟨.ARP_IDLE, inputIP⟩, ⟨[], ip :: requests, [], []⟩, [], [], rsps, asks, asked, found,
            issued, consumed⟩ = ⟨⟨.ARP_LOOKUP, ip⟩, ⟨[], requests, [], []⟩, [⟨0, ip⟩], [], rsps, asks, asked, found,
              issued, consumed⟩ := by
          simp [callTable, ArpServer.arpTable, startUpdate, startLookup]
        rw [hcall]
        refine ⟨h.updates, rfl, h.issued, ?_, h.replies, ?_, h.misses⟩
        · intro r hr
          rw [List.mem_singleton.mp hr]
        · show asked = found.map (·.1) ++ [ip] ++ requests
          rw [List.append_assoc]
          exact h.keys.trans (congrArg (· ++ ip :: requests) (List.append_nil _))
    | cons entry inserts =>
      -- no request waits
      cases requests with
      | nil =>
        have hcall : callTable ⟨⟨.ARP_IDLE, inputIP⟩, ⟨entry :: inserts, [], [], []⟩, [], [], rsps, asks, asked, found,
            issued, consumed⟩ = ⟨⟨.ARP_UPDATE, inputIP⟩, ⟨inserts, [], [], []⟩, [],
              [⟨0, 0, entry.macAddress, entry.ipAddress⟩], rsps, asks, asked, found,
              issued ++ [⟨0, 0, entry.macAddress, entry.ipAddress⟩], consumed⟩ := by
          simp [callTable, ArpServer.arpTable, startUpdate, startLookup]
        rw [hcall]
        refine { h with updates := rfl, issued := ?_ }
        rw [List.length_append, List.length_singleton]
        exact congrArg (· + 1) h.issued
      | cons ip requests => cases hone
  | ARP_UPDATE =>
    cases updateResps with
    | nil =>
      rw [callTable_nothing rfl]
      exact h
    | cons r rest =>
      have hcall : callTable ⟨⟨.ARP_UPDATE, inputIP⟩, ⟨inserts, requests, lookupResps, r :: rest⟩, lookupReqs, updateReqs,
          rsps, asks, asked, found, issued, consumed⟩ = ⟨⟨.ARP_IDLE, inputIP⟩, ⟨inserts, requests, lookupResps, rest⟩,
            lookupReqs, updateReqs, rsps, asks, asked, found, issued, consumed + 1⟩ := by
        simp [callTable, ArpServer.arpTable]
      have hupdates : updateReqs.length + (rest.length + 1) = 1 := h.updates
      have hissued : issued.length = consumed + (updateReqs.length + (rest.length + 1)) := h.issued
      rw [hcall]
      refine { h with updates := ?_, issued := ?_ }
      · show updateReqs.length + rest.length = 0
        omega
      · show issued.length = consumed + 1 + (updateReqs.length + rest.length)
        omega
  | ARP_LOOKUP =>
    cases lookupResps with
    | nil =>
      rw [callTable_nothing rfl]
      exact h
    | cons r rest =>
      have hcall : callTable ⟨⟨.ARP_LOOKUP, inputIP⟩, ⟨inserts, requests, r :: rest, updateResps⟩, lookupReqs, updateReqs,
          rsps, asks, asked, found, issued, consumed⟩ = ⟨⟨.ARP_IDLE, inputIP⟩, ⟨inserts, requests, rest, updateResps⟩,
            lookupReqs, updateReqs, rsps ++ [r.toReply], asks ++ (if r.hit = 0 then [inputIP] else []), asked, found,
            issued, consumed⟩ := by
        simp [callTable, ArpServer.arpTable]
      have hlookups : lookupReqs.length + (rest.length + 1) = 1 := h.lookups
      rw [hcall]
      refine ⟨h.updates, ?_, h.issued, h.inputIP, ?_, h.keys, ?_⟩
      · show lookupReqs.length + rest.length = 0
        omega
      · rw [← h.replies, List.append_assoc]
        rfl
      · rw [← h.misses, List.append_assoc]
        show asks ++ _ = asks ++ ((r :: rest).filter (·.hit = 0)).map fun _ => inputIP
        by_cases hmiss : r.hit = 0
        · rw [if_pos hmiss, List.filter_cons_of_pos (by rw [decide_eq_true_eq]; exact hmiss)]
          rfl
        · rw [if_neg hmiss, List.filter_cons_of_neg (by rw [decide_eq_true_eq]; exact hmiss)]
          rfl

theorem inv_step (h : Inv t) {a : TableLabel} (hone : oneAtATime t a = true) (hu : step t a = some u) : Inv u := by
  cases a with
  | insert entry =>
    cases hu
    exact { h with }
  | request ip =>
    cases hu
    refine { h with keys := ?_ }
    show t.asked ++ [ip] = _
    rw [h.keys, List.append_assoc]
  | arpTable =>
    cases hu
    exact inv_callTable h hone
  | answerLookup reply => exact inv_answerLookup h reply hu
  | answerUpdate reply => exact inv_answerUpdate h reply hu

/-- In a run in which the table never finds an entry and a request at once, the bookkeeping is right. -/
theorem balanced_run (h : Reach step (fun t a => oneAtATime t a = true) {} t) : Balanced t :=
  (h.invariant inv_init fun _ _ _ hi hone hs => inv_step hi hone hs).balanced

/-- An update and a lookup, one after the other. -/
def apart : List TableLabel :=
  [.insert ⟨1, 2, 1⟩, .arpTable, .answerUpdate ⟨0, 0, 0⟩, .arpTable, .request 2, .arpTable, .answerLookup ⟨1, 1⟩, .arpTable]

theorem balanced_apart :
    (runIf step (fun t a => oneAtATime t a = true) {} apart).isSome = true ∧
      ∀ t, runIf step (fun t a => oneAtATime t a = true) {} apart = some t → Balanced t :=
  ⟨rfl, fun _ ht => balanced_run (reach_of_runIf ht)⟩

/-- An entry and a request that come together, and another entry: its update goes out with a response left unread. -/
def together : List TableLabel :=
  [.insert ⟨1, 2, 1⟩, .request 3, .arpTable, .answerLookup ⟨0, 0⟩, .answerUpdate ⟨0, 0, 0⟩, .arpTable, .insert ⟨4, 5, 1⟩,
    .arpTable, .answerUpdate ⟨0, 0, 0⟩]

theorem response_unread : ∃ t, Reach step anyStep {} t ∧ t.queues.macUpdate_resp.length = 2 ∧ ¬Balanced t := by
  obtain ⟨t, ht⟩ : ∃ t, run step {} together = some t := ⟨_, rfl⟩
  have hlen : t.queues.macUpdate_resp.length = 2 := by
    cases ht
    rfl
  refine ⟨t, reach_of_run ht, hlen, fun h => ?_⟩
  have hle := h.unreadUpdates
  omega

end TableNet

end FpgaNetworkStack.ArpServer
