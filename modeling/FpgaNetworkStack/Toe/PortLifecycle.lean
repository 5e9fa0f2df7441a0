import FpgaNetworkStack.Toe.PortTable
import FpgaNetworkStack.Toe.SessionIds
import FpgaNetworkStack.Toe.TxAppIf

/-!
# The way of an ephemeral port

`free_port_table` hands a port out, `tx_app_if` turns it into network byte order and asks for a session, the
session lookup keeps it in the reverse table, and a release sends it back.  A port in use is counted at the
places where it can be.
-/

namespace FpgaNetworkStack.Toe

open Lib

/-! ## The network -/

/-- `opened` and `closed` are the history: the live sessions opened by the application with the port handed
out to each, and the ports of the released sessions whose release the port table has not seen. -/
structure PortNet (w : Nat) where
  sessions : SessionNet w := {}
  ports : FreePortTable := {}
  checkReq : List (BitVec 16) := []
  checkUsed : List (BitVec 15) := []
  app : TxAppIfIn := {}
  opened : List (SessionID × BitVec 16) := []
  closed : List (Option (BitVec 16)) := []

inductive PortLabel where
  | session (l : SessionLabel)
  | openRequest (a : IpTuple)
  | checkPort (p : BitVec 16)
  | openConnection | checkInMultiplexer | freePortTable
  deriving DecidableEq

namespace PortNet

variable {w : Nat}

/-- Depth of `portTable2txApp_port_rsp`. -/
def portDepth : Nat := 4

/-- The session an answer of `lookupReplyHandler` creates for the application, with the number of its port. -/
def opens (t : SessionNet w) : List (SessionID × BitVec 16) :=
  match t.handler.slcFsmState, t.inp.sessionInsertRsp, t.handler.slcInsertTuples with
  | .UPD_RSP, r :: _, tuple :: _ =>
    if r.source = .TX_APP then [(r.sessionID, reverse16 tuple.myPort)] else []
  | _, _, _ => []

/-- The session the next call of `reverseLookupTableInterface` releases. -/
def releases (t : SessionNet w) : Option SessionID :=
  match t.revIn.revTableInserts, t.revIn.stateTable2sLookupReleaseSession with
  | [], id :: _ => if t.rev.tupleValid id then some id else none
  | _, _ => none

/-- The port handed out to a session; none when the peer opened it. -/
def portOf (t : PortNet w) (id : SessionID) : Option (BitVec 16) :=
  (t.opened.find? fun a => a.1 == id).map Prod.snd

/-- The history after a step of the session lookup. -/
def log (t : PortNet w) : SessionLabel → PortNet w
  | .lookupReplyHandler => { t with opened := t.opened ++ opens t.sessions }
  | .reverseLookupTableInterface =>
    match releases t.sessions with
    | none => t
    | some id =>
      { t with
        opened := t.opened.eraseP fun a => a.1 == id
        closed := t.closed ++ [t.portOf id] }
  | _ => t

/-- Requests to the session lookup come from `openConnection` only. -/
def fromOutside : SessionLabel → Bool
  | .txLookup _ => false
  | _ => true

/-- One call of a process, or a request from outside. -/
def step (maxSessions : Nat) (hashes : ThreeTuple → Fin NUM_TABLES → BitVec w) (t : PortNet w) :
    PortLabel → Option (PortNet w)
  | .session l =>
    if fromOutside l then
      (t.sessions.step maxSessions hashes l).map fun sessions => { t.log l with sessions }
    else none
  | .openRequest a => some { t with app := { t.app with appOpenConnReq := t.app.appOpenConnReq ++ [a] } }
  | .checkPort p => some { t with checkReq := t.checkReq ++ [p] }
  | .openConnection =>
    let (app, lookups) := Toe.openConnection 0 t.app
    some { t with
      app
      sessions := { t.sessions with inp := { t.sessions.inp with
        txApp2sLookupReq := t.sessions.inp.txApp2sLookupReq ++ lookups } } }
  | .checkInMultiplexer =>
    let (checkReq, out) := Toe.checkInMultiplexer t.checkReq
    some { t with checkReq, checkUsed := t.checkUsed ++ out.ptPortCheckUsedReqFifo }
  | .freePortTable =>
    let (ports, i, out) := Toe.freePortTable (decide (portDepth ≤ t.app.portTable2txAppPortRsp.length)) t.ports
      ⟨t.sessions.releasePort, t.checkUsed⟩
    some { t with
      ports
      checkUsed := i.ptPortCheckUsedReqFifo
      sessions := { t.sessions with releasePort := i.sLookup2portTableReleasePort }
      app := { t.app with
        portTable2txAppPortRsp := t.app.portTable2txAppPortRsp ++ out.portTable2txAppPortRsp }
      closed := t.closed.drop (t.sessions.releasePort.length - i.sLookup2portTableReleasePort.length) }

/-- A released session whose port reads the same in both byte orders, or that the peer opened at a port whose
swapped number is below 32768. -/
def releasable (t : PortNet w) (id : SessionID) : Bool :=
  let myPort := (t.sessions.rev.reverseLookupTable id).myPort
  match t.portOf id with
  | some _ => reverse16 myPort == myPort
  | none => decide (myPort.toNat < 32768)

/-- A lookup of the application finds no session, and there is an ID for a new one. -/
def creates (t : SessionNet w) : Bool :=
  match t.handler.slcFsmState, t.inp.sessionLookupRsp, t.handler.slcQueryCache with
  | .LUP_RSP, r :: _, q :: _ => q.source != .TX_APP || !r.hit && !t.inp.sessionIdFreeList.isEmpty
  | _, _, _ => true

/-- The step does not lose the port of a session. -/
def keepsPorts (t : PortNet w) : PortLabel → Bool
  | .session .lookupReplyHandler => creates t.sessions
  | .session .reverseLookupTableInterface => (releases t.sessions).all t.releasable
  | _ => true

/-! ## Where a port can be -/

/-- Insertions that are not answered, with the one who asked. -/
def inserting (t : SessionNet w) : List (LookupSource × ThreeTuple) :=
  (t.upd.sessionInsertReq ++ t.tableIn.updReq.filter fun r => r.op == .INSERT).map (fun r => (r.source, r.key)) ++
    ((t.updateRsp.filter fun r => r.op == .INSERT) ++ t.inp.sessionInsertRsp).map fun r => (r.source, r.key)

/-- The port of an insertion for the application. -/
def appPort : LookupSource × ThreeTuple → Option (BitVec 16)
  | (.TX_APP, tuple) => some (reverse16 tuple.myPort)
  | (.RX, _) => none

def waiting (t : PortNet w) : List (BitVec 16) := t.app.portTable2txAppPortRsp

/-- Ports of the sessions that are being opened. -/
def opening (t : SessionNet w) : List (BitVec 16) :=
  t.inp.txApp2sLookupReq.map (fun q => reverse16 q.srcPort) ++
    (t.handler.slcQueryCache.map fun q => (q.source, q.tuple)).filterMap appPort ++
    (inserting t).filterMap appPort

/-- Ports of the table among those on their way back. -/
def freeing (t : SessionNet w) : List (BitVec 16) := t.releasePort.filter fun p => decide (32768 ≤ p.toNat)

def inUse (t : PortNet w) : List (BitVec 16) :=
  waiting t ++ opening t.sessions ++ t.opened.map Prod.snd ++ freeing t.sessions

/-- What `free_port_table` marks free when it gets a port. -/
def tablePort (p : BitVec 16) : Option (BitVec 16) := if 32768 ≤ p.toNat then some p else none

structure Inv (maxSessions : Nat) (hashes : ThreeTuple → Fin NUM_TABLES → BitVec w) (t : PortNet w) : Prop where
  sessions : t.sessions.Inv maxSessions hashes
  -- an answer of the hash table goes to the one whose query is cached
  sources : (t.sessions.inp.sessionLookupRsp.map fun r => r.source) ++
    (t.sessions.tableIn.lupReq.map fun r => r.source) = t.sessions.handler.slcQueryCache.map fun q => q.source
  allowed : ∀ q ∈ t.sessions.handler.slcQueryCache, q.source = .TX_APP → q.allowCreation = true
  ids : (t.opened.map Prod.fst).Nodup
  owned : ∀ a ∈ t.opened, ∃ tuple, t.sessions.HandedOut a.1 tuple ∧ a.2 = reverse16 tuple.myPort
  returned : t.closed = t.sessions.releasePort.map tablePort
  used : ∀ k, (if t.ports.freePortTable k then 1 else 0) = t.inUse.count (ephemeral k)
  range : ∀ p ∈ t.inUse, ∃ k, p = ephemeral k

variable {maxSessions : Nat} {hashes : ThreeTuple → Fin NUM_TABLES → BitVec w} {t u : PortNet w}
  {s : SessionNet w}

/-! ## Steps of the session lookup -/

theorem filterMap_appPort_cons (x : LookupSource × ThreeTuple) (l : List (LookupSource × ThreeTuple)) :
    (x :: l).filterMap appPort = (appPort x).toList ++ l.filterMap appPort := by
  rw [List.filterMap_cons]
  cases appPort x <;> rfl

variable {s' : SessionNet w}

theorem handedOut_of_subset {id : SessionID} {x : ThreeTuple} (hrev : s'.rev = s.rev)
    (hins : s.revIn.revTableInserts ⊆ s'.revIn.revTableInserts) (h : s.HandedOut id x) : s'.HandedOut id x := by
  unfold SessionNet.HandedOut at h ⊢
  rw [hrev]
  exact h.imp_left fun hm => hins hm

theorem Inv.internal (h : Inv maxSessions hashes t) (hs : s.Inv maxSessions hashes)
    (hsrc : (s.inp.sessionLookupRsp.map fun r => r.source) ++ (s.tableIn.lupReq.map fun r => r.source) =
      s.handler.slcQueryCache.map fun q => q.source)
    (hallow : ∀ q ∈ s.handler.slcQueryCache, q.source = .TX_APP → q.allowCreation = true)
    (hout : ∀ id x, t.sessions.HandedOut id x → s.HandedOut id x) (hrel : s.releasePort = t.sessions.releasePort)
    (hopen : (opening s).Perm (opening t.sessions)) : Inv maxSessions hashes { t with sessions := s } := by
  have hperm : (inUse { t with sessions := s }).Perm t.inUse := by
    unfold inUse freeing
    rw [hrel]
    exact ((hopen.append_left _).append_right _).append_right _
  exact { h with
    sessions := hs, sources := hsrc, allowed := hallow
    owned := fun a ha => (h.owned a ha).imp fun x hx => hx.imp_left (hout a.1 x), returned := hrel ▸ h.returned
    used := fun k => (h.used k).trans (hperm.count_eq _).symm
    range := fun p hp => h.range p (hperm.mem_iff.mp hp) }

theorem opening_perm {s s' : SessionNet w} (htx : s'.inp.txApp2sLookupReq = s.inp.txApp2sLookupReq)
    (hcache : s'.handler.slcQueryCache = s.handler.slcQueryCache) (hins : (inserting s').Perm (inserting s)) :
    (opening s').Perm (opening s) := by
  unfold opening
  rw [htx, hcache]
  exact (hins.filterMap _).append_left _

theorem inserting_updateRequestSender (h : s.Inv maxSessions hashes)
    (hs : s.step maxSessions hashes .updateRequestSender = some s') : (inserting s').Perm (inserting s) := by
  simp only [SessionNet.step, Option.some.injEq] at hs
  cases hins : s.upd.sessionInsertReq with
  | cons r rest =>
    simp only [Toe.updateRequestSender, hins, List.append_nil] at hs
    have hop := h.inserts r (by rw [hins]; exact List.mem_cons_self)
    rw [← hs]
    simp only [inserting, hins]
    refine List.Perm.append_right _ (List.Perm.map _ ?_)
    rw [List.filter_append, List.filter_singleton, hop, List.cons_append, ← List.append_assoc]
    exact List.perm_append_singleton _ _
  | nil =>
    cases hdel : s.upd.sessionDeleteReq with
    | nil =>
      simp only [Toe.updateRequestSender, hins, hdel, List.append_nil] at hs
      rw [← hs]
    | cons r rest =>
      simp only [Toe.updateRequestSender, hins, hdel] at hs
      have hop := h.releases r (by rw [hdel]; exact List.mem_cons_self)
      rw [← hs]
      simp [inserting, hins, hop]

theorem inserting_updateReplyHandler
    (hs : s.step maxSessions hashes .updateReplyHandler = some s') : (inserting s').Perm (inserting s) := by
  simp only [SessionNet.step, Option.some.injEq] at hs
  cases hrsp : s.updateRsp with
  | nil =>
    simp only [Toe.updateReplyHandler, hrsp, List.append_nil] at hs
    rw [← hs, ← hrsp]
  | cons r rest =>
    simp only [Toe.updateReplyHandler, hrsp] at hs
    rw [← hs]
    simp only [inserting, hrsp]
    refine List.Perm.append_left _ (List.Perm.map _ ?_)
    rw [List.filter_cons]
    cases hop : r.op with
    | INSERT =>
      simp only [if_true, beq_self_eq_true]
      rw [List.cons_append, ← List.append_assoc]
      exact List.perm_append_singleton _ _
    | DELETE => simp

theorem inserting_hashTable (hs : s.step maxSessions hashes .hashTable = some s') :
    (inserting s').Perm (inserting s) := by
  simp only [SessionNet.step, Option.some.injEq] at hs
  cases hlup : s.tableIn.lupReq with
  | cons r rest =>
    simp only [hashTableCore, hlup, List.append_nil] at hs
    rw [← hs]
    exact List.Perm.refl _
  | nil =>
    cases hupd : s.tableIn.updReq with
    | nil =>
      simp only [hashTableCore, hlup, hupd, List.append_nil] at hs
      rw [← hs]
    | cons r rest =>
      simp only [hashTableCore, hlup, hupd] at hs
      rw [← hs]
      -- an applied insertion is answered next
      simp only [inserting, hupd, List.filter_append, List.filter_cons, List.filter_nil, List.map_append]
      cases hop : r.op with
      | DELETE => simp
      | INSERT =>
        simp only [beq_self_eq_true, if_true, List.map_cons, List.map_nil, List.append_assoc,
          List.cons_append, List.nil_append]
        refine List.Perm.append_left _ ?_
        rw [← List.append_assoc, ← List.append_assoc]
        exact List.perm_middle

theorem log_opened (hst : t.sessions.handler.slcFsmState ≠ .UPD_RSP) : t.log .lookupReplyHandler = t := by
  have hnone : opens t.sessions = [] := by
    unfold opens
    split
    · next hc _ _ => exact absurd hc hst
    · rfl
  rw [log, hnone, List.append_nil]

theorem Inv.ask (h : Inv maxSessions hashes t) (q : SessionLookupQueryInternal) (inp : LookupReplyHandlerIn)
    (hs : s.Inv maxSessions hashes) (hallow : q.source = .TX_APP → q.allowCreation = true)
    (hport : (t.sessions.inp.txApp2sLookupReq.map fun q => reverse16 q.srcPort) =
      (appPort (q.source, q.tuple)).toList ++ inp.txApp2sLookupReq.map fun q => reverse16 q.srcPort)
    (hinp : inp.sessionLookupRsp = t.sessions.inp.sessionLookupRsp ∧
      inp.sessionInsertRsp = t.sessions.inp.sessionInsertRsp)
    (hu : s = { t.sessions with
      handler := { t.sessions.handler with
        slcFsmState := .LUP_RSP, slcQueryCache := t.sessions.handler.slcQueryCache ++ [q] }
      inp
      tableIn := { t.sessions.tableIn with lupReq := t.sessions.tableIn.lupReq ++ [⟨q.tuple, q.source⟩] } }) :
    Inv maxSessions hashes { t with sessions := s } := by
  subst hu
  refine h.internal hs ?_ (List.forall_mem_append.mpr ⟨h.allowed, fun q' hq' => ?_⟩) (fun _ _ hx => hx) rfl ?_
  · simp only [List.map_append, List.map_cons, List.map_nil, hinp.1]
    rw [← h.sources, List.append_assoc]
  · rw [List.mem_singleton.mp hq']
    exact hallow
  · -- the port moves from the request to the cached query
    simp only [opening, inserting, hinp.2]
    refine List.Perm.append_right _ ?_
    simp only [List.map_append, List.filterMap_append, hport, List.map_cons, List.map_nil]
    rw [filterMap_appPort_cons, List.filterMap_nil, List.append_nil, ← List.append_assoc,
      List.append_assoc _ _ (List.filterMap _ _)]
    exact List.perm_append_comm

theorem Inv.lupReq (h : Inv maxSessions hashes t) (hst : t.sessions.handler.slcFsmState = .LUP_REQ)
    (hi : s.Inv maxSessions hashes) (hs : t.sessions.step maxSessions hashes .lookupReplyHandler = some s) :
    Inv maxSessions hashes { t with sessions := s } := by
  simp only [SessionNet.step, Toe.lookupReplyHandler, hst, Toe.lupReq, Option.some.injEq] at hs
  cases htx : t.sessions.inp.txApp2sLookupReq with
  | cons q rest =>
    simp only [htx, List.append_nil] at hs
    refine h.ask ⟨q.sent, true, .TX_APP⟩ { t.sessions.inp with txApp2sLookupReq := rest } hi (fun _ => rfl) ?_
      ⟨rfl, rfl⟩ hs.symm
    rw [htx]
    rfl
  | nil =>
    cases hrx : t.sessions.inp.rxEng2sLookupReq with
    | cons q rest =>
      simp only [htx, hrx, List.append_nil] at hs
      exact h.ask ⟨q.tuple.received, q.allowCreation, .RX⟩ { t.sessions.inp with rxEng2sLookupReq := rest } hi
        (fun hc => by cases hc) rfl ⟨rfl, rfl⟩ (by rw [← hs, ← htx])
    | nil =>
      simp only [htx, hrx, List.append_nil] at hs
      rw [← hs]
      exact h

theorem Inv.lupRsp (h : Inv maxSessions hashes t) (hst : t.sessions.handler.slcFsmState = .LUP_RSP)
    (hok : creates t.sessions = true) (hi : s.Inv maxSessions hashes)
    (hs : t.sessions.step maxSessions hashes .lookupReplyHandler = some s) :
    Inv maxSessions hashes { t with sessions := s } := by
  simp only [SessionNet.step, Toe.lookupReplyHandler, hst, Option.some.injEq] at hs
  cases hrsp : t.sessions.inp.sessionLookupRsp with
  | nil =>
    simp only [hrsp, List.append_nil] at hs
    rw [← hs]
    exact h
  | cons r rsps =>
    cases hcache : t.sessions.handler.slcQueryCache with
    | nil =>
      simp only [hrsp, hcache, List.append_nil] at hs
      rw [← hs]
      exact h
    | cons q cache =>
      simp only [hrsp, hcache] at hs
      simp only [creates, hst, hrsp, hcache, Bool.or_eq_true, bne_iff_ne, Bool.and_eq_true] at hok
      have hsrc := h.sources
      rw [hrsp, hcache, List.map_cons, List.map_cons, List.cons_append, List.cons.injEq] at hsrc
      have hallow : ∀ q' ∈ cache, q'.source = .TX_APP → q'.allowCreation = true := by
        intro q' hq'
        exact h.allowed q' (by rw [hcache]; exact List.mem_cons_of_mem _ hq')
      have hq : q.source = .TX_APP → q.allowCreation = true :=
        h.allowed q (by rw [hcache]; exact List.mem_cons_self)
      unfold Toe.lupRsp at hs
      split at hs
      · next x rest _ hfree =>
          -- the port moves from the cached query to the insertion
          simp only [List.append_nil] at hs
          subst hs
          refine h.internal hi hsrc.2 hallow (fun _ _ hx => hx) rfl ?_
          simp only [opening, inserting, hcache, List.map_cons, List.map_append, List.filterMap_append,
            List.map_nil, List.append_assoc, hsrc.1]
          rw [filterMap_appPort_cons, filterMap_appPort_cons, List.filterMap_nil, List.append_nil,
            List.perm_iff_count]
          intro p
          simp only [List.count_append]
          omega
      · next hno =>
          -- only a query of the receive path is answered without a session
          have hrx : q.source = .RX := by
            rcases hok with hok | ⟨hmiss, hfree⟩
            · cases hqs : q.source with
              | RX => rfl
              | TX_APP => exact absurd hqs hok
            · cases hqs : q.source with
              | RX => rfl
              | TX_APP =>
                cases hl : t.sessions.inp.sessionIdFreeList with
                | nil => simp [hl] at hfree
                | cons x rest => exact (hno x rest (by rw [hmiss, hq hqs]; rfl) hl).elim
          have hout := answerTo_requests r.source ⟨r.sessionID, r.hit⟩
          simp only [hout.1, hout.2.1, hout.2.2, List.append_nil] at hs
          subst hs
          refine h.internal hi hsrc.2 hallow (fun _ _ hx => hx) rfl ?_
          simp only [opening, hcache, List.map_cons, filterMap_appPort_cons, hrx]
          exact List.Perm.refl _

theorem Inv.updRsp (h : Inv maxSessions hashes t) (hst : t.sessions.handler.slcFsmState = .UPD_RSP)
    (hi : s.Inv maxSessions hashes) (hs : t.sessions.step maxSessions hashes .lookupReplyHandler = some s) :
    Inv maxSessions hashes { t with sessions := s, opened := t.opened ++ opens t.sessions } := by
  simp only [SessionNet.step, Toe.lookupReplyHandler, hst, Option.some.injEq] at hs
  cases hrsp : t.sessions.inp.sessionInsertRsp with
  | nil =>
    simp only [hrsp, List.append_nil] at hs
    rw [← hs]
    simp only [opens, hst, hrsp, List.append_nil]
    exact h
  | cons r rsps =>
    obtain ⟨htuples, hreq, hfilter, hrsps⟩ := h.sessions.answering hst hrsp
    simp only [hrsp, htuples, Toe.updRsp] at hs
    have hout := answerTo_requests r.source ⟨r.sessionID, true⟩
    simp only [hout.1, hout.2.1, List.append_nil] at hs
    have hins : t.sessions.upd.sessionInsertReq = [] ∧
        t.sessions.tableIn.updReq.filter (fun r => r.op == .INSERT) = [] := by
      simpa only [SessionNet.requested, List.map_eq_nil_iff, List.append_eq_nil_iff] using hreq
    have hopens : opens t.sessions =
        ((appPort (r.source, r.key)).toList.map fun p => (r.sessionID, p)) := by
      simp only [opens, hst, hrsp, htuples]
      cases r.source <;> rfl
    have hbefore : inserting t.sessions = [(r.source, r.key)] := by
      simp only [inserting, hins.1, hins.2, hfilter, hrsp, hrsps]
      rfl
    have hafter : inserting s = [] := by
      rw [← hs]
      simp only [inserting, hins.1, hins.2, hfilter, hrsps]
      rfl
    have hnew : s.HandedOut r.sessionID r.key := by
      rw [← hs]
      exact .inl (List.mem_append_right _ (List.mem_singleton.mpr rfl))
    have hperm : (inUse { t with sessions := s, opened := t.opened ++ opens t.sessions }).Perm t.inUse := by
      have hopening : opening t.sessions = opening s ++ (appPort (r.source, r.key)).toList := by
        unfold opening
        rw [hbefore, hafter, filterMap_appPort_cons, ← hs]
        simp
      have hlive : (t.opened ++ opens t.sessions).map Prod.snd =
          t.opened.map Prod.snd ++ (appPort (r.source, r.key)).toList := by
        rw [hopens, List.map_append, List.map_map]
        simp [Function.comp_def]
      have hfree : freeing s = freeing t.sessions := by rw [← hs]; rfl
      simp only [inUse, hlive, hopening, hfree]
      rw [List.perm_iff_count]
      intro p
      simp only [List.count_append]
      have hwait : waiting { t with sessions := s, opened := t.opened ++ opens t.sessions } = waiting t := rfl
      rw [hwait]
      omega
    subst hs
    refine { h with
      sessions := hi, ids := ?_, owned := List.forall_mem_append.mpr ⟨fun a ha => ?_, fun a ha => ?_⟩
      used := fun k => (h.used k).trans (hperm.count_eq _).symm
      range := fun p hp => h.range p (hperm.mem_iff.mp hp) }
    · -- an ID that is being inserted belongs to no session yet
      rw [hopens, List.map_append, List.nodup_append]
      refine ⟨h.ids, ?_, ?_⟩
      · cases r.source
        · exact List.nodup_nil
        · exact List.nodup_singleton _
      · intro id hid id' hid' heq
        obtain ⟨a, ha, rfl⟩ := List.mem_map.mp hid
        obtain ⟨x, hx, -⟩ := h.owned a ha
        have hid2 : id' = r.sessionID := by
          obtain ⟨b, hb, rfl⟩ := List.mem_map.mp hid'
          obtain ⟨p, -, rfl⟩ := List.mem_map.mp hb
          rfl
        have hpos := hx.pos
        have hle := h.sessions.held_le a.1
        have happ : (t.sessions.applied.map Prod.fst).count a.1 = 1 := by
          rw [heq, hid2]
          simp [SessionNet.applied, hrsp, hrsps, hfilter]
        unfold SessionNet.held at hle
        omega
    · obtain ⟨x, hx, hport⟩ := h.owned a ha
      exact ⟨x, Or.imp_left (List.mem_append_left _) hx, hport⟩
    · rw [hopens] at ha
      obtain ⟨p, hp, rfl⟩ := List.mem_map.mp ha
      refine ⟨r.key, hnew, ?_⟩
      cases hsrc : r.source with
      | RX => rw [hsrc] at hp; cases hp
      | TX_APP =>
        rw [hsrc] at hp
        exact List.mem_singleton.mp hp

theorem portOf_cases (t : PortNet w) (id : SessionID) :
    (t.portOf id = none ∧ (t.opened.eraseP fun a => a.1 == id) = t.opened ∧ ∀ a ∈ t.opened, a.1 ≠ id) ∨
      ∃ p before after, t.portOf id = some p ∧ t.opened = before ++ (id, p) :: after ∧
        (t.opened.eraseP fun a => a.1 == id) = before ++ after := by
  unfold portOf
  by_cases hex : ∃ a ∈ t.opened, a.1 = id
  · right
    obtain ⟨a, ha, hid⟩ := hex
    have hyes : (fun b : SessionID × BitVec 16 => b.1 == id) a = true := beq_iff_eq.mpr hid
    obtain ⟨⟨id', p⟩, before, after, hno, hyes, heq, herase⟩ :=
      List.exists_of_eraseP (p := fun b : SessionID × BitVec 16 => b.1 == id) ha hyes
    have hid' : id' = id := by simpa using hyes
    subst hid'
    refine ⟨p, before, after, ?_, heq, herase⟩
    have hnone : before.find? (fun a => a.1 == id') = none := List.find?_eq_none.mpr hno
    rw [heq, List.find?_append, hnone, Option.none_or, List.find?_cons_of_pos (by simp)]
    rfl
  · left
    have hno : ∀ a ∈ t.opened, a.1 ≠ id := fun a ha hc => hex ⟨a, ha, hc⟩
    refine ⟨?_, List.eraseP_of_forall_not (by simpa using hno), hno⟩
    rw [List.find?_eq_none.mpr (by simpa using hno)]
    rfl

theorem tablePort_ephemeral (k : BitVec 15) : tablePort (ephemeral k) = some (ephemeral k) := by
  have := ephemeral_toNat k
  rw [tablePort, if_pos (by omega)]

theorem Inv.release {id : SessionID} {rest : List SessionID} (h : Inv maxSessions hashes t)
    (hins : t.sessions.revIn.revTableInserts = [])
    (hok : t.releasable id = true) (hi : s.Inv maxSessions hashes)
    (hu : s = { t.sessions with
      rev := { t.sessions.rev with tupleValid := Function.update t.sessions.rev.tupleValid id false }
      revIn := { t.sessions.revIn with stateTable2sLookupReleaseSession := rest }
      upd := { t.sessions.upd with sessionDeleteReq := t.sessions.upd.sessionDeleteReq ++
        [⟨.DELETE, t.sessions.rev.reverseLookupTable id, id, .RX⟩] }
      releasePort := t.sessions.releasePort ++ [(t.sessions.rev.reverseLookupTable id).myPort] }) :
    Inv maxSessions hashes { t with
      sessions := s
      opened := t.opened.eraseP fun a => a.1 == id
      closed := t.closed ++ [t.portOf id] } := by
  -- the sessions that stay have another ID
  have hout (id' : SessionID) (hne : id' ≠ id) (x : ThreeTuple) (hx : t.sessions.HandedOut id' x) :
      s.HandedOut id' x := by
    rcases hx with hx | ⟨hx, hx'⟩
    · exact .inl (by rw [hu]; exact hx)
    · refine .inr ?_
      rw [hu]
      simp only [Function.update_of_ne hne]
      exact ⟨hx, hx'⟩
  have hopening : opening s = opening t.sessions := by rw [hu]; rfl
  have hfree : freeing s = freeing t.sessions ++
      (tablePort (t.sessions.rev.reverseLookupTable id).myPort).toList := by
    rw [hu]
    simp only [freeing, List.filter_append, List.filter_singleton, tablePort]
    congr 1
    by_cases hle : 32768 ≤ (t.sessions.rev.reverseLookupTable id).myPort.toNat
    · rw [if_pos hle, decide_eq_true hle]
      rfl
    · rw [if_neg hle, decide_eq_false hle]
      rfl
  have hclosed : t.closed ++ [tablePort (t.sessions.rev.reverseLookupTable id).myPort] =
      s.releasePort.map tablePort := by
    rw [hu, h.returned, List.map_append]
    rfl
  unfold releasable at hok
  rcases portOf_cases t id with ⟨hnone, herase, hno⟩ | ⟨p, before, after, hsome, heq, herase⟩
  · rw [hnone] at hok ⊢
    have htab : tablePort (t.sessions.rev.reverseLookupTable id).myPort = none := by
      have hlt : (t.sessions.rev.reverseLookupTable id).myPort.toNat < 32768 := of_decide_eq_true hok
      rw [tablePort, if_neg (by omega)]
    rw [htab] at hfree hclosed
    rw [herase]
    have hsame : inUse { t with sessions := s, closed := t.closed ++ [none] } = t.inUse := by
      unfold inUse
      rw [hopening, hfree]
      simp only [Option.toList_none, List.append_nil]
      rfl
    subst hu
    refine { h with sessions := hi, owned := fun a ha => ?_, returned := hclosed, used := ?_, range := ?_ }
    · exact (h.owned a ha).imp fun x hx => hx.imp_left (hout _ (hno a ha) x)
    · rw [hsame]
      exact h.used
    · rw [hsame]
      exact h.range
  · have hmem : (id, p) ∈ t.opened := by
      rw [heq]
      exact List.mem_append_right _ List.mem_cons_self
    obtain ⟨x, hx, hport⟩ := h.owned _ hmem
    have hrev : t.sessions.rev.reverseLookupTable id = x := by
      rcases hx with hx | ⟨-, hx⟩
      · rw [hins] at hx
        cases hx
      · exact hx
    rw [hsome, hrev] at hok
    have hp : x.myPort = p := (beq_iff_eq.mp hok).symm.trans hport.symm
    obtain ⟨k, hk⟩ := h.range p (by
      refine List.mem_append_left _ (List.mem_append_right _ ?_)
      exact List.mem_map_of_mem (f := Prod.snd) hmem)
    rw [hrev, hp, hk, tablePort_ephemeral, ← hk] at hfree hclosed
    rw [hsome, herase]
    have hperm : (inUse { t with
        sessions := s, opened := before ++ after, closed := t.closed ++ [some p] }).Perm t.inUse := by
      unfold inUse
      rw [hopening, hfree, heq, List.perm_iff_count]
      intro p'
      simp only [List.count_append, List.map_append, List.map_cons, List.count_cons, Option.toList_some,
        List.count_nil]
      have hwait : (waiting { t with
        sessions := s, opened := before ++ after, closed := t.closed ++ [some p] }) = waiting t := rfl
      rw [hwait]
      omega
    have hids := h.ids
    rw [heq, List.map_append, List.map_cons, List.nodup_middle, List.nodup_cons] at hids
    subst hu
    refine { h with
      sessions := hi, ids := ?_, owned := fun a ha => ?_, returned := hclosed
      used := fun k => (h.used k).trans (hperm.count_eq _).symm
      range := fun p hp => h.range p (hperm.mem_iff.mp hp) }
    · rw [List.map_append]
      exact hids.2
    · obtain ⟨y, hy, hport'⟩ := h.owned a (by
        rw [heq]
        rcases List.mem_append.mp ha with ha | ha
        · exact List.mem_append_left _ ha
        · exact List.mem_append_right _ (List.mem_cons_of_mem _ ha))
      refine ⟨y, hout _ ?_ y hy, hport'⟩
      intro hid
      have hm := List.mem_map_of_mem (f := Prod.fst) ha
      rw [hid, List.map_append] at hm
      exact hids.1 hm

theorem Inv.reverseLookupTableInterface (h : Inv maxSessions hashes t)
    (hok : (releases t.sessions).all t.releasable = true) (hi : s.Inv maxSessions hashes)
    (hs : t.sessions.step maxSessions hashes .reverseLookupTableInterface = some s) :
    Inv maxSessions hashes { t.log .reverseLookupTableInterface with sessions := s } := by
  simp only [SessionNet.step, Option.some.injEq] at hs
  cases hins : t.sessions.revIn.revTableInserts with
  | cons ins rest =>
    simp only [Toe.reverseLookupTableInterface, hins, List.append_nil] at hs
    have hlog : t.log .reverseLookupTableInterface = t := by simp only [log, releases, hins]
    rw [hlog]
    subst hs
    exact h.internal hi h.sources h.allowed
      (fun id x hx => (h.sessions.handedOut_insert hins rfl rfl id x).mpr hx) rfl (List.Perm.refl _)
  | nil =>
    have hnone (l : List RevLupInsert) : t.sessions.revIn.revTableInserts ⊆ l := by
      rw [hins]
      exact List.nil_subset _
    cases hrel : t.sessions.revIn.stateTable2sLookupReleaseSession with
    | cons id rest =>
      simp only [Toe.reverseLookupTableInterface, hins, hrel] at hs
      cases hv : t.sessions.rev.tupleValid id with
      | true =>
        simp only [hv, if_true] at hs
        simp only [releases, hins, hrel, hv, if_true, Option.all_some] at hok
        simp only [log, releases, hins, hrel, hv, if_true]
        exact h.release hins hok hi (by rw [← hs, ← hins])
      | false =>
        have hsame : Function.update t.sessions.rev.tupleValid id false = t.sessions.rev.tupleValid := by
          rw [← hv, Function.update_eq_self]
        simp only [hv, Bool.false_eq_true, if_false, List.append_nil, hsame] at hs
        have hlog : t.log .reverseLookupTableInterface = t := by
          simp only [log, releases, hins, hrel, hv, Bool.false_eq_true, if_false]
        subst hs
        rw [hlog]
        exact h.internal hi h.sources h.allowed (fun _ _ => handedOut_of_subset rfl (hnone _)) rfl
          (List.Perm.refl _)
    | nil =>
      have hlog : t.log .reverseLookupTableInterface = t := by simp only [log, releases, hins, hrel]
      cases hreq : t.sessions.revIn.txEng2sLookupRevReq with
      | cons id rest =>
        simp only [Toe.reverseLookupTableInterface, hins, hrel, hreq, List.append_nil] at hs
        subst hs
        rw [hlog]
        exact h.internal hi h.sources h.allowed (fun _ _ => handedOut_of_subset rfl (hnone _)) rfl
          (List.Perm.refl _)
      | nil =>
        simp only [Toe.reverseLookupTableInterface, hins, hrel, hreq, List.append_nil] at hs
        rw [hlog, ← hs]
        exact h

/-! ## Runs -/

theorem Inv.session {l : SessionLabel} (hmax : maxSessions < 2 ^ 14) (h : Inv maxSessions hashes t)
    (hl : fromOutside l = true) (hok : t.keepsPorts (.session l) = true)
    (hs : t.sessions.step maxSessions hashes l = some s) :
    Inv maxSessions hashes { t.log l with sessions := s } := by
  have hi := SessionNet.inv_step hmax h.sessions hs
  cases l with
  | txLookup q => cases hl
  | rxLookup | release | revLookup =>
    cases hs
    exact h.internal hi h.sources h.allowed (fun _ _ hx => hx) rfl (List.Perm.refl _)
  | sessionIdManager =>
    simp only [SessionNet.step, Option.some.injEq] at hs
    subst hs
    exact h.internal hi h.sources h.allowed (fun _ _ hx => hx) rfl (List.Perm.refl _)
  | updateRequestSender =>
    have hins := inserting_updateRequestSender h.sessions hs
    simp only [SessionNet.step, Option.some.injEq] at hs
    subst hs
    exact h.internal hi h.sources h.allowed (fun _ _ hx => hx) rfl (opening_perm rfl rfl hins)
  | updateReplyHandler =>
    have hins := inserting_updateReplyHandler hs
    simp only [SessionNet.step, Option.some.injEq] at hs
    subst hs
    exact h.internal hi h.sources h.allowed (fun _ _ hx => hx) rfl (opening_perm rfl rfl hins)
  | hashTable =>
    have hins := inserting_hashTable hs
    simp only [SessionNet.step, Option.some.injEq] at hs
    subst hs
    refine h.internal hi ?_ h.allowed (fun _ _ hx => hx) rfl (opening_perm rfl rfl hins)
    rw [← h.sources]
    simp only [hashTableCore]
    cases hlup : t.sessions.tableIn.lupReq with
    | cons r rest => simp
    | nil => cases hupd : t.sessions.tableIn.updReq <;> simp [hlup]
  | lookupReplyHandler =>
    cases hst : t.sessions.handler.slcFsmState with
    | LUP_REQ =>
      rw [log_opened (by rw [hst]; exact fun hc => by cases hc)]
      exact h.lupReq hst hi hs
    | LUP_RSP =>
      rw [log_opened (by rw [hst]; exact fun hc => by cases hc)]
      exact h.lupRsp hst hok hi hs
    | UPD_RSP => exact h.updRsp hst hi hs
  | reverseLookupTableInterface => exact h.reverseLookupTableInterface hok hi hs

/-- A step of the port table or of `tx_app_if`, which only use the ends of the two FIFOs between them and the
session lookup. -/
theorem Inv.ported (rel : List (BitVec 16)) (tx : List FourTuple) (h : Inv maxSessions hashes t)
    (hsess : u.sessions = { t.sessions with
      releasePort := rel, inp := { t.sessions.inp with txApp2sLookupReq := tx } })
    (hopened : u.opened = t.opened) (hret : u.closed = rel.map tablePort)
    (hused : ∀ k, (if u.ports.freePortTable k then 1 else 0) = u.inUse.count (ephemeral k))
    (hrange : ∀ p ∈ u.inUse, ∃ k, p = ephemeral k) : Inv maxSessions hashes u := by
  have hi := h.sessions
  refine ⟨?_, ?_, ?_, ?_, ?_, ?_, hused, hrange⟩
  · rw [hsess]
    exact { hi with }
  · rw [hsess]
    exact h.sources
  · rw [hsess]
    exact h.allowed
  · rw [hopened]
    exact h.ids
  · rw [hopened, hsess]
    exact h.owned
  · rw [hret, hsess]

theorem Inv.openConnection (h : Inv maxSessions hashes t)
    (hs : t.step maxSessions hashes .openConnection = some u) : Inv maxSessions hashes u := by
  simp only [step, Toe.openConnection, Option.some.injEq] at hs
  split at hs
  · next a reqs p ports hreq hport =>
      have hperm : u.inUse.Perm t.inUse := by
        rw [← hs]
        simp only [inUse, waiting, opening, hport, List.map_append, List.map_cons, List.map_nil,
          reverse16_reverse16, List.perm_iff_count]
        intro p'
        simp only [List.count_append, List.count_cons, List.count_nil]
        have hfree : freeing { t.sessions with inp := { t.sessions.inp with
            txApp2sLookupReq := t.sessions.inp.txApp2sLookupReq ++
              [⟨0, reverse32 a.ipAddress, reverse16 p, reverse16 a.ipPort⟩] } } = freeing t.sessions := rfl
        have hins : inserting { t.sessions with inp := { t.sessions.inp with
            txApp2sLookupReq := t.sessions.inp.txApp2sLookupReq ++
              [⟨0, reverse32 a.ipAddress, reverse16 p, reverse16 a.ipPort⟩] } } = inserting t.sessions := rfl
        rw [hfree, hins]
        omega
      subst hs
      exact h.ported _ _ rfl rfl h.returned (fun k => (h.used k).trans (hperm.count_eq _).symm)
        fun p hp => h.range p (hperm.mem_iff.mp hp)
  · rw [List.append_nil] at hs
    rw [← hs]
    exact h

theorem Inv.freed {p : BitVec 16} {rest : List (BitVec 16)} (h : Inv maxSessions hashes t)
    (hrel : t.sessions.releasePort = p :: rest)
    (hs : t.step maxSessions hashes .freePortTable = some u) : Inv maxSessions hashes u := by
  simp only [step, Toe.freePortTable, freePortBranch, hrel, Option.some.injEq, List.append_nil, List.length_cons,
    Nat.add_sub_cancel_left, List.drop_one] at hs
  have hret := h.returned
  rw [hrel, List.map_cons] at hret
  have hfree : freeing t.sessions = (tablePort p).toList ++ freeing { t.sessions with releasePort := rest } := by
    unfold freeing
    rw [hrel, List.filter_cons, tablePort]
    by_cases hle : 32768 ≤ p.toNat
    · rw [if_pos hle, decide_eq_true hle]
      rfl
    · rw [if_neg hle, decide_eq_false hle]
      rfl
  have hcount (k : BitVec 15) : t.inUse.count (ephemeral k) =
      u.inUse.count (ephemeral k) + (tablePort p).toList.count (ephemeral k) := by
    rw [← hs]
    simp only [inUse, hfree, List.count_append]
    have hopen : opening { t.sessions with releasePort := rest } = opening t.sessions := rfl
    simp only [hopen, waiting]
    omega
  refine h.ported rest t.sessions.inp.txApp2sLookupReq (by rw [← hs]) (by rw [← hs]) (by rw [← hs, hret]; rfl)
    (fun k => ?_) ?_
  · have hused := h.used k
    rw [hcount k] at hused
    by_cases hle : 32768 ≤ p.toNat
    · have hp : p = ephemeral (p.setWidth 15) := (eq_ephemeral_iff p _).mpr ⟨hle, rfl⟩
      rw [tablePort, if_pos hle, Option.toList_some, List.count_singleton] at hused
      have htab : u.ports.freePortTable = Function.update t.ports.freePortTable (p.setWidth 15) false := by
        rw [← hs]
        simp only [if_pos hle]
      rw [htab]
      by_cases hk : k = p.setWidth 15
      · -- the port was at one place only
        have hself : (p == ephemeral k) = true := by rw [hk, ← hp, beq_self_eq_true]
        rw [hself, if_pos rfl] at hused
        rw [hk, Function.update_self, ← hk, if_neg Bool.false_ne_true]
        have hle1 : (if t.ports.freePortTable k then 1 else 0) ≤ 1 := by split <;> omega
        omega
      · have hne : (p == ephemeral k) = false := by
          rw [beq_eq_false_iff_ne]
          intro hc
          rw [hp, ephemeral_injective] at hc
          exact hk hc.symm
        rw [hne] at hused
        rw [Function.update_of_ne hk]
        exact hused
    · rw [tablePort, if_neg hle] at hused
      have htab : u.ports.freePortTable = t.ports.freePortTable := by
        rw [← hs]
        simp only [if_neg hle]
      rw [htab]
      exact hused
  · intro p' hp'
    refine h.range p' ?_
    rw [← hs] at hp'
    simp only [inUse, hfree, List.mem_append] at hp' ⊢
    exact hp'.imp_right .inr

theorem Inv.freePortTable (h : Inv maxSessions hashes t)
    (hs : t.step maxSessions hashes .freePortTable = some u) : Inv maxSessions hashes u := by
  cases hrel : t.sessions.releasePort with
  | cons p rest => exact h.freed hrel hs
  | nil =>
    have hret := h.returned
    rw [hrel] at hret
    simp only [step, Toe.freePortTable, freePortBranch, hrel, Option.some.injEq] at hs
    cases hchk : t.checkUsed with
    | cons c rest =>
      simp only [hchk, List.append_nil, List.length_nil, Nat.sub_self, List.drop_zero] at hs
      have hsame : u.inUse = t.inUse := by
        rw [← hs, ← hrel]
        rfl
      subst hs
      exact h.ported [] t.sessions.inp.txApp2sLookupReq rfl rfl hret (by rw [hsame]; exact h.used)
        (by rw [hsame]; exact h.range)
    | nil =>
      simp only [hchk] at hs
      split at hs
      · next hfree =>
          rw [Bool.and_eq_true, Bool.not_eq_true'] at hfree
          simp only [List.length_nil, Nat.sub_self, List.drop_zero] at hs
          have hcount (p : BitVec 16) : u.inUse.count p =
              t.inUse.count p + [ephemeral t.ports.ptCursor].count p := by
            have hsess : u.sessions = t.sessions := by
              rw [← hs]
              show { t.sessions with releasePort := [] } = t.sessions
              rw [← hrel]
            have hwait : waiting u = waiting t ++ [ephemeral t.ports.ptCursor] := by rw [← hs]; rfl
            have hopened : u.opened = t.opened := by rw [← hs]
            unfold inUse
            rw [hsess, hwait, hopened]
            simp only [List.count_append]
            omega
          refine h.ported [] t.sessions.inp.txApp2sLookupReq (by rw [← hs]) (by rw [← hs])
            (by rw [← hs]; exact hret) (fun k => ?_) fun p hp => ?_
          · have hused := h.used k
            have htab : u.ports.freePortTable =
                Function.update t.ports.freePortTable t.ports.ptCursor true := by rw [← hs]
            rw [hcount, htab, List.count_singleton]
            by_cases hk : k = t.ports.ptCursor
            · rw [hk, hfree.1, if_neg Bool.false_ne_true] at hused
              rw [hk, Function.update_self, beq_self_eq_true, if_pos rfl]
              omega
            · have hne : (ephemeral t.ports.ptCursor == ephemeral k) = false := by
                rw [beq_eq_false_iff_ne, ne_eq, ephemeral_injective]
                exact fun hc => hk hc.symm
              rw [hne, Function.update_of_ne hk]
              exact hused
          · have hpos : 0 < u.inUse.count p := List.count_pos_iff.mpr hp
            by_cases hin : p ∈ t.inUse
            · exact h.range p hin
            · rw [hcount, List.count_eq_zero_of_not_mem hin, Nat.zero_add, List.count_pos_iff] at hpos
              exact ⟨_, List.mem_singleton.mp hpos⟩
      · simp only [List.append_nil, List.length_nil, Nat.sub_self, List.drop_zero] at hs
        have hsame : u.inUse = t.inUse := by
          rw [← hs, ← hrel]
          rfl
        subst hs
        exact h.ported [] t.sessions.inp.txApp2sLookupReq rfl rfl hret (by rw [hsame]; exact h.used)
          (by rw [hsame]; exact h.range)

theorem inv_step {l : PortLabel} (hmax : maxSessions < 2 ^ 14) (h : Inv maxSessions hashes t)
    (hok : t.keepsPorts l = true) (hs : t.step maxSessions hashes l = some u) : Inv maxSessions hashes u := by
  cases l with
  | session l =>
    simp only [step] at hs
    split at hs
    · next hl =>
        obtain ⟨s, hstep, rfl⟩ := Option.map_eq_some_iff.mp hs
        exact h.session hmax hl hok hstep
    · cases hs
  | openRequest | checkPort | checkInMultiplexer =>
    cases hs
    exact { h with }
  | openConnection => exact h.openConnection hs
  | freePortTable => exact h.freePortTable hs

theorem inv_init : Inv maxSessions hashes ({} : PortNet w) := by
  refine ⟨SessionNet.inv_init, rfl, ?_, List.nodup_nil, ?_, rfl, fun _ => rfl, ?_⟩
  · exact fun q hq => (List.not_mem_nil hq).elim
  · exact fun a ha => (List.not_mem_nil ha).elim
  · exact fun p hp => (List.not_mem_nil hp).elim

/-- The numbers of the ports marked used. -/
def marked (t : PortNet w) : List (BitVec 16) :=
  ((List.range (2 ^ 15)).filter fun k => t.ports.freePortTable (.ofNat 15 k)).map fun k => ephemeral (.ofNat 15 k)

theorem mem_marked {p : BitVec 16} : p ∈ t.marked ↔ ∃ k, t.ports.freePortTable k = true ∧ p = ephemeral k := by
  simp only [marked, List.mem_map, List.mem_filter, List.mem_range]
  constructor
  · rintro ⟨n, ⟨-, hn⟩, rfl⟩
    exact ⟨_, hn, rfl⟩
  · rintro ⟨k, hk, rfl⟩
    refine ⟨k.toNat, ⟨k.isLt, ?_⟩, ?_⟩
    · rw [BitVec.ofNat_toNat, BitVec.setWidth_eq]
      exact hk
    · rw [BitVec.ofNat_toNat, BitVec.setWidth_eq]

theorem nodup_marked (t : PortNet w) : t.marked.Nodup := by
  refine List.Nodup.map_on ?_ (List.Nodup.filter _ List.nodup_range)
  intro m hm n hn heq
  have hm' := List.mem_range.mp (List.mem_filter.mp hm).1
  have hn' := List.mem_range.mp (List.mem_filter.mp hn).1
  have hnat := congrArg BitVec.toNat (ephemeral_injective.mp heq)
  rw [BitVec.toNat_ofNat, BitVec.toNat_ofNat] at hnat
  omega

namespace Inv

theorem mem_inUse (h : Inv maxSessions hashes t) (k : BitVec 15) :
    ephemeral k ∈ t.inUse ↔ t.ports.freePortTable k = true := by
  rw [← List.count_pos_iff, ← h.used k]
  split <;> simp_all

theorem nodup_inUse (h : Inv maxSessions hashes t) : t.inUse.Nodup := by
  rw [List.nodup_iff_count_le_one]
  intro p
  by_cases hp : p ∈ t.inUse
  · obtain ⟨k, rfl⟩ := h.range p hp
    rw [← h.used k]
    split <;> omega
  · rw [List.count_eq_zero_of_not_mem hp]
    omega

theorem marked_perm (h : Inv maxSessions hashes t) : t.marked.Perm t.inUse := by
  rw [List.perm_ext_iff_of_nodup (nodup_marked t) h.nodup_inUse]
  intro p
  rw [mem_marked]
  constructor
  · rintro ⟨k, hk, rfl⟩
    exact (h.mem_inUse k).mpr hk
  · intro hp
    obtain ⟨k, rfl⟩ := h.range p hp
    exact ⟨k, (h.mem_inUse k).mp hp, rfl⟩

end Inv

/-- A port is at one place at a time, so it is handed out again only after it came back; the ports marked used
are those that wait, those of sessions the application opens or has opened, and those on their way back; and a
release brings back the port of its session, or none when the peer opened it. -/
theorem ports_follow_sessions (hmax : maxSessions < 2 ^ 14)
    (h : Reach (step maxSessions hashes) (fun t l => t.keepsPorts l = true) {} t) :
    t.inUse.Nodup ∧ t.marked.Perm t.inUse ∧
    t.marked.length = (waiting t).length + (opening t.sessions).length + t.opened.length +
      (freeing t.sessions).length ∧
    (t.opened.map Prod.fst).Nodup ∧
    (∀ a ∈ t.opened, ∃ tuple, t.sessions.HandedOut a.1 tuple ∧ a.2 = reverse16 tuple.myPort) ∧
    t.closed = t.sessions.releasePort.map tablePort := by
  have hinv : Inv maxSessions hashes t := h.invariant inv_init fun _ _ _ hu hok hs => inv_step hmax hu hok hs
  refine ⟨hinv.nodup_inUse, hinv.marked_perm, ?_, hinv.ids, hinv.owned, hinv.returned⟩
  rw [hinv.marked_perm.length_eq]
  simp only [inUse, List.length_append, List.length_map]

/-- The application opens a session with the next port. -/
def openActive (port : BitVec 16) : List PortLabel :=
  [.openRequest ⟨0x0A000001, port⟩, .openConnection] ++
    ([.sessionIdManager, .lookupReplyHandler, .hashTable, .lookupReplyHandler, .updateRequestSender, .hashTable,
      .updateReplyHandler, .lookupReplyHandler, .reverseLookupTableInterface] : List SessionLabel).map .session

/-- A session is released and the port table sees its port. -/
def closeActive (id : SessionID) : List PortLabel :=
  [.session (.release id), .session .reverseLookupTableInterface, .freePortTable]

-- Port 0x8080 is handed out to the fifth session and comes back.
theorem ports_follow_sessions_symmetric : ∃ t : PortNet 6,
    Reach (step 1000 fun _ _ => 0) (fun t l => t.keepsPorts l = true) {} t ∧
    t.opened = [(0, 0x8000), (1, 0x8001), (2, 0x8002), (3, 0x8003)] ∧ t.ports.freePortTable 0x80 = false ∧
    t.inUse.Nodup ∧ t.marked.Perm t.inUse ∧
    t.marked.length = (waiting t).length + (opening t.sessions).length + t.opened.length +
      (freeing t.sessions).length ∧
    (t.opened.map Prod.fst).Nodup ∧
    (∀ a ∈ t.opened, ∃ tuple, t.sessions.HandedOut a.1 tuple ∧ a.2 = reverse16 tuple.myPort) ∧
    t.closed = t.sessions.releasePort.map tablePort := by
  have hrun : (runIf (step 1000 fun _ _ => (0 : BitVec 6)) (fun t l => t.keepsPorts l = true) {}
      (List.replicate 128 .freePortTable ++ openActive 80 ++ [.freePortTable] ++ openActive 81 ++ openActive 82 ++
        openActive 83 ++ openActive 84 ++ closeActive 4)).map
      (fun t => (t.opened, t.ports.freePortTable 0x80)) =
      some ([(0, 0x8000), (1, 0x8001), (2, 0x8002), (3, 0x8003)], false) := by decide +kernel
  obtain ⟨t, ht, hval⟩ := Option.map_eq_some_iff.mp hrun
  obtain ⟨hopened, hfree⟩ := Prod.mk.inj hval
  have hreach := reach_of_runIf ht
  exact ⟨t, hreach, hopened, hfree, ports_follow_sessions (by decide) hreach⟩

-- The first port is 0x8000; its session stores 0x0080, which the port table does not free.
theorem released_port_stays_marked : ∃ t : PortNet 6,
    Reach (step 1000 fun _ _ => 0) anyStep {} t ∧ t.inUse = [] ∧ t.closed = [] ∧
    t.ports.freePortTable 0 = true ∧ t.marked.length ≠ (waiting t).length + t.opened.length := by
  have hrun : (run (step 1000 fun _ _ => (0 : BitVec 6)) {}
      ([.freePortTable] ++ openActive 80 ++ closeActive 0)).map
      (fun t => (t.inUse, t.closed, t.ports.freePortTable 0)) = some ([], [], true) := by decide +kernel
  obtain ⟨t, ht, hval⟩ := Option.map_eq_some_iff.mp hrun
  simp only [Prod.mk.injEq] at hval
  obtain ⟨huse, hclosed, hfree⟩ := hval
  refine ⟨t, reach_of_run ht, huse, hclosed, hfree, ?_⟩
  simp only [inUse, List.append_eq_nil_iff, List.map_eq_nil_iff] at huse
  rw [huse.1.1.1, huse.1.2]
  have hmem : ephemeral 0 ∈ t.marked := mem_marked.mpr ⟨0, hfree, rfl⟩
  exact Nat.ne_of_gt (List.length_pos_of_mem hmem)

end PortNet

end FpgaNetworkStack.Toe
