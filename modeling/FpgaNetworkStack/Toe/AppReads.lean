import FpgaNetworkStack.Toe.ReadBack
import FpgaNetworkStack.Toe.RxAppRead
import FpgaNetworkStack.Toe.RxSarTable

/-!
# The application reads the receive buffer

`rx_app_stream_if` reads the application pointer of a session, issues a read command and writes the pointer back.  The command
goes through `rxAppMemAccessBreakdown`, and `rxAppMemDataRead` passes on what the memory returns.
-/

namespace FpgaNetworkStack.Toe

open Lib
open Axi (Word Lane Packet Packets Unkept)

variable {b : Build} {N : Nat}

/-! ## What the application is to get -/

/-- A request of at least one byte, with the application pointer of its session. -/
structure AppRead (b : Build) where
  sessionID : SessionID
  appd : BitVec b.windowBits
  length : BitVec 16
  ne : length ≠ 0

namespace AppRead

def cmd (r : AppRead b) : MmCmd := .new (pkgAddr b r.sessionID r.appd) r.length

/-- The bytes of the session's receive buffer from the pointer on. -/
def bytes (mem : BitVec 32 → BitVec 8) (r : AppRead b) : List (BitVec 8) :=
  (List.range r.length.toNat).map fun i => mem (pkgAddr b r.sessionID (r.appd + BitVec.ofNat _ i))

end AppRead

def pointersAfter (appd : SessionID → BitVec b.windowBits) : List AppReadRequest → SessionID → BitVec b.windowBits
  | [] => appd
  | q :: qs => pointersAfter (Function.update appd q.sessionID (appd q.sessionID + q.length.setWidth _)) qs

/-- The reads that requests ask for; those of no bytes are left out. -/
def serve (appd : SessionID → BitVec b.windowBits) : List AppReadRequest → List (AppRead b)
  | [] => []
  | q :: qs =>
    let rest := serve (Function.update appd q.sessionID (appd q.sessionID + q.length.setWidth _)) qs
    if h : q.length = 0 then rest else ⟨q.sessionID, appd q.sessionID, q.length, h⟩ :: rest

variable {appd : SessionID → BitVec b.windowBits} {qs : List AppReadRequest} {q : AppReadRequest}

theorem pointersAfter_snoc : pointersAfter appd (qs ++ [q]) =
    Function.update (pointersAfter appd qs) q.sessionID (pointersAfter appd qs q.sessionID + q.length.setWidth _) := by
  induction qs generalizing appd with
  | nil => rfl
  | cons p qs ih => exact ih

theorem serve_snoc : serve appd (qs ++ [q]) =
    serve appd qs ++ if h : q.length = 0 then [] else [⟨q.sessionID, pointersAfter appd qs q.sessionID, q.length, h⟩] := by
  induction qs generalizing appd with
  | nil => rfl
  | cons p qs ih =>
    rw [List.cons_append, serve, serve, pointersAfter, ih]
    split
    · rfl
    · rw [List.cons_append]

variable {sid : SessionID}

theorem pointersAfter_update (h : sid ∉ qs.map (·.sessionID)) (x : BitVec b.windowBits) :
    pointersAfter (Function.update appd sid x) qs = Function.update (pointersAfter appd qs) sid x := by
  induction qs generalizing appd with
  | nil => rfl
  | cons p qs ih =>
    rw [List.map_cons, List.mem_cons, not_or] at h
    rw [pointersAfter, Function.update_of_ne (Ne.symm h.1), Function.update_comm h.1, ih h.2, pointersAfter]

theorem serve_update (h : sid ∉ qs.map (·.sessionID)) (x : BitVec b.windowBits) :
    serve (Function.update appd sid x) qs = serve appd qs := by
  induction qs generalizing appd with
  | nil => rfl
  | cons p qs ih =>
    rw [List.map_cons, List.mem_cons, not_or] at h
    rw [serve, serve, Function.update_of_ne (Ne.symm h.1), Function.update_comm h.1, ih h.2]

/-- What a session's application has asked for. -/
def asked (sid : SessionID) (qs : List AppReadRequest) : Nat :=
  ((qs.filter fun q => q.sessionID = sid).map (·.length.toNat)).sum

/-- The reads of a session, one after the other, are one read of its buffer. -/
theorem serve_stream (mem : BitVec 32 → BitVec 8) (sid : SessionID) :
    ((serve appd qs).filter fun r => r.sessionID = sid).flatMap (·.bytes mem) =
      (List.range (asked sid qs)).map fun i => mem (pkgAddr b sid (appd sid + BitVec.ofNat _ i)) := by
  unfold asked
  induction qs generalizing appd with
  | nil => rfl
  | cons q qs ih =>
    have hwidth : BitVec.ofNat b.windowBits q.length.toNat = q.length.setWidth _ := BitVec.ofNat_toNat _ _
    rw [serve]
    by_cases hsid : q.sessionID = sid
    · subst hsid
      have hrest := @ih (Function.update appd q.sessionID (appd q.sessionID + q.length.setWidth _))
      rw [Function.update_self] at hrest
      rw [List.filter_cons_of_pos (by simp), List.map_cons, List.sum_cons, List.range_add, List.map_append, List.map_map]
      by_cases hlen : q.length = 0
      · rw [dif_pos hlen, hrest, hlen]
        simp [Function.comp_def]
      · rw [dif_neg hlen, List.filter_cons_of_pos (by simp), List.flatMap_cons, hrest]
        congr 1
        apply List.map_congr_left
        intro i _
        simp only [Function.comp_apply, BitVec.ofNat_add, hwidth, BitVec.add_assoc]
    · have hrest := @ih (Function.update appd q.sessionID (appd q.sessionID + q.length.setWidth _))
      rw [Function.update_of_ne (Ne.symm hsid)] at hrest
      rw [List.filter_cons_of_neg (by simpa using hsid), ← hrest]
      split
      · rfl
      · rw [List.filter_cons_of_neg (by simpa using hsid)]

/-! ## The network -/

variable (b) in
structure ReadNet where
  rasi : RxAppStreamIf
  rasiIn : RxAppStreamIfIn b
  sarIn : RxSarTableIn b
  table : SessionID → RxSarEntry b
  metas : List SessionID
  cmds : List MmCmd
  /-- Every request of the application. -/
  requests : List AppReadRequest
  /-- The pointers with which the sessions were opened. -/
  opened : SessionID → BitVec b.windowBits

namespace ReadNet

def callRasi (t : ReadNet b) : ReadNet b :=
  let (rasi, rasiIn, out) := rxAppStreamIf b t.rasi t.rasiIn
  { t with
    rasi, rasiIn
    sarIn := { t.sarIn with rxApp2rxSarUpdReq := t.sarIn.rxApp2rxSarUpdReq ++ out.rxApp2rxSarUpdReq }
    metas := t.metas ++ out.appRxDataRspMetadata
    cmds := t.cmds ++ out.rxBufferReadCmd }

def callTable (t : ReadNet b) : ReadNet b :=
  let (table, sarIn, out) := rxSarTable b t.table t.sarIn
  { t with
    table, sarIn
    rasiIn := { t.rasiIn with rxSar2rxAppUpdRsp := t.rasiIn.rxSar2rxAppUpdRsp ++ out.rxSar2rxAppUpdRsp }
    opened :=
      match t.sarIn.txEng2rxSarReq, t.sarIn.rxApp2rxSarUpdReq, t.sarIn.rxEng2rxSarUpdReq with
      | [], [], q :: _ => if q.write && q.init then Function.update t.opened q.sessionID (q.recvd.setWidth _) else t.opened
      | _, _, _ => t.opened }

inductive Label where
  | request (q : AppReadRequest)
  | rasi
  | table
  | rxEng (q : RxSarRecvd)
  | txEng (sid : SessionID)

/-- The receive engine opens session `sid`. -/
def opens (q : RxSarRecvd) : Bool := q.write && q.init

/-- The application, the receive engine and the transmit engine are the environment; a session is opened before the
application reads from it. -/
def step (t : ReadNet b) : Label → Option (ReadNet b)
  | .request q =>
    if t.sarIn.rxEng2rxSarUpdReq.any fun p => opens p && p.sessionID == q.sessionID then none
    else some { t with
      requests := t.requests ++ [q]
      rasiIn := { t.rasiIn with appRxDataReq := t.rasiIn.appRxDataReq ++ [q] } }
  | .rasi => some t.callRasi
  | .table => some t.callTable
  | .rxEng q =>
    if opens q && t.requests.any (·.sessionID == q.sessionID) then none
    else some { t with sarIn := { t.sarIn with rxEng2rxSarUpdReq := t.sarIn.rxEng2rxSarUpdReq ++ [q] } }
  | .txEng sid => some { t with sarIn := { t.sarIn with txEng2rxSarReq := t.sarIn.txEng2rxSarReq ++ [sid] } }

def init (table : SessionID → RxSarEntry b) : ReadNet b :=
  ⟨⟨0, false⟩, {}, {}, table, [], [], [], fun sid => (table sid).appd⟩

/-- Both processes have nothing to do. -/
structure AtRest (t : ReadNet b) : Prop where
  rasi : rxAppStreamIf b t.rasi t.rasiIn = (t.rasi, t.rasiIn, {})
  table : rxSarTable b t.table t.sarIn = (t.table, t.sarIn, {})

/-! ## The pointers -/

/-- The pointer of a session once a queued write is served. -/
def pointer (t : ReadNet b) (sid : SessionID) : BitVec b.windowBits :=
  match t.sarIn.rxApp2rxSarUpdReq with
  | p :: _ => if p.write = true ∧ p.sessionID = sid then p.appd else (t.table sid).appd
  | [] => (t.table sid).appd

/-- Between two requests, or inside one: at most one write is queued, in front of at most one read. -/
inductive Phase (t : ReadNet b) : Option AppReadRequest → Prop
  | idle (hfsm : t.rasi.rasiFsmState = false) (hrsp : t.rasiIn.rxSar2rxAppUpdRsp = [])
      (hreq : t.sarIn.rxApp2rxSarUpdReq = [] ∨ ∃ p, t.sarIn.rxApp2rxSarUpdReq = [p] ∧ p.write = true) : Phase t none
  | asked {q : AppReadRequest} (hfsm : t.rasi = ⟨q.length, true⟩) (hne : q.length ≠ 0) (hrsp : t.rasiIn.rxSar2rxAppUpdRsp = [])
      (hreq : t.sarIn.rxApp2rxSarUpdReq = [⟨q.sessionID, 0, false⟩] ∨
        ∃ p, t.sarIn.rxApp2rxSarUpdReq = [p, ⟨q.sessionID, 0, false⟩] ∧ p.write = true) : Phase t (some q)
  | answered {q : AppReadRequest} (hfsm : t.rasi = ⟨q.length, true⟩) (hne : q.length ≠ 0)
      (hrsp : t.rasiIn.rxSar2rxAppUpdRsp = [⟨q.sessionID, (t.table q.sessionID).appd, false⟩])
      (hreq : t.sarIn.rxApp2rxSarUpdReq = []) : Phase t (some q)

/-- The requests `done` are served, and `current` is being served. -/
structure Inv (t : ReadNet b) (done : List AppReadRequest) (current : Option AppReadRequest) : Prop where
  requests : t.requests = done ++ current.toList ++ t.rasiIn.appRxDataReq
  pointers : ∀ sid, t.pointer sid = pointersAfter t.opened done sid
  cmds : t.cmds = (serve t.opened done).map (·.cmd)
  metas : t.metas = (serve t.opened done).map (·.sessionID)
  phase : t.Phase current
  fresh : ∀ p ∈ t.sarIn.rxEng2rxSarUpdReq, opens p = true → p.sessionID ∉ t.requests.map (·.sessionID)

theorem inv_init (table : SessionID → RxSarEntry b) : (init table).Inv [] none where
  requests := rfl
  pointers _ := rfl
  cmds := rfl
  metas := rfl
  phase := .idle rfl rfl (.inl rfl)
  fresh _ hp := (List.not_mem_nil hp).elim

variable {t u : ReadNet b} {done : List AppReadRequest} {current : Option AppReadRequest}

theorem Inv.done_mem (h : t.Inv done current) (hsid : sid ∉ t.requests.map (·.sessionID)) :
    sid ∉ done.map (·.sessionID) := by
  intro hmem
  apply hsid
  rw [h.requests, List.map_append, List.map_append]
  exact List.mem_append_left _ (List.mem_append_left _ hmem)

theorem Phase.congr (h : t.Phase current) (hrasi : u.rasi = t.rasi)
    (hrsp : u.rasiIn.rxSar2rxAppUpdRsp = t.rasiIn.rxSar2rxAppUpdRsp)
    (hreq : u.sarIn.rxApp2rxSarUpdReq = t.sarIn.rxApp2rxSarUpdReq)
    (htable : ∀ q ∈ current, (u.table q.sessionID).appd = (t.table q.sessionID).appd) : u.Phase current := by
  cases h with
  | idle hfsm hrsp' hreq' => exact .idle (hrasi ▸ hfsm) (hrsp ▸ hrsp') (hreq ▸ hreq')
  | asked hfsm hne hrsp' hreq' => exact .asked (hrasi ▸ hfsm) hne (hrsp ▸ hrsp') (hreq ▸ hreq')
  | answered hfsm hne hrsp' hreq' =>
    refine .answered (hrasi ▸ hfsm) hne ?_ (hreq ▸ hreq')
    rw [hrsp, hrsp', htable _ rfl]

theorem inv_rasi (hb : b.rxDdrBypass = false) (h : t.Inv done current) : ∃ done current, t.callRasi.Inv done current := by
  obtain ⟨rasi, ⟨reqs, rsps⟩, ⟨rxEng, rxApp, txEng⟩, table, metas, cmds, requests, opened⟩ := t
  obtain ⟨hrequests, hpointers, hcmds, hmetas, hphase, hfresh⟩ := h
  cases hphase with
  | idle hfsm hrsp hreq =>
    obtain ⟨len, fsm⟩ := rasi
    cases hfsm
    cases reqs with
    | nil =>
      refine ⟨done, none, ?_⟩
      simp only [callRasi, rxAppStreamIf, List.append_nil]
      exact ⟨hrequests, hpointers, hcmds, hmetas, .idle rfl hrsp hreq, hfresh⟩
    | cons q rest =>
      by_cases hlen : q.length = 0
      · -- nothing is asked for
        refine ⟨done ++ [q], none, ?_⟩
        have hsame : pointersAfter opened (done ++ [q]) = pointersAfter opened done := by
          rw [pointersAfter_snoc, hlen]
          simp
        have hserve : serve opened (done ++ [q]) = serve opened done := by
          rw [serve_snoc, dif_pos hlen, List.append_nil]
        simp only [callRasi, rxAppStreamIf, hlen, if_true, List.append_nil]
        refine ⟨?_, ?_, ?_, ?_, .idle rfl hrsp hreq, hfresh⟩
        · rw [hrequests]
          simp
        · rw [hsame]
          exact hpointers
        · rw [hserve]
          exact hcmds
        · rw [hserve]
          exact hmetas
      · refine ⟨done, some q, ?_⟩
        simp only [callRasi, rxAppStreamIf, hlen, if_false, List.append_nil]
        refine ⟨?_, ?_, hcmds, hmetas, ?_, hfresh⟩
        · rw [hrequests]
          simp
        · intro sid
          rw [← hpointers sid]
          rcases hreq with hnil | ⟨p, hp, -⟩
          · simp only at hnil
            subst hnil
            simp [pointer]
          · simp only at hp
            subst hp
            rfl
        · refine .asked rfl hlen hrsp ?_
          rcases hreq with hnil | ⟨p, hp, hw⟩
          · simp only at hnil
            subst hnil
            exact .inl rfl
          · simp only at hp
            subst hp
            exact .inr ⟨p, rfl, hw⟩
  | @asked q hfsm hne hrsp hreq =>
    obtain rfl : rasi = ⟨q.length, true⟩ := hfsm
    obtain rfl : rsps = [] := hrsp
    refine ⟨done, some q, ?_⟩
    simp only [callRasi, rxAppStreamIf, List.append_nil]
    exact ⟨hrequests, hpointers, hcmds, hmetas, .asked rfl hne rfl hreq, hfresh⟩
  | @answered q hfsm hne hrsp hreq =>
    obtain rfl : rasi = ⟨q.length, true⟩ := hfsm
    obtain rfl : rxApp = [] := hreq
    obtain rfl : rsps = [⟨q.sessionID, (table q.sessionID).appd, false⟩] := hrsp
    have hpointer : (table q.sessionID).appd = _ := hpointers q.sessionID
    refine ⟨done ++ [q], none, ?_⟩
    simp only [callRasi, rxAppStreamIf, hb, Bool.false_eq_true, if_false, List.nil_append]
    refine ⟨?_, ?_, ?_, ?_, .idle rfl rfl (.inr ⟨_, rfl, rfl⟩), hfresh⟩
    · rw [hrequests]
      simp
    · intro sid
      rw [pointersAfter_snoc, ← hpointer]
      by_cases hsid : q.sessionID = sid
      · subst hsid
        rw [Function.update_self]
        simp [pointer]
      · rw [Function.update_of_ne (Ne.symm hsid), ← hpointers sid]
        simp [pointer, hsid]
    · have hcmds : cmds = _ := hcmds
      rw [serve_snoc, dif_neg hne, List.map_append, ← hpointer, hcmds]
      rfl
    · have hmetas : metas = _ := hmetas
      rw [serve_snoc, dif_neg hne, List.map_append, hmetas]
      rfl

theorem written_appd (table : SessionID → RxSarEntry b) (p : RxSarAppd b) (sid : SessionID) :
    (Function.update table p.sessionID { table p.sessionID with appd := p.appd } sid).appd =
      if p.sessionID = sid then p.appd else (table sid).appd := by
  by_cases hsid : p.sessionID = sid
  · subst hsid
    rw [Function.update_self, if_pos rfl]
  · rw [Function.update_of_ne (Ne.symm hsid), if_neg hsid]

theorem recvd_appd (table : SessionID → RxSarEntry b) (q : RxSarRecvd) (sid : SessionID) :
    (Function.update table q.sessionID ((table q.sessionID).recvdUpdate b q) sid).appd =
      if q.init = true ∧ q.sessionID = sid then q.recvd.setWidth _ else (table sid).appd := by
  by_cases hsid : q.sessionID = sid
  · subst hsid
    rw [Function.update_self, RxSarEntry.recvdUpdate]
    cases q.init <;> simp
  · rw [Function.update_of_ne (Ne.symm hsid), if_neg (fun h => hsid h.2)]

theorem inv_table (h : t.Inv done current) : ∃ done current, t.callTable.Inv done current := by
  have hdone {sid : SessionID} (hsid : sid ∉ t.requests.map (·.sessionID)) := h.done_mem hsid
  obtain ⟨rasi, ⟨reqs, rsps⟩, ⟨rxEng, rxApp, txEng⟩, table, metas, cmds, requests, opened⟩ := t
  obtain ⟨hrequests, hpointers, hcmds, hmetas, hphase, hfresh⟩ := h
  cases txEng with
  | cons sid rest =>
    refine ⟨done, current, ?_⟩
    simp only [callTable, rxSarTable, List.append_nil]
    exact ⟨hrequests, hpointers, hcmds, hmetas, hphase.congr rfl rfl rfl fun _ _ => rfl, hfresh⟩
  | nil => cases rxApp with
    | cons p rest =>
      cases hphase with
      | idle hfsm hrsp hreq =>
        -- the pointer is written back
        obtain ⟨_, hlist, hw⟩ : ∃ p', p :: rest = [p'] ∧ p'.write = true := hreq.resolve_left (List.cons_ne_nil _ _)
        obtain ⟨rfl, rfl⟩ := List.cons.inj hlist
        refine ⟨done, none, ?_⟩
        simp only [callTable, rxSarTable, hw, if_true, List.append_nil]
        refine ⟨hrequests, ?_, hcmds, hmetas, .idle hfsm hrsp (.inl rfl), hfresh⟩
        intro sid
        rw [← hpointers sid]
        simp [pointer, written_appd, hw]
      | @asked q hfsm hne hrsp hreq =>
        obtain rfl : rsps = [] := hrsp
        rcases hreq with hlist | ⟨_, hlist, hw⟩
        · -- the read is answered
          obtain ⟨rfl, rfl⟩ := List.cons.inj hlist
          refine ⟨done, some q, ?_⟩
          simp only [callTable, rxSarTable, Bool.false_eq_true, if_false, List.nil_append]
          refine ⟨hrequests, ?_, hcmds, hmetas, .answered hfsm hne rfl rfl, hfresh⟩
          intro sid
          rw [← hpointers sid]
          simp [pointer]
        · obtain ⟨rfl, rfl⟩ := List.cons.inj hlist
          refine ⟨done, some q, ?_⟩
          simp only [callTable, rxSarTable, hw, if_true, List.append_nil]
          refine ⟨hrequests, ?_, hcmds, hmetas, .asked hfsm hne rfl (.inl rfl), hfresh⟩
          intro sid
          rw [← hpointers sid]
          simp [pointer, written_appd, hw]
      | answered _ _ _ hreq => cases hreq
    | nil => cases rxEng with
      | nil =>
        refine ⟨done, current, ?_⟩
        simp only [callTable, rxSarTable, List.append_nil]
        exact ⟨hrequests, hpointers, hcmds, hmetas, hphase, hfresh⟩
      | cons q rest =>
        have hrest : ∀ p ∈ rest, opens p = true → p.sessionID ∉ requests.map (·.sessionID) :=
          fun p hp => hfresh p (List.mem_cons_of_mem q hp)
        by_cases hw : q.write = true
        · by_cases hi : q.init = true
          · -- the session is opened; nothing has been asked for
            have hsid : q.sessionID ∉ requests.map (·.sessionID) := hfresh q List.mem_cons_self (by simp [opens, hw, hi])
            refine ⟨done, current, ?_⟩
            simp only [callTable, rxSarTable, hw, hi, Bool.and_self, if_true, List.append_nil]
            refine ⟨hrequests, ?_, ?_, ?_, ?_, hrest⟩
            · intro sid
              rw [pointersAfter_update (hdone hsid)]
              change (Function.update table q.sessionID ((table q.sessionID).recvdUpdate b q) sid).appd = _
              have hpointer : (table sid).appd = _ := hpointers sid
              rw [recvd_appd, hpointer]
              by_cases hq : q.sessionID = sid
              · subst hq
                rw [if_pos ⟨hi, rfl⟩, Function.update_self]
              · rw [if_neg (fun h => hq h.2), Function.update_of_ne (Ne.symm hq)]
            · rw [serve_update (hdone hsid)]
              exact hcmds
            · rw [serve_update (hdone hsid)]
              exact hmetas
            · refine hphase.congr rfl rfl rfl fun p hp => ?_
              have hne : q.sessionID ≠ p.sessionID := by
                intro heq
                apply hsid
                change requests = _ at hrequests
                rw [hrequests, heq, Option.mem_def.mp hp]
                simp
              exact (recvd_appd ..).trans (if_neg fun h => hne h.2)
          · -- the pointer stays
            have happd (sid : SessionID) :
                (Function.update table q.sessionID ((table q.sessionID).recvdUpdate b q) sid).appd = (table sid).appd := by
              rw [recvd_appd, if_neg (fun h => hi h.1)]
            refine ⟨done, current, ?_⟩
            simp only [callTable, rxSarTable, hw, hi, Bool.and_false, Bool.false_eq_true, if_true, if_false, List.append_nil]
            exact ⟨hrequests, fun sid => (happd sid).trans (hpointers sid), hcmds, hmetas,
              hphase.congr rfl rfl rfl fun p _ => happd p.sessionID, hrest⟩
        · refine ⟨done, current, ?_⟩
          simp only [callTable, rxSarTable, hw, Bool.false_and, Bool.false_eq_true, if_false, List.append_nil]
          exact ⟨hrequests, hpointers, hcmds, hmetas, hphase.congr rfl rfl rfl fun _ _ => rfl, hrest⟩

theorem inv_step (hb : b.rxDdrBypass = false) (h : t.Inv done current) {l : Label} (hs : t.step l = some u) :
    ∃ done current, u.Inv done current := by
  cases l with
  | request q =>
    simp only [step] at hs
    split at hs
    · cases hs
    · next hopen =>
        cases hs
        obtain ⟨hrequests, hpointers, hcmds, hmetas, hphase, hfresh⟩ := h
        refine ⟨done, current, ?_, hpointers, hcmds, hmetas, ?_, ?_⟩
        · change t.requests ++ [q] = done ++ current.toList ++ (t.rasiIn.appRxDataReq ++ [q])
          rw [hrequests, List.append_assoc]
        · exact hphase.congr rfl rfl rfl fun _ _ => rfl
        · intro p hp ho hmem
          rw [List.map_append, List.mem_append] at hmem
          rcases hmem with hmem | hmem
          · exact hfresh p hp ho hmem
          · refine hopen (List.any_eq_true.mpr ⟨p, hp, ?_⟩)
            simp [ho, List.mem_singleton.mp hmem]
  | rasi =>
    cases hs
    exact inv_rasi hb h
  | table =>
    cases hs
    exact inv_table h
  | rxEng q =>
    simp only [step] at hs
    split at hs
    · cases hs
    · next hopen =>
        cases hs
        obtain ⟨hrequests, hpointers, hcmds, hmetas, hphase, hfresh⟩ := h
        refine ⟨done, current, hrequests, hpointers, hcmds, hmetas, ?_, ?_⟩
        · exact hphase.congr rfl rfl rfl fun _ _ => rfl
        · intro p hp ho hmem
          rcases List.mem_append.mp hp with hp | hp
          · exact hfresh p hp ho hmem
          · obtain rfl := List.mem_singleton.mp hp
            obtain ⟨r, hr, hsid⟩ := List.mem_map.mp hmem
            apply hopen
            rw [ho, Bool.true_and, List.any_eq_true]
            exact ⟨r, hr, by simp [hsid]⟩
  | txEng sid =>
    cases hs
    obtain ⟨hrequests, hpointers, hcmds, hmetas, hphase, hfresh⟩ := h
    exact ⟨done, current, hrequests, hpointers, hcmds, hmetas, hphase.congr rfl rfl rfl fun _ _ => rfl, hfresh⟩

theorem inv_reach (hb : b.rxDdrBypass = false) {table : SessionID → RxSarEntry b} (h : Reach step anyStep (init table) t) :
    ∃ done current, t.Inv done current := by
  refine h.invariant (P := fun t => ∃ done current, t.Inv done current) ⟨[], none, inv_init table⟩ ?_
  rintro u l v ⟨done, current, hu⟩ - hs
  exact inv_step hb hu hs

/-! ## At rest -/

theorem AtRest.queues (h : t.AtRest) :
    t.sarIn.txEng2rxSarReq = [] ∧ t.sarIn.rxApp2rxSarUpdReq = [] ∧ t.sarIn.rxEng2rxSarUpdReq = [] := by
  have hin := congrArg (fun r => r.2.1) h.table
  generalize t.sarIn = i at hin
  obtain ⟨rxEng, rxApp, txEng⟩ := i
  cases txEng with
  | cons sid rest => simp [rxSarTable] at hin
  | nil => cases rxApp with
    | cons p rest =>
      simp only [rxSarTable] at hin
      split at hin <;> simp at hin
    | nil => cases rxEng with
      | cons q rest =>
        simp only [rxSarTable] at hin
        split at hin <;> simp at hin
      | nil => exact ⟨rfl, rfl, rfl⟩

theorem at_rest_of (hfsm : t.rasi.rasiFsmState = false) (hreqs : t.rasiIn.appRxDataReq = []) (htx : t.sarIn.txEng2rxSarReq = [])
    (happ : t.sarIn.rxApp2rxSarUpdReq = []) (hrx : t.sarIn.rxEng2rxSarUpdReq = []) : t.AtRest := by
  constructor
  · simp [rxAppStreamIf, hfsm, hreqs]
  · simp [rxSarTable, htx, happ, hrx]

theorem Inv.at_rest (h : t.Inv done current) (hrest : t.AtRest) : done = t.requests ∧ current = none := by
  obtain ⟨-, happ, -⟩ := hrest.queues
  have hrequests := h.requests
  have hstate := congrArg (fun r => r.1.rasiFsmState) hrest.rasi
  have hin := congrArg (fun r => r.2.1) hrest.rasi
  cases h.phase with
  | idle hfsm _ _ =>
    simp only [rxAppStreamIf, hfsm] at hstate hin
    cases hreqs : t.rasiIn.appRxDataReq with
    | nil =>
      rw [hreqs, List.append_nil, Option.toList_none, List.append_nil] at hrequests
      exact ⟨hrequests.symm, rfl⟩
    | cons q rest =>
      have hlen (h : rest = q :: rest) : False := List.cons_ne_self q rest h.symm
      rw [hreqs] at hstate hin
      dsimp only at hstate hin
      by_cases hzero : q.length = 0
      · rw [if_pos hzero] at hin
        have hqueue := congrArg RxAppStreamIfIn.appRxDataReq hin
        exact (hlen (hqueue.trans hreqs)).elim
      · rw [if_neg hzero] at hstate
        cases hstate
  | asked _ _ _ hreq =>
    rcases hreq with hreq | ⟨p, hreq, -⟩
    · simp [happ] at hreq
    · simp [happ] at hreq
  | answered hfsm _ hrsp _ => simp [rxAppStreamIf, hfsm, hrsp] at hstate

theorem served (hb : b.rxDdrBypass = false) {table : SessionID → RxSarEntry b} (h : Reach step anyStep (init table) t)
    (hrest : t.AtRest) :
    t.cmds = (serve t.opened t.requests).map (·.cmd) ∧ t.metas = (serve t.opened t.requests).map (·.sessionID) ∧
      ∀ sid, (t.table sid).appd = pointersAfter t.opened t.requests sid := by
  obtain ⟨done, current, hinv⟩ := inv_reach hb h
  obtain ⟨rfl, rfl⟩ := hinv.at_rest hrest
  refine ⟨hinv.cmds, hinv.metas, fun sid => ?_⟩
  rw [← hinv.pointers sid, pointer, hrest.queues.2.1]

/-- What is still to be done: a request is a read of the pointer, its answer, and a write. -/
def work (t : ReadNet b) : Nat :=
  6 * t.rasiIn.appRxDataReq.length + 2 * t.rasiIn.rxSar2rxAppUpdRsp.length + t.sarIn.txEng2rxSarReq.length +
    t.sarIn.rxEng2rxSarUpdReq.length + (t.sarIn.rxApp2rxSarUpdReq.map fun p => if p.write then 1 else 3).sum

theorem work_rasi (t : ReadNet b) :
    rxAppStreamIf b t.rasi t.rasiIn = (t.rasi, t.rasiIn, {}) ∨ t.callRasi.work < t.work := by
  obtain ⟨⟨len, fsm⟩, ⟨reqs, rsps⟩, ⟨rxEng, rxApp, txEng⟩, table, metas, cmds, requests, opened⟩ := t
  cases fsm with
  | false => cases reqs with
    | nil => exact .inl rfl
    | cons q rest =>
      right
      by_cases hlen : q.length = 0#16
      · simp [callRasi, rxAppStreamIf, work, hlen]
      · simp [callRasi, rxAppStreamIf, work, hlen]
        omega
  | true => cases rsps with
    | nil => exact .inl rfl
    | cons r rest =>
      right
      simp [callRasi, rxAppStreamIf, work]
      omega

theorem work_table (t : ReadNet b) :
    rxSarTable b t.table t.sarIn = (t.table, t.sarIn, {}) ∨ t.callTable.work < t.work := by
  obtain ⟨rasi, ⟨reqs, rsps⟩, ⟨rxEng, rxApp, txEng⟩, table, metas, cmds, requests, opened⟩ := t
  cases txEng with
  | cons sid rest =>
    right
    simp [callTable, rxSarTable, work]
  | nil => cases rxApp with
    | cons p rest =>
      right
      by_cases hw : p.write = true
      · simp [callTable, rxSarTable, work, hw]
      · simp [callTable, rxSarTable, work, hw]
        omega
    | nil => cases rxEng with
      | cons q rest =>
        right
        by_cases hw : q.write = true
        · simp [callTable, rxSarTable, work, hw]
        · simp [callTable, rxSarTable, work, hw]
      | nil => exact .inl rfl

theorem comes_to_rest (t : ReadNet b) : ∃ u, Reach step anyStep t u ∧ u.AtRest ∧ u.requests = t.requests := by
  induction hwork : t.work using Nat.strongRecOn generalizing t with
  | ind n ih =>
    rcases work_rasi t with hrasi | hless
    · rcases work_table t with htable | hless
      · exact ⟨t, .refl t, ⟨hrasi, htable⟩, rfl⟩
      · obtain ⟨u, hu, hrest, hreqs⟩ := ih _ (hwork ▸ hless) t.callTable rfl
        exact ⟨u, .head ⟨.table, trivial, rfl⟩ hu, hrest, hreqs⟩
    · obtain ⟨u, hu, hrest, hreqs⟩ := ih _ (hwork ▸ hless) t.callRasi rfl
      exact ⟨u, .head ⟨.rasi, trivial, rfl⟩ hu, hrest, hreqs⟩

end ReadNet

end FpgaNetworkStack.Toe
