import FpgaNetworkStack.Lib.Reach
import FpgaNetworkStack.Toe.SessionLookup
import Mathlib.Data.List.Count

/-!
# Session IDs are unique

The processes of the session lookup controller and the hash table run in any order.  Every ID is counted at
the places where it can be; each step moves one ID from one place to another.
-/

namespace FpgaNetworkStack.Toe

open Lib

/-! ## The network -/

structure SessionNet (w : Nat) where
  counter : BitVec 14 := 0
  finId : List (BitVec 14) := []
  handler : LookupReplyHandler := {}
  inp : LookupReplyHandlerIn := {}
  upd : UpdateRequestSenderIn := {}
  updateRsp : List RtlSessionUpdateReply := []
  rev : ReverseLookupTable := {}
  revIn : ReverseLookupTableIn := {}
  table : HashTable ThreeTuple w := { cuckooTables := fun _ _ => ⟨default, 0, false⟩ }
  tableIn : HashTableIn := {}
  rxRsp : List SessionLookupReply := []
  txRsp : List SessionLookupReply := []
  releasePort : List (BitVec 16) := []

inductive SessionLabel where
  | rxLookup (q : SessionLookupQuery)
  | txLookup (t : FourTuple)
  | release (id : SessionID)
  | revLookup (id : SessionID)
  | sessionIdManager | lookupReplyHandler | updateRequestSender | updateReplyHandler
  | reverseLookupTableInterface | hashTable
  deriving DecidableEq

namespace SessionNet

variable {w : Nat}

/-- One call of a process, or a request from outside. -/
def step (maxSessions : Nat) (hashes : ThreeTuple → Fin NUM_TABLES → BitVec w) (t : SessionNet w) :
    SessionLabel → Option (SessionNet w)
  | .rxLookup q => some { t with inp := { t.inp with rxEng2sLookupReq := t.inp.rxEng2sLookupReq ++ [q] } }
  | .txLookup q => some { t with inp := { t.inp with txApp2sLookupReq := t.inp.txApp2sLookupReq ++ [q] } }
  | .release id => some { t with revIn := { t.revIn with
      stateTable2sLookupReleaseSession := t.revIn.stateTable2sLookupReleaseSession ++ [id] } }
  | .revLookup id => some { t with revIn := { t.revIn with
      txEng2sLookupRevReq := t.revIn.txEng2sLookupRevReq ++ [id] } }
  | .sessionIdManager =>
    let (counter, finId, out) := Toe.sessionIdManager maxSessions t.counter t.finId
    some { t with counter, finId, inp := { t.inp with sessionIdFreeList := t.inp.sessionIdFreeList ++ out } }
  | .lookupReplyHandler =>
    let (handler, inp, out) := Toe.lookupReplyHandler t.handler t.inp
    some { t with
      handler, inp
      tableIn := { t.tableIn with lupReq := t.tableIn.lupReq ++ out.sessionLookupReq }
      upd := { t.upd with sessionInsertReq := t.upd.sessionInsertReq ++ out.sessionInsertReq }
      revIn := { t.revIn with revTableInserts := t.revIn.revTableInserts ++ out.reverseTableInsertFifo }
      rxRsp := t.rxRsp ++ out.sLookup2rxEngRsp
      txRsp := t.txRsp ++ out.sLookup2txAppRsp }
  | .updateRequestSender =>
    let (upd, out, fin) := Toe.updateRequestSender t.upd
    some { t with upd, tableIn := { t.tableIn with updReq := t.tableIn.updReq ++ out }, finId := t.finId ++ fin }
  | .updateReplyHandler =>
    let (updateRsp, out) := Toe.updateReplyHandler t.updateRsp
    some { t with updateRsp, inp := { t.inp with sessionInsertRsp := t.inp.sessionInsertRsp ++ out } }
  | .reverseLookupTableInterface =>
    let (rev, revIn, out) := Toe.reverseLookupTableInterface 0 t.rev t.revIn
    some { t with
      rev, revIn
      upd := { t.upd with sessionDeleteReq := t.upd.sessionDeleteReq ++ out.deleteCache }
      releasePort := t.releasePort ++ out.sLookup2portTableReleasePort }
  | .hashTable =>
    let (table, tableIn, lup, upd) := hashTableCore hashes t.table t.tableIn
    some { t with
      table, tableIn
      inp := { t.inp with sessionLookupRsp := t.inp.sessionLookupRsp ++ lup }
      updateRsp := t.updateRsp ++ upd }

/-! ## Where an ID can be -/

/-- In the free list, or not issued yet. -/
def free (maxSessions : Nat) (t : SessionNet w) (id : SessionID) : Nat :=
  (if t.counter.toNat ≤ id.toNat ∧ id.toNat < maxSessions then 1 else 0) +
    (t.inp.sessionIdFreeList.map (BitVec.setWidth 16)).count id

/-- Insertions the hash table has not applied. -/
def requested (t : SessionNet w) : List (SessionID × ThreeTuple) :=
  (t.upd.sessionInsertReq ++ t.tableIn.updReq.filter fun r => r.op == .INSERT).map fun r => (r.value, r.key)

/-- Insertions it has applied and that are not answered yet. -/
def applied (t : SessionNet w) : List (SessionID × ThreeTuple) :=
  ((t.updateRsp.filter fun r => r.op == .INSERT) ++ t.inp.sessionInsertRsp).map fun r => (r.sessionID, r.key)

/-- Live tuples with an ID: it was taken from the free list and is not released. -/
def held (t : SessionNet w) (id : SessionID) : Nat :=
  (t.requested.map Prod.fst).count id + (t.applied.map Prod.fst).count id +
    (t.revIn.revTableInserts.map RevLupInsert.key).count id + (if t.rev.tupleValid id then 1 else 0)

def releasing (t : SessionNet w) (id : SessionID) : Nat :=
  (t.upd.sessionDeleteReq.map RtlSessionUpdateRequest.value).count id +
    (t.finId.map (BitVec.setWidth 16)).count id

/-- The ID was given to the tuple by an answer. -/
def HandedOut (t : SessionNet w) (id : SessionID) (tuple : ThreeTuple) : Prop :=
  ⟨id, tuple⟩ ∈ t.revIn.revTableInserts ∨ t.rev.tupleValid id = true ∧ t.rev.reverseLookupTable id = tuple

def Settled (t : SessionNet w) (id : SessionID) (tuple : ThreeTuple) : Prop :=
  (id, tuple) ∈ t.applied ∨ HandedOut t id tuple

/-- The tuple is live and the ID is its own. -/
def Holds (t : SessionNet w) (id : SessionID) (tuple : ThreeTuple) : Prop :=
  (id, tuple) ∈ t.requested ∨ Settled t id tuple

/-- A deletion of the tuple is on its way to the hash table. -/
def Deleting (t : SessionNet w) (id : SessionID) (tuple : ThreeTuple) : Prop :=
  (∃ r ∈ t.upd.sessionDeleteReq, r.value = id ∧ r.key = tuple) ∨
    ∃ r ∈ t.tableIn.updReq, r.op = .DELETE ∧ r.value = id ∧ r.key = tuple

structure Inv (maxSessions : Nat) (hashes : ThreeTuple → Fin NUM_TABLES → BitVec w) (t : SessionNet w) : Prop where
  ids : ∀ id, t.free maxSessions id + t.held id + t.releasing id = if id.toNat < maxSessions then 1 else 0
  -- `lookupReplyHandler` inserts one tuple at a time
  inserting : if t.handler.slcFsmState = .UPD_RSP then
      ∃ id tuple, t.requested ++ t.applied = [(id, tuple)] ∧ t.handler.slcInsertTuples = [tuple]
    else t.requested ++ t.applied = [] ∧ t.handler.slcInsertTuples = []
  asking : t.tableIn.lupReq.length + t.inp.sessionLookupRsp.length =
    if t.handler.slcFsmState = .LUP_RSP then 1 else 0
  inserts : ∀ r ∈ t.upd.sessionInsertReq, r.op = .INSERT
  releases : ∀ r ∈ t.upd.sessionDeleteReq, r.op = .DELETE
  placed : Placed hashes t.table.cuckooTables
  stored : ∀ e, Stored t.table.cuckooTables e → Settled t e.value e.key ∨ Deleting t e.value e.key
  deletes : ∀ r ∈ t.tableIn.updReq, r.op = .DELETE → ∀ tuple, ¬ Settled t r.value tuple
  -- a deletion stands before the next insertion with its ID
  order : t.tableIn.updReq.Pairwise fun a b => a.op = .INSERT → b.op = .DELETE → b.value ≠ a.value
  hits : ∀ r ∈ t.inp.sessionLookupRsp, r.hit = true → ∀ tuple, Holds t r.sessionID tuple → tuple = r.key

/-! ## Counting -/

section Counting

variable {α β : Type*} [DecidableEq β] {f : α → β} {l : List α} {x y : α}

theorem count_map_pos (hx : x ∈ l) : 0 < (l.map f).count (f x) :=
  List.count_pos_iff.mpr (List.mem_map_of_mem hx)

theorem eq_of_count_map_le_one (hx : x ∈ l) (hy : y ∈ l) (hf : f x = f y) (hle : (l.map f).count (f x) ≤ 1) :
    x = y := by
  induction l with
  | nil => exact (List.not_mem_nil hx).elim
  | cons a l ih =>
    rw [List.map_cons, List.count_cons] at hle
    rcases List.mem_cons.mp hx with rfl | hx' <;> rcases List.mem_cons.mp hy with rfl | hy'
    · rfl
    · have hpos := count_map_pos (f := f) hy'
      rw [← hf] at hpos
      simp only [beq_self_eq_true, if_true] at hle
      omega
    · have hpos := count_map_pos (f := f) hx'
      rw [hf] at hpos hle
      simp only [beq_self_eq_true, if_true] at hle
      omega
    · exact ih hx' hy' (by omega)

end Counting

variable {maxSessions : Nat} {hashes : ThreeTuple → Fin NUM_TABLES → BitVec w} {t u : SessionNet w}
  {id : SessionID} {tuple tuple' : ThreeTuple}

theorem HandedOut.pos (h : HandedOut t id tuple) :
    0 < (t.revIn.revTableInserts.map RevLupInsert.key).count id + (if t.rev.tupleValid id then 1 else 0) := by
  rcases h with h | ⟨h, -⟩
  · exact Nat.add_pos_left (count_map_pos (f := RevLupInsert.key) h) _
  · rw [if_pos h]
    exact Nat.succ_pos _

theorem Holds.pos (h : Holds t id tuple) : 0 < t.held id := by
  unfold held
  rcases h with h | h | h
  · have := count_map_pos (f := Prod.fst) h
    simp only at this
    omega
  · have := count_map_pos (f := Prod.fst) h
    simp only at this
    omega
  · have := h.pos
    omega

/-- An ID that is counted once is held by one tuple. -/
theorem Holds.unique (h : Holds t id tuple) (h' : Holds t id tuple') (hle : t.held id ≤ 1) : tuple = tuple' := by
  have hpair {l : List (SessionID × ThreeTuple)} (hx : (id, tuple) ∈ l) (hy : (id, tuple') ∈ l)
      (hc : (l.map Prod.fst).count id ≤ 1) : tuple = tuple' :=
    (Prod.mk.inj (eq_of_count_map_le_one (f := Prod.fst) hx hy rfl hc)).2
  have hcount {l : List (SessionID × ThreeTuple)} {x : ThreeTuple} (hx : (id, x) ∈ l) :
      0 < (l.map Prod.fst).count id := count_map_pos (f := Prod.fst) hx
  unfold held at hle
  rcases h with h | h | h <;> rcases h' with h' | h' | h'
  · exact hpair h h' (by omega)
  · have := hcount h
    have := hcount h'
    omega
  · have := hcount h
    have := h'.pos
    omega
  · have := hcount h
    have := hcount h'
    omega
  · exact hpair h h' (by omega)
  · have := hcount h
    have := h'.pos
    omega
  · have := hcount h'
    have := h.pos
    omega
  · have := hcount h'
    have := h.pos
    omega
  · rcases h with h | ⟨hv, h⟩ <;> rcases h' with h' | ⟨hv', h'⟩
    · have hins := eq_of_count_map_le_one (f := RevLupInsert.key) h h' rfl (by simp only; omega)
      exact (RevLupInsert.mk.inj hins).2
    · have := count_map_pos (f := RevLupInsert.key) h
      simp only at this
      rw [if_pos hv'] at hle
      omega
    · have := count_map_pos (f := RevLupInsert.key) h'
      simp only at this
      rw [if_pos hv] at hle
      omega
    · exact h.symm.trans h'

namespace Inv

theorem held_le (h : Inv maxSessions hashes t) (id : SessionID) : t.held id ≤ 1 := by
  have := h.ids id
  split at this <;> omega

theorem not_holds (h : Inv maxSessions hashes t) (hr : 0 < t.releasing id) : ¬ Holds t id tuple := by
  intro hh
  have := h.ids id
  have := hh.pos
  split at * <;> omega

theorem lt_of_pos (h : Inv maxSessions hashes t) (hp : 0 < t.free maxSessions id + t.held id + t.releasing id) :
    id.toNat < maxSessions := by
  have := h.ids id
  split at this
  · assumption
  · omega

theorem not_deleting (h : Inv maxSessions hashes t) (hs : Settled t id tuple) : ¬ Deleting t id tuple' := by
  rintro (⟨r, hr, hv, -⟩ | ⟨r, hr, hop, hv, -⟩)
  · refine h.not_holds ?_ (.inr hs)
    have := count_map_pos (f := RtlSessionUpdateRequest.value) hr
    rw [hv] at this
    unfold releasing
    omega
  · exact h.deletes r hr hop tuple (hv ▸ hs)

theorem stored_key (h : Inv maxSessions hashes t) {e : HtEntry ThreeTuple} (hs : Settled t id tuple)
    (he : Stored t.table.cuckooTables e) (hv : e.value = id) : e.key = tuple := by
  rcases h.stored e he with hk | hk
  · rw [hv] at hk
    exact Holds.unique (.inr hk) (.inr hs) (h.held_le id)
  · rw [hv] at hk
    exact absurd hk (h.not_deleting hs)

end Inv

/-! ## Steps -/

theorem Inv.sessionIdManager (hmax : maxSessions < 2 ^ 14) (h : Inv maxSessions hashes t)
    (hs : t.step maxSessions hashes .sessionIdManager = some u) : Inv maxSessions hashes u := by
  simp only [step, Option.some.injEq] at hs
  cases hfin : t.finId with
  | cons x rest =>
    simp only [Toe.sessionIdManager, hfin] at hs
    rw [← hs]
    refine { h with ids := fun id => ?_ }
    rw [← h.ids id]
    simp only [free, held, releasing, requested, applied, hfin, List.map_append, List.map_cons, List.map_nil,
      List.count_append, List.count_cons, List.count_nil]
    omega
  | nil =>
    simp only [Toe.sessionIdManager, hfin] at hs
    split at hs
    · next hc =>
        rw [← hs]
        refine { h with ids := fun id => ?_ }
        rw [← h.ids id]
        have hsucc : (t.counter + 1).toNat = t.counter.toNat + 1 := by
          rw [BitVec.toNat_add]
          show (t.counter.toNat + 1) % 2 ^ 14 = _
          omega
        have hid : (BitVec.setWidth 16 t.counter == id) = decide (t.counter.toNat = id.toNat) := by
          rw [Bool.eq_iff_iff, beq_iff_eq, decide_eq_true_eq, ← BitVec.toNat_inj, BitVec.toNat_setWidth]
          have := t.counter.isLt
          rw [Nat.mod_eq_of_lt (by omega)]
        simp only [free, held, releasing, requested, applied, hfin, List.map_append, List.map_cons, List.map_nil,
          List.count_append, List.count_cons, List.count_nil, hsucc, hid, decide_eq_true_eq]
        split_ifs <;> omega
    · rw [← hs]
      rw [List.append_nil, ← hfin]
      exact h

/-- The insertion that is on its way only moved. -/
theorem Inv.inserting_perm (h : Inv maxSessions hashes t) (hhandler : u.handler = t.handler)
    (hperm : (u.requested ++ u.applied).Perm (t.requested ++ t.applied)) :
    if u.handler.slcFsmState = .UPD_RSP then
      ∃ id tuple, u.requested ++ u.applied = [(id, tuple)] ∧ u.handler.slcInsertTuples = [tuple]
    else u.requested ++ u.applied = [] ∧ u.handler.slcInsertTuples = [] := by
  have hone := h.inserting
  rw [hhandler]
  split at hone
  · next hst =>
      obtain ⟨id, tuple, heq, htuples⟩ := hone
      rw [heq, List.perm_singleton] at hperm
      rw [if_pos hst]
      exact ⟨id, tuple, hperm, htuples⟩
  · next hst =>
      rw [hone.1, List.perm_nil] at hperm
      rw [if_neg hst]
      exact ⟨hperm, hone.2⟩

theorem Inv.updateReplyHandler (h : Inv maxSessions hashes t)
    (hs : t.step maxSessions hashes .updateReplyHandler = some u) : Inv maxSessions hashes u := by
  simp only [step, Option.some.injEq] at hs
  cases hrsp : t.updateRsp with
  | nil =>
    simp only [Toe.updateReplyHandler, hrsp, List.append_nil] at hs
    rw [← hs, ← hrsp]
    exact h
  | cons r rest =>
    simp only [Toe.updateReplyHandler, hrsp] at hs
    -- the answer of an insertion is still an applied insertion
    have happ : u.applied.Perm t.applied := by
      rw [← hs]
      simp only [applied, hrsp]
      refine List.Perm.map _ ?_
      rw [List.filter_cons]
      cases hop : r.op with
      | INSERT =>
        simp only [if_true, beq_self_eq_true]
        have hp := @List.perm_middle _ r (rest.filter (·.op == .INSERT) ++ t.inp.sessionInsertRsp) []
        simpa using hp
      | DELETE => simp
    subst hs
    have hset (id : SessionID) (x : ThreeTuple) := or_congr_left (c := HandedOut t id x) (happ.mem_iff (a := (id, x)))
    refine { h with
      ids := fun id => ?_, inserting := h.inserting_perm rfl (happ.append_left _)
      stored := fun e he => (h.stored e he).imp_left (hset _ _).mpr
      deletes := fun r hr hop x hx => h.deletes r hr hop x ((hset _ _).mp hx)
      hits := fun r hr hhit x hx => h.hits r hr hhit x (hx.imp_right (hset _ _).mp) }
    rw [← h.ids id, held, (happ.map Prod.fst).count_eq]
    rfl

theorem Inv.updateRequestSender (hmax : maxSessions < 2 ^ 14) (h : Inv maxSessions hashes t)
    (hs : t.step maxSessions hashes .updateRequestSender = some u) : Inv maxSessions hashes u := by
  simp only [step, Option.some.injEq] at hs
  cases hins : t.upd.sessionInsertReq with
  | cons r rest =>
    simp only [Toe.updateRequestSender, hins, List.append_nil] at hs
    have hop := h.inserts r (by rw [hins]; exact List.mem_cons_self)
    have hreq : u.requested.Perm t.requested := by
      rw [← hs]
      simp only [requested, hins]
      refine List.Perm.map _ ?_
      have hfilter : (t.tableIn.updReq ++ [r]).filter (·.op == .INSERT) =
          t.tableIn.updReq.filter (·.op == .INSERT) ++ [r] := by
        rw [List.filter_append, List.filter_cons, hop]
        rfl
      rw [hfilter]
      have hp := @List.perm_middle _ r (rest ++ t.tableIn.updReq.filter (·.op == .INSERT)) []
      simpa using hp
    subst hs
    have hnot (hdel : r.op = .DELETE) : False := by
      rw [hop] at hdel
      cases hdel
    refine { h with
      ids := fun id => ?_, inserting := h.inserting_perm rfl (hreq.append_right _)
      inserts := fun r' hr' => h.inserts r' (hins ▸ List.mem_cons_of_mem _ hr')
      stored := fun e he => (h.stored e he).imp_right (Or.imp_right fun ⟨r', hr', hx⟩ =>
        ⟨r', List.mem_append_left _ hr', hx⟩)
      deletes := List.forall_mem_append.mpr ⟨h.deletes, fun r' hr' hop' => ?_⟩
      order := List.pairwise_append.mpr ⟨h.order, List.pairwise_singleton _ _, fun a _ b hb _ hbop => ?_⟩
      hits := fun r' hr' hhit x hx => h.hits r' hr' hhit x (hx.imp_left hreq.mem_iff.mp) }
    · rw [← h.ids id, held, (hreq.map Prod.fst).count_eq]
      rfl
    · exact (hnot (List.mem_singleton.mp hr' ▸ hop')).elim
    · exact (hnot (List.mem_singleton.mp hb ▸ hbop)).elim
  | nil =>
    cases hdelq : t.upd.sessionDeleteReq with
    | nil =>
      simp only [Toe.updateRequestSender, hins, hdelq, List.append_nil] at hs
      rw [← hs]
      exact h
    | cons r rest =>
      simp only [Toe.updateRequestSender, hins, hdelq] at hs
      have hop := h.releases r (by rw [hdelq]; exact List.mem_cons_self)
      have hpos : 0 < t.releasing r.value := by
        simp only [releasing, hdelq, List.map_cons, List.count_cons_self]
        omega
      have hlt := h.lt_of_pos (by omega : 0 < t.free maxSessions r.value + t.held r.value + t.releasing r.value)
      have hround : (r.value.setWidth 14).setWidth 16 = r.value := by
        apply BitVec.eq_of_toNat_eq
        rw [BitVec.toNat_setWidth, BitVec.toNat_setWidth]
        omega
      have hreq : u.requested = t.requested := by
        rw [← hs]
        simp [requested, hins, hop]
      have hrel (id : SessionID) : u.releasing id = t.releasing id := by
        rw [← hs]
        simp only [releasing, hdelq, List.map_append, List.map_cons, List.map_nil, List.count_append,
          List.count_cons, List.count_nil, hround]
        omega
      subst hs
      refine { h with
        ids := fun id => ?_, inserting := h.inserting_perm rfl (hreq ▸ .rfl)
        inserts := fun r' hr' => (List.not_mem_nil hr').elim
        releases := fun r' hr' => h.releases r' (hdelq ▸ List.mem_cons_of_mem _ hr')
        stored := fun e he => (h.stored e he).imp_right ?_
        deletes := List.forall_mem_append.mpr ⟨h.deletes, fun r' hr' _ x hx => ?_⟩
        order := List.pairwise_append.mpr ⟨h.order, List.pairwise_singleton _ _, fun a ha b hb haop _ hval => ?_⟩
        hits := fun r' hr' hhit x hx => h.hits r' hr' hhit x (hx.imp_left fun hx => hreq ▸ hx) }
      · rw [← h.ids id, hrel, held, hreq]
        rfl
      · rintro (⟨r', hr', hx⟩ | ⟨r', hr', hx⟩)
        · rw [hdelq] at hr'
          rcases List.mem_cons.mp hr' with rfl | hr'
          · exact .inr ⟨r', List.mem_append_right _ (List.mem_singleton.mpr rfl), hop, hx⟩
          · exact .inl ⟨r', hr', hx⟩
        · exact .inr ⟨r', List.mem_append_left _ hr', hx⟩
      · rw [List.mem_singleton.mp hr'] at hx
        exact h.not_holds hpos (.inr hx)
      · rw [List.mem_singleton.mp hb] at hval
        -- an ID that is being inserted is not released
        have hnot : ¬ Holds t r.value a.key := h.not_holds hpos
        refine hnot (.inl ?_)
        rw [hval]
        exact List.mem_map_of_mem (f := fun r : RtlSessionUpdateRequest => (r.value, r.key))
          (List.mem_append_right _ (List.mem_filter.mpr ⟨ha, by rw [haop]; rfl⟩))

theorem update_count (p : SessionID → Bool) (k id : SessionID) (b : Bool) :
    (if Function.update p k b id then 1 else 0) + (if k == id ∧ p k = true then 1 else 0) =
      (if p id then 1 else 0) + if k == id ∧ b = true then 1 else 0 := by
  by_cases hk : id = k
  · subst hk
    simp
    cases b <;> cases p id <;> rfl
  · have hne : (k == id) = false := by simpa using fun hc => hk hc.symm
    simp [Function.update_of_ne hk, hne]

variable {rest : List RevLupInsert} {ins : RevLupInsert}

theorem Inv.invalid_of_insert (h : Inv maxSessions hashes t)
    (hins : t.revIn.revTableInserts = ins :: rest) : t.rev.tupleValid ins.key = false := by
  have hle := h.held_le ins.key
  by_contra hv
  rw [Bool.not_eq_false] at hv
  simp only [held, hins, List.map_cons, List.count_cons_self, hv, if_true] at hle
  omega

theorem Inv.handedOut_insert (h : Inv maxSessions hashes t)
    (hins : t.revIn.revTableInserts = ins :: rest)
    (hrev : u.rev = ⟨Function.update t.rev.reverseLookupTable ins.key ins.value,
      Function.update t.rev.tupleValid ins.key true⟩) (hrest : u.revIn.revTableInserts = rest)
    (id : SessionID) (x : ThreeTuple) : HandedOut u id x ↔ HandedOut t id x := by
  have hinvalid := h.invalid_of_insert hins
  unfold HandedOut
  rw [hrev, hrest, hins]
  by_cases hid : id = ins.key
  · subst hid
    simp only [Function.update_self, true_and, List.mem_cons, hinvalid, Bool.false_eq_true, false_and, or_false]
    constructor
    · rintro (hx | hx)
      · exact .inr hx
      · exact .inl (by rw [← hx])
    · rintro (hx | hx)
      · exact .inr (congrArg RevLupInsert.value hx).symm
      · exact .inl hx
  · have hne : ∀ x, (⟨id, x⟩ : RevLupInsert) ≠ ins := fun x hx => hid (congrArg RevLupInsert.key hx)
    simp only [Function.update_of_ne hid, List.mem_cons, hne, false_or]

theorem Inv.reverseInsert (h : Inv maxSessions hashes t)
    (hins : t.revIn.revTableInserts = ins :: rest)
    (hu : u = { t with
      rev := { reverseLookupTable := Function.update t.rev.reverseLookupTable ins.key ins.value
               tupleValid := Function.update t.rev.tupleValid ins.key true }
      revIn := { t.revIn with revTableInserts := rest } }) : Inv maxSessions hashes u := by
  have hcount := update_count t.rev.tupleValid ins.key
  simp only [h.invalid_of_insert hins, Bool.false_eq_true, and_false, if_false] at hcount
  have hset (id : SessionID) (x : ThreeTuple) : Settled u id x ↔ Settled t id x := by
    unfold Settled
    rw [h.handedOut_insert hins (by rw [hu]) (by rw [hu]), hu]
    rfl
  subst hu
  refine { h with
    ids := fun id => ?_
    stored := fun e he => (h.stored e he).imp_left (hset _ _).mpr
    deletes := fun r hr hop x hx => h.deletes r hr hop x ((hset _ _).mp hx)
    hits := fun r hr hhit x hx => h.hits r hr hhit x (hx.imp_right (hset _ _).mp) }
  have := hcount id true
  rw [← h.ids id]
  simp only [free, held, releasing, requested, applied, hins, List.map_cons, List.count_cons, and_true] at this ⊢
  omega

theorem Inv.reverseRelease {id : SessionID} (rest : List SessionID) (h : Inv maxSessions hashes t)
    (hv : t.rev.tupleValid id = true) (hu : u = { t with
      rev := { t.rev with tupleValid := Function.update t.rev.tupleValid id false }
      revIn := { t.revIn with stateTable2sLookupReleaseSession := rest }
      upd := { t.upd with
        sessionDeleteReq := t.upd.sessionDeleteReq ++ [⟨.DELETE, t.rev.reverseLookupTable id, id, .RX⟩] }
      releasePort := t.releasePort ++ [(t.rev.reverseLookupTable id).myPort] }) :
    Inv maxSessions hashes u := by
  have hset (id' : SessionID) (x : ThreeTuple) (hx : Settled u id' x) : Settled t id' x := by
    subst hu
    refine hx.imp_right (Or.imp_right fun ⟨hx, hx'⟩ => ?_)
    by_cases hid : id' = id
    · simp [hid] at hx
    · simp only [Function.update_of_ne hid] at hx
      exact ⟨hx, hx'⟩
  subst hu
  refine { h with
    ids := fun id' => ?_
    releases := List.forall_mem_append.mpr ⟨h.releases, fun r hr => by rw [List.mem_singleton.mp hr]⟩
    stored := fun e he => ?_
    deletes := fun r hr hop x hx => h.deletes r hr hop x (hset _ _ hx)
    hits := fun r hr hhit x hx => h.hits r hr hhit x (hx.imp_right (hset _ _)) }
  · have hcount := update_count t.rev.tupleValid id id' false
    simp only [hv, Bool.false_eq_true, and_false, if_false, and_true] at hcount
    rw [← h.ids id']
    simp only [free, held, releasing, requested, applied, List.map_append, List.map_cons, List.map_nil,
      List.count_append, List.count_cons, List.count_nil]
    omega
  · rcases h.stored e he with hk | ⟨r, hr, hk⟩ | hk
    · by_cases hid : e.value = id
      · -- the released tuple is being deleted from now on
        have hown : Settled t e.value (t.rev.reverseLookupTable e.value) := .inr (.inr ⟨hid ▸ hv, rfl⟩)
        rw [Holds.unique (.inr hk) (.inr hown) (h.held_le _), hid]
        exact .inr (.inl ⟨_, List.mem_append_right _ (List.mem_singleton.mpr rfl), rfl, rfl⟩)
      · refine .inl (hk.imp_right (Or.imp_right fun hx => ?_))
        simpa only [Function.update_of_ne hid] using hx
    · exact .inr (.inl ⟨r, List.mem_append_left _ hr, hk⟩)
    · exact .inr (.inr hk)

theorem Inv.reverseLookupTableInterface (h : Inv maxSessions hashes t)
    (hs : t.step maxSessions hashes .reverseLookupTableInterface = some u) : Inv maxSessions hashes u := by
  simp only [step, Option.some.injEq] at hs
  cases hins : t.revIn.revTableInserts with
  | cons ins rest =>
    simp only [Toe.reverseLookupTableInterface, hins, List.append_nil] at hs
    exact h.reverseInsert hins hs.symm
  | nil =>
    cases hrel : t.revIn.stateTable2sLookupReleaseSession with
    | cons id rest =>
      simp only [Toe.reverseLookupTableInterface, hins, hrel] at hs
      cases hv : t.rev.tupleValid id with
      | true =>
        simp only [hv, if_true] at hs
        refine Inv.reverseRelease rest h hv ?_
        rw [← hs, ← hins]
      | false =>
        have hsame : Function.update t.rev.tupleValid id false = t.rev.tupleValid := by
          rw [← hv, Function.update_eq_self]
        simp only [hv, Bool.false_eq_true, if_false, List.append_nil, hsame] at hs
        rw [← hs, ← hins]
        exact { h with }
    | nil =>
      cases hreq : t.revIn.txEng2sLookupRevReq with
      | cons id rest =>
        simp only [Toe.reverseLookupTableInterface, hins, hrel, hreq, List.append_nil] at hs
        rw [← hs, ← hins, ← hrel]
        exact { h with }
      | nil =>
        simp only [Toe.reverseLookupTableInterface, hins, hrel, hreq, List.append_nil] at hs
        rw [← hs]
        exact h

theorem Inv.not_inserting (h : Inv maxSessions hashes t)
    (hask : 0 < t.tableIn.lupReq.length + t.inp.sessionLookupRsp.length) : t.requested = [] ∧ t.applied = [] := by
  have hlen := h.asking
  have hins := h.inserting
  split at hlen
  · next hst =>
      rw [hst, if_neg (by decide)] at hins
      exact List.append_eq_nil_iff.mp hins.1
  · omega

theorem Inv.hashLookup {r : RtlSessionLookupRequest} {rest : List RtlSessionLookupRequest}
    (h : Inv maxSessions hashes t) (hreq : t.tableIn.lupReq = r :: rest) (hu : u = { t with
      tableIn := { t.tableIn with lupReq := rest }
      inp := { t.inp with sessionLookupRsp := t.inp.sessionLookupRsp ++
        [{ key := r.key, sessionID := (t.table.cuckooTables.lookup hashes r.key).getD 0
           hit := (t.table.cuckooTables.lookup hashes r.key).isSome, source := r.source }] } }) :
    Inv maxSessions hashes u := by
  have hnone := h.not_inserting (by rw [hreq, List.length_cons]; omega)
  subst hu
  refine { h with asking := ?_, hits := List.forall_mem_append.mpr ⟨h.hits, fun r' hr' hhit x hx => ?_⟩ }
  · have hask := h.asking
    rw [hreq, List.length_cons] at hask
    simp only [List.length_append, List.length_singleton]
    omega
  · rw [List.mem_singleton.mp hr'] at hhit hx ⊢
    simp only at hhit hx ⊢
    obtain ⟨v, hv⟩ := Option.isSome_iff_exists.mp hhit
    rw [hv, Option.getD_some] at hx
    have hx' : Holds t v x := hx
    rcases hx' with hx' | hx'
    · rw [hnone.1] at hx'
      exact (List.not_mem_nil hx').elim
    · exact (h.stored_key hx' (lookup_some hv) rfl).symm

theorem Inv.hashInsert {r : RtlSessionUpdateRequest} {rest : List RtlSessionUpdateRequest} (success : Bool)
    (h : Inv maxSessions hashes t) (hreq : t.tableIn.updReq = r :: rest) (hop : r.op = .INSERT) (hu : u = { t with
      table := (t.table.insert hashes r.key r.value).1
      tableIn := { t.tableIn with updReq := rest }
      updateRsp := t.updateRsp ++ [⟨r.op, r.key, r.value, success, r.source⟩] }) : Inv maxSessions hashes u := by
  have hrequested : t.requested.Perm ((r.value, r.key) :: u.requested) := by
    rw [hu]
    simp only [requested, hreq]
    rw [← List.map_cons (f := fun r : RtlSessionUpdateRequest => (r.value, r.key))]
    refine List.Perm.map _ ?_
    rw [List.filter_cons, hop]
    exact List.perm_middle
  have happlied : u.applied.Perm ((r.value, r.key) :: t.applied) := by
    rw [hu]
    simp only [applied, List.filter_append, List.filter_cons, hop, beq_self_eq_true, if_true, List.filter_nil]
    have hp := @List.perm_middle _ (⟨.INSERT, r.key, r.value, success, r.source⟩ : RtlSessionUpdateReply)
      (t.updateRsp.filter (·.op == .INSERT)) t.inp.sessionInsertRsp
    simpa using hp.map fun r : RtlSessionUpdateReply => (r.sessionID, r.key)
  have hset (id : SessionID) (x : ThreeTuple) :
      Settled u id x ↔ (id = r.value ∧ x = r.key) ∨ Settled t id x := by
    unfold Settled
    rw [happlied.mem_iff, List.mem_cons, Prod.mk.injEq, or_assoc, hu]
    rfl
  have hholds (id : SessionID) (x : ThreeTuple) (hx : Holds u id x) : Holds t id x := by
    unfold Holds at hx ⊢
    rw [hrequested.mem_iff, List.mem_cons, Prod.mk.injEq]
    rw [hset] at hx
    tauto
  have hheld (id : SessionID) : u.held id = t.held id := by
    unfold held
    rw [(happlied.map Prod.fst).count_eq, (hrequested.map Prod.fst).count_eq, hu]
    simp only [List.map_cons, List.count_cons]
    omega
  have hperm : (u.requested ++ u.applied).Perm (t.requested ++ t.applied) := by
    refine (happlied.append_left _).trans ?_
    exact List.perm_middle.trans (hrequested.symm.append_right _)
  obtain ⟨hplaced, hnew⟩ := insert_spec h.placed r.key r.value
  have horder := h.order
  rw [hreq, List.pairwise_cons] at horder
  subst hu
  refine { h with
    ids := fun id => ?_, inserting := h.inserting_perm rfl hperm, placed := hplaced, stored := fun e he => ?_
    deletes := fun r' hr' hop' x hx => ?_, order := horder.2
    hits := fun r' hr' hhit x hx => h.hits r' hr' hhit x (hholds _ _ hx) }
  · rw [hheld, ← h.ids id]
    rfl
  · rw [hset]
    rcases hnew e he with rfl | he
    · exact .inl (.inl ⟨rfl, rfl⟩)
    · rcases h.stored e he with hk | hk | ⟨r', hr', hop', hk⟩
      · exact .inl (.inr hk)
      · exact .inr (.inl hk)
      · rw [hreq] at hr'
        rcases List.mem_cons.mp hr' with rfl | hr'
        · rw [hop] at hop'
          cases hop'
        · exact .inr (.inr ⟨r', hr', hop', hk⟩)
  · rcases (hset _ _).mp hx with ⟨hval, -⟩ | hx
    · exact horder.1 r' hr' hop hop' hval
    · exact h.deletes r' (hreq ▸ List.mem_cons_of_mem _ hr') hop' x hx

theorem Inv.hashDelete {r : RtlSessionUpdateRequest} {rest : List RtlSessionUpdateRequest} (success : Bool)
    (h : Inv maxSessions hashes t) (hreq : t.tableIn.updReq = r :: rest) (hop : r.op = .DELETE) (hu : u = { t with
      table := (t.table.remove hashes r.key).1
      tableIn := { t.tableIn with updReq := rest }
      updateRsp := t.updateRsp ++ [⟨r.op, r.key, r.value, success, r.source⟩] }) : Inv maxSessions hashes u := by
  have hrequested : u.requested = t.requested := by
    rw [hu]
    simp [requested, hreq, hop]
  have happlied : u.applied = t.applied := by
    rw [hu]
    simp [applied, hop]
  have hset (id : SessionID) (x : ThreeTuple) : Settled u id x ↔ Settled t id x := by
    unfold Settled
    rw [happlied, hu]
    rfl
  obtain ⟨hplaced, hnew⟩ := remove_spec h.placed r.key
  have horder := h.order
  rw [hreq, List.pairwise_cons] at horder
  subst hu
  refine { h with
    ids := fun id => ?_, inserting := h.inserting_perm rfl (by rw [hrequested, happlied])
    placed := hplaced, stored := fun e he => ?_
    deletes := fun r' hr' hop' x hx => h.deletes r' (hreq ▸ List.mem_cons_of_mem _ hr') hop' x ((hset _ _).mp hx)
    order := horder.2
    hits := fun r' hr' hhit x hx => h.hits r' hr' hhit x (hx.imp (fun hx => hrequested ▸ hx) (hset _ _).mp) }
  · rw [held, hrequested, happlied, ← h.ids id]
    rfl
  · obtain ⟨he, hne⟩ := hnew e he
    rw [hset]
    rcases h.stored e he with hk | hk | ⟨r', hr', hop', hv, hk⟩
    · exact .inl hk
    · exact .inr (.inl hk)
    · rw [hreq] at hr'
      rcases List.mem_cons.mp hr' with rfl | hr'
      · exact absurd hk.symm hne
      · exact .inr (.inr ⟨r', hr', hop', hv, hk⟩)

theorem Inv.hashTable (h : Inv maxSessions hashes t)
    (hs : t.step maxSessions hashes .hashTable = some u) : Inv maxSessions hashes u := by
  simp only [step, Option.some.injEq] at hs
  cases hlup : t.tableIn.lupReq with
  | cons r rest =>
    simp only [hashTableCore, hlup, List.append_nil] at hs
    exact h.hashLookup hlup hs.symm
  | nil =>
    cases hupd : t.tableIn.updReq with
    | nil =>
      simp only [hashTableCore, hlup, hupd, List.append_nil] at hs
      rw [← hs]
      exact h
    | cons r rest =>
      cases hop : r.op with
      | INSERT =>
        simp only [hashTableCore, hlup, hupd, hop, List.append_nil] at hs
        refine Inv.hashInsert (t.table.insert hashes r.key r.value).2 h hupd hop ?_
        rw [← hs, ← hlup, hop]
      | DELETE =>
        simp only [hashTableCore, hlup, hupd, hop, List.append_nil] at hs
        refine Inv.hashDelete (t.table.remove hashes r.key).2 h hupd hop ?_
        rw [← hs, ← hlup, hop]

theorem Inv.lupReq (h : Inv maxSessions hashes t) (hst : t.handler.slcFsmState = .LUP_REQ)
    (hs : t.step maxSessions hashes .lookupReplyHandler = some u) : Inv maxSessions hashes u := by
  have hask := h.asking
  have hins := h.inserting
  rw [hst] at hask hins
  have hnext (q : SessionLookupQueryInternal) (inp : LookupReplyHandlerIn)
      (hinp : inp.sessionLookupRsp = t.inp.sessionLookupRsp ∧ inp.sessionInsertRsp = t.inp.sessionInsertRsp ∧
        inp.sessionIdFreeList = t.inp.sessionIdFreeList) (hu : u = { t with
          handler := { t.handler with slcFsmState := .LUP_RSP, slcQueryCache := t.handler.slcQueryCache ++ [q] }
          inp
          tableIn := { t.tableIn with lupReq := t.tableIn.lupReq ++ [⟨q.tuple, q.source⟩] } }) :
      Inv maxSessions hashes u := by
    obtain ⟨hrsp, hirsp, hfree⟩ := hinp
    have happ : u.applied = t.applied := by rw [hu]; simp [applied, hirsp]
    have hset (id : SessionID) (x : ThreeTuple) : Settled u id x ↔ Settled t id x := by
      unfold Settled
      rw [happ, hu]
      rfl
    subst hu
    refine { h with
      ids := fun id => ?_, inserting := ?_, asking := ?_
      stored := fun e he => (h.stored e he).imp_left (hset _ _).mpr
      deletes := fun r hr hop x hx => h.deletes r hr hop x ((hset _ _).mp hx)
      hits := fun r hr hhit x hx => h.hits r (hrsp ▸ hr) hhit x (hx.imp_right (hset _ _).mp) }
    · rw [← h.ids id, held, happ, free, hfree]
      rfl
    · rw [happ]
      exact hins
    · simp only [List.length_append, List.length_singleton, hrsp, if_true]
      simp only [reduceCtorEq, if_false] at hask
      omega
  simp only [step, Toe.lookupReplyHandler, hst, Toe.lupReq, Option.some.injEq] at hs
  cases htx : t.inp.txApp2sLookupReq with
  | cons q rest =>
    simp only [htx, List.append_nil] at hs
    exact hnext ⟨q.sent, true, .TX_APP⟩ { t.inp with txApp2sLookupReq := rest } ⟨rfl, rfl, rfl⟩ hs.symm
  | nil =>
    cases hrx : t.inp.rxEng2sLookupReq with
    | cons q rest =>
      simp only [htx, hrx, List.append_nil] at hs
      exact hnext ⟨q.tuple.received, q.allowCreation, .RX⟩ { t.inp with rxEng2sLookupReq := rest }
        ⟨rfl, rfl, rfl⟩ (by rw [← hs, ← htx])
    | nil =>
      simp only [htx, hrx, List.append_nil] at hs
      rw [← hs]
      exact h

theorem Inv.allocate {x : BitVec 14} {rest : List (BitVec 14)} {q : SessionLookupQueryInternal}
    (source : LookupSource) (h : Inv maxSessions hashes t) (hnone : t.requested = [] ∧ t.applied = [])
    (hlup : t.tableIn.lupReq = []) (hfree : t.inp.sessionIdFreeList = x :: rest)
    (hhandler : u.handler.slcFsmState = .UPD_RSP ∧ u.handler.slcInsertTuples = [q.tuple])
    (hinp : u.inp.sessionLookupRsp = [] ∧ u.inp.sessionInsertRsp = t.inp.sessionInsertRsp ∧
      u.inp.sessionIdFreeList = rest)
    (hupd : u.upd = { t.upd with
      sessionInsertReq := t.upd.sessionInsertReq ++ [⟨.INSERT, q.tuple, x.setWidth 16, source⟩] })
    (hu : u.counter = t.counter ∧ u.finId = t.finId ∧ u.updateRsp = t.updateRsp ∧ u.rev = t.rev ∧
      u.revIn = t.revIn ∧ u.table = t.table ∧ u.tableIn = t.tableIn) : Inv maxSessions hashes u := by
  obtain ⟨hcounter, hfin, hrsp, hrev, hrevIn, htable, htableIn⟩ := hu
  obtain ⟨hlrsp, hirsp, hfree'⟩ := hinp
  have happ : u.applied = t.applied := by simp [applied, hrsp, hirsp]
  have hreq : u.requested = [(x.setWidth 16, q.tuple)] := by
    have hnil := hnone.1
    simp only [requested, List.map_eq_nil_iff, List.append_eq_nil_iff] at hnil
    simp only [requested, hupd, htableIn]
    rw [hnil.1, hnil.2]
    rfl
  have hset (id : SessionID) (y : ThreeTuple) : Settled u id y ↔ Settled t id y := by
    unfold Settled HandedOut
    rw [happ, hrevIn, hrev]
  refine ⟨fun id => ?_, ?_, ?_, ?_, ?_, ?_, ?_, ?_, ?_, ?_⟩
  · rw [← h.ids id]
    simp only [free, held, releasing, hreq, happ, hnone.1, hcounter, hfin, hrevIn, hrev, hupd, hfree, hfree',
      List.map_cons, List.map_nil, List.count_cons, List.count_nil]
    omega
  · rw [if_pos hhandler.1, hreq, happ, hnone.2]
    exact ⟨_, _, rfl, hhandler.2⟩
  · rw [htableIn, hlup, hlrsp, hhandler.1]
    rfl
  · rw [hupd]
    intro r hr
    rcases List.mem_append.mp hr with hr | hr
    · exact h.inserts r hr
    · rw [List.mem_singleton.mp hr]
  · rw [hupd]
    exact h.releases
  · rw [htable]
    exact h.placed
  · rw [htable]
    intro e he
    rcases h.stored e he with hk | hk
    · exact .inl ((hset _ _).mpr hk)
    · right
      unfold Deleting at hk ⊢
      rw [hupd, htableIn]
      exact hk
  · rw [htableIn]
    intro r hr hop y hy
    exact h.deletes r hr hop y ((hset _ _).mp hy)
  · rw [htableIn]
    exact h.order
  · rw [hlrsp]
    exact fun r hr => (List.not_mem_nil hr).elim

theorem Inv.lupRsp (h : Inv maxSessions hashes t) (hst : t.handler.slcFsmState = .LUP_RSP)
    (hs : t.step maxSessions hashes .lookupReplyHandler = some u) : Inv maxSessions hashes u := by
  have hask := h.asking
  have hins := h.inserting
  rw [hst] at hask hins
  simp only [reduceCtorEq, if_false, if_true] at hask hins
  simp only [step, Toe.lookupReplyHandler, hst, Option.some.injEq] at hs
  cases hrsp : t.inp.sessionLookupRsp with
  | nil =>
    simp only [hrsp, List.append_nil] at hs
    rw [← hs]
    exact h
  | cons r rsps =>
    cases hcache : t.handler.slcQueryCache with
    | nil =>
      simp only [hrsp, hcache, List.append_nil] at hs
      rw [← hs]
      exact h
    | cons q cache =>
      simp only [hrsp, hcache] at hs
      rw [hrsp, List.length_cons] at hask
      have hrsps : rsps = [] := List.eq_nil_of_length_eq_zero (by omega)
      have hlup : t.tableIn.lupReq = [] := List.eq_nil_of_length_eq_zero (by omega)
      have hnone := List.append_eq_nil_iff.mp hins.1
      unfold Toe.lupRsp at hs
      split at hs
      · next x rest _ hfree =>
          refine Inv.allocate (q := q) (x := x) r.source h hnone hlup hfree ?_ ?_ ?_ ?_
          · rw [← hs]
            exact ⟨rfl, by simp [hins.2]⟩
          · rw [← hs]
            exact ⟨hrsps, rfl, rfl⟩
          · rw [← hs]
          · rw [← hs]
            simp
      · -- the answer is passed on and nothing is inserted
        have hout := answerTo_requests r.source ⟨r.sessionID, r.hit⟩
        simp only [hout.1, hout.2.1, hout.2.2, List.append_nil] at hs
        rw [← hs]
        refine { h with inserting := ?_, asking := ?_, hits := ?_ }
        · exact hins
        · simp [hlup, hrsps]
        · rw [hrsps]
          exact fun r hr => (List.not_mem_nil hr).elim

/-- The insertion that is answered is the only one. -/
theorem Inv.answering {r : RtlSessionUpdateReply} {rsps : List RtlSessionUpdateReply}
    (h : Inv maxSessions hashes t) (hst : t.handler.slcFsmState = .UPD_RSP)
    (hrsp : t.inp.sessionInsertRsp = r :: rsps) :
    t.handler.slcInsertTuples = [r.key] ∧ t.requested = [] ∧ t.updateRsp.filter (·.op == .INSERT) = [] ∧
      rsps = [] := by
  have hins := h.inserting
  rw [if_pos hst] at hins
  obtain ⟨id, tuple, hone, htuples⟩ := hins
  have happ : t.applied = (t.updateRsp.filter (·.op == .INSERT)).map (fun r => (r.sessionID, r.key)) ++
      (r.sessionID, r.key) :: rsps.map fun r => (r.sessionID, r.key) := by
    simp [applied, hrsp]
  have hlen := congrArg List.length hone
  rw [happ] at hone hlen
  simp only [List.length_append, List.length_cons, List.length_map, List.length_nil] at hlen
  have hreq : t.requested = [] := List.eq_nil_of_length_eq_zero (by omega)
  have hfilter : t.updateRsp.filter (·.op == .INSERT) = [] := List.eq_nil_of_length_eq_zero (by omega)
  have hrsps : rsps = [] := List.eq_nil_of_length_eq_zero (by omega)
  rw [hreq, hfilter, hrsps] at hone
  simp only [List.map_nil, List.nil_append, List.cons.injEq, Prod.mk.injEq, and_true] at hone
  rw [← hone.2] at htuples
  exact ⟨htuples, hreq, hfilter, hrsps⟩

theorem Inv.updRsp (h : Inv maxSessions hashes t) (hst : t.handler.slcFsmState = .UPD_RSP)
    (hs : t.step maxSessions hashes .lookupReplyHandler = some u) : Inv maxSessions hashes u := by
  have hask := h.asking
  rw [hst] at hask
  simp only [reduceCtorEq, if_false] at hask
  simp only [step, Toe.lookupReplyHandler, hst, Option.some.injEq] at hs
  cases hrsp : t.inp.sessionInsertRsp with
  | nil =>
    simp only [hrsp, List.append_nil] at hs
    rw [← hs]
    exact h
  | cons r rsps =>
    obtain ⟨htuples, hreq, hfilter, hrsps⟩ := h.answering hst hrsp
    simp only [hrsp, htuples, Toe.updRsp] at hs
    have hout := answerTo_requests r.source ⟨r.sessionID, true⟩
    simp only [hout.1, hout.2.1, List.append_nil] at hs
    have happ' : t.applied = [(r.sessionID, r.key)] := by
      simp only [applied, hrsp, hfilter, hrsps]
      rfl
    have hreq' : u.requested = [] := by rw [← hs]; exact hreq
    have hnone : u.applied = [] := by
      rw [← hs]
      simp only [applied, hfilter, hrsps]
      rfl
    have hset (id' : SessionID) (x : ThreeTuple) : Settled u id' x ↔ Settled t id' x := by
      unfold Settled HandedOut
      rw [hnone, happ', ← hs]
      simp only [List.mem_append, List.mem_singleton, List.not_mem_nil, false_or, Prod.mk.injEq,
        RevLupInsert.mk.injEq]
      tauto
    have hheld (id' : SessionID) : u.held id' = t.held id' := by
      unfold held
      rw [hreq', hnone, happ', hreq, ← hs]
      simp only [List.map_append, List.map_cons, List.map_nil, List.count_append, List.count_cons,
        List.count_nil]
      omega
    subst hs
    refine { h with
      ids := fun id' => ?_, inserting := ?_, asking := hask
      stored := fun e he => (h.stored e he).imp_left (hset _ _).mpr
      deletes := fun r' hr' hop x hx => h.deletes r' hr' hop x ((hset _ _).mp hx)
      hits := fun r' hr' hhit x hx => h.hits r' hr' hhit x (.inr ?_) }
    · rw [← h.ids id', hheld]
      rfl
    · rw [hreq', hnone]
      exact ⟨rfl, rfl⟩
    · unfold Holds at hx
      rw [hreq', hset] at hx
      exact hx.resolve_left List.not_mem_nil

/-! ## Runs -/

theorem inv_step {l : SessionLabel} (hmax : maxSessions < 2 ^ 14) (h : Inv maxSessions hashes t)
    (hs : t.step maxSessions hashes l = some u) : Inv maxSessions hashes u := by
  cases l with
  | rxLookup | txLookup | release | revLookup =>
    cases hs
    exact { h with }
  | sessionIdManager => exact h.sessionIdManager hmax hs
  | lookupReplyHandler =>
    cases hst : t.handler.slcFsmState with
    | LUP_REQ => exact h.lupReq hst hs
    | LUP_RSP => exact h.lupRsp hst hs
    | UPD_RSP => exact h.updRsp hst hs
  | updateRequestSender => exact h.updateRequestSender hmax hs
  | updateReplyHandler => exact h.updateReplyHandler hs
  | reverseLookupTableInterface => exact h.reverseLookupTableInterface hs
  | hashTable => exact h.hashTable hs

theorem inv_init : Inv maxSessions hashes {} := by
  refine ⟨fun id => ?_, ⟨rfl, rfl⟩, rfl, ?_, ?_, fun _ _ hv => (by cases hv), ?_, ?_, .nil, ?_⟩
  · simp [free, held, releasing, requested, applied]
  · exact fun r hr => (List.not_mem_nil hr).elim
  · exact fun r hr => (List.not_mem_nil hr).elim
  · rintro e ⟨hv, i, a, rfl⟩
    cases hv
  · exact fun r hr => (List.not_mem_nil hr).elim
  · exact fun r hr => (List.not_mem_nil hr).elim

/-- Every ID is at exactly one place: free, held by one tuple, or being released; an ID that was handed out is
found under no other tuple; and an ID found by a lookup belongs to no other tuple. -/
theorem session_ids_unique (hmax : maxSessions < 2 ^ 14) (h : Reach (step maxSessions hashes) anyStep {} t) :
    (∀ id, id.toNat < maxSessions → t.free maxSessions id + t.held id + t.releasing id = 1) ∧
    (∀ id tuple tuple', Holds t id tuple → Holds t id tuple' → tuple = tuple') ∧
    (∀ id tuple, HandedOut t id tuple → (∀ tuple', ¬ Deleting t id tuple') ∧
      ∀ e, Stored t.table.cuckooTables e → e.value = id → e.key = tuple) ∧
    ∀ r ∈ t.inp.sessionLookupRsp, r.hit = true → ∀ tuple, Holds t r.sessionID tuple → tuple = r.key := by
  have hinv : Inv maxSessions hashes t := h.invariant inv_init fun _ _ _ hu _ hs => inv_step hmax hu hs
  refine ⟨fun id hid => ?_, fun id x y hx hy => hx.unique hy (hinv.held_le id), fun id x hx => ⟨?_, ?_⟩, hinv.hits⟩
  · rw [hinv.ids id, if_pos hid]
  · exact fun y => hinv.not_deleting (.inr hx)
  · exact fun e he hv => hinv.stored_key (.inr hx) he hv

def synFrom (port : BitVec 16) : SessionLookupQuery := ⟨⟨0x0A000001, 0x0A000002, port, 80⟩, true⟩

/-- A session is opened and stored in the reverse table. -/
def openSession (q : SessionLookupQuery) : List SessionLabel :=
  [.rxLookup q, .sessionIdManager, .lookupReplyHandler, .hashTable, .lookupReplyHandler, .updateRequestSender,
    .hashTable, .updateReplyHandler, .lookupReplyHandler, .reverseLookupTableInterface]

def closeSession (id : SessionID) : List SessionLabel :=
  [.release id, .reverseLookupTableInterface, .updateRequestSender, .hashTable, .updateReplyHandler]

/-- The first ID goes to a second tuple after its release. -/
theorem session_ids_unique_reuse : ∃ t : SessionNet 6,
    Reach (step 1000 fun _ _ => 0) anyStep {} t ∧ t.rxRsp = [⟨0, true⟩, ⟨0, true⟩] ∧
    HandedOut t 0 ⟨0x0A000001, 80, 4001⟩ ∧
    (∀ id, id.toNat < 1000 → t.free 1000 id + t.held id + t.releasing id = 1) ∧
    (∀ id tuple tuple', Holds t id tuple → Holds t id tuple' → tuple = tuple') ∧
    (∀ id tuple, HandedOut t id tuple → (∀ tuple', ¬ Deleting t id tuple') ∧
      ∀ e, Stored t.table.cuckooTables e → e.value = id → e.key = tuple) ∧
    ∀ r ∈ t.inp.sessionLookupRsp, r.hit = true → ∀ tuple, Holds t r.sessionID tuple → tuple = r.key := by
  have hrun : (run (step 1000 fun _ _ => (0 : BitVec 6)) {}
      (openSession (synFrom 4000) ++ closeSession 0 ++ openSession (synFrom 4001))).map
      (fun t => (t.rxRsp, t.rev.tupleValid 0, t.rev.reverseLookupTable 0)) =
      some ([⟨0, true⟩, ⟨0, true⟩], true, ⟨0x0A000001, 80, 4001⟩) := by decide +kernel
  obtain ⟨t, ht, hval⟩ := Option.map_eq_some_iff.mp hrun
  obtain ⟨hrsp, hval⟩ := Prod.mk.inj hval
  obtain ⟨hv, htuple⟩ := Prod.mk.inj hval
  have hreach := reach_of_run ht
  exact ⟨t, hreach, hrsp, .inr ⟨hv, htuple⟩, session_ids_unique (by decide) hreach⟩

end SessionNet

end FpgaNetworkStack.Toe
