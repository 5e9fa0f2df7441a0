import FpgaNetworkStack.Lib.History
import FpgaNetworkStack.Lib.Reach
import FpgaNetworkStack.Toe.SessionLookup

/-!
# The hash table as a map (`hash_table.cpp`)

`hash_table_core` serves lookups before updates, one request in a call.  The addresses of a key come from a table
of random numbers, which is arbitrary here.  As long as insertions are of fresh keys and succeed, the tables
represent a map: every pair is in exactly one slot, and an eviction only moves pairs.
-/

namespace FpgaNetworkStack.Toe

open FpgaNetworkStack.Lib

def KEY_SIZE : Nat := 64
def MAX_ADDRESS_BITS : Nat := 16

inductive KvOperation where
  | KV_INSERT | KV_DELETE
  deriving DecidableEq, Repr, Inhabited

structure HtLookupReq where
  key : BitVec KEY_SIZE
  source : LookupSource
  deriving DecidableEq

structure HtLookupResp where
  key : BitVec KEY_SIZE
  value : BitVec 16
  hit : Bool
  source : LookupSource
  deriving DecidableEq

structure HtUpdateReq where
  op : KvOperation
  key : BitVec KEY_SIZE
  value : BitVec 16
  source : LookupSource
  deriving DecidableEq

structure HtUpdateResp where
  op : KvOperation
  key : BitVec KEY_SIZE
  value : BitVec 16
  success : Bool
  source : LookupSource
  deriving DecidableEq

/-- Tabulation hashing: one random number for each bit of the key. -/
def calculateHashes {w : Nat} (tabulationTable : Fin NUM_TABLES → Bool → Nat → BitVec MAX_ADDRESS_BITS)
    (key : BitVec KEY_SIZE) (i : Fin NUM_TABLES) : BitVec w :=
  (List.range KEY_SIZE).foldl (fun hash k => hash ^^^ (tabulationTable i (key.getLsbD k) k).setWidth w) 0

/-- The 8-bit counter behind the victims goes back to 0 at `NUM_TABLES`. -/
def nextVictimIdx (victimIdx : BitVec 8) : BitVec 8 :=
  if (victimIdx + 1).toNat = NUM_TABLES then 0 else victimIdx + 1

theorem nextVictimIdx_toNat (i : Fin NUM_TABLES) :
    (nextVictimIdx (BitVec.ofNat 8 i.val)).toNat = (i + 1).val := by
  revert i
  decide

/-! ## `hash_table_core` -/

/-- The tables, the streams and (`served`) what has been answered so far. -/
structure HashCore (w : Nat) where
  table : HashTable (BitVec KEY_SIZE) w := { cuckooTables := fun _ _ => ⟨0, 0, false⟩ }
  lupReq : List HtLookupReq := []
  updReq : List HtUpdateReq := []
  lupRsp : List HtLookupResp := []
  updRsp : List HtUpdateResp := []
  regInsertFailureCount : BitVec 16 := 0
  served : List (HtLookupResp ⊕ HtUpdateResp) := []

namespace HashCore

inductive Label where
  | lookup (r : HtLookupReq)
  | update (r : HtUpdateReq)
  | core (undefined : BitVec 16)
  | readLookup
  | readUpdate
  deriving DecidableEq

variable {w : Nat} (hashes : BitVec KEY_SIZE → Fin NUM_TABLES → BitVec w)

/-- The answer to a lookup.  The value of a miss is never assigned. -/
def lookupResp (tables : CuckooTables (BitVec KEY_SIZE) w) (request : HtLookupReq) (undefined : BitVec 16) :
    HtLookupResp :=
  match tables.lookup hashes request.key with
  | some value => ⟨request.key, value, true, request.source⟩
  | none => ⟨request.key, undefined, false, request.source⟩

def hashTableCore (t : HashCore w) (undefined : BitVec 16) : HashCore w :=
  match t.lupReq, t.updReq with
  | request :: rest, _ =>
    let response := lookupResp hashes t.table.cuckooTables request undefined
    { t with lupReq := rest, lupRsp := t.lupRsp ++ [response], served := t.served ++ [.inl response] }
  | [], request :: rest =>
    match request.op with
    | .KV_INSERT =>
      let (table, success) := t.table.insert hashes request.key request.value
      let response := ⟨request.op, request.key, request.value, success, request.source⟩
      -- the register shows the count before this insertion
      { t with table, updReq := rest, updRsp := t.updRsp ++ [response], served := t.served ++ [.inr response]
               regInsertFailureCount := t.table.insertFailureCounter }
    | .KV_DELETE =>
      let (table, success) := t.table.remove hashes request.key
      let response := ⟨request.op, request.key, request.value, success, request.source⟩
      { t with table, updReq := rest, updRsp := t.updRsp ++ [response], served := t.served ++ [.inr response] }
  | [], [] => t

def step (t : HashCore w) : Label → Option (HashCore w)
  | .lookup r => some { t with lupReq := t.lupReq ++ [r] }
  | .update r => some { t with updReq := t.updReq ++ [r] }
  | .core undefined => some (t.hashTableCore hashes undefined)
  | .readLookup => match t.lupRsp with
      | _ :: rest => some { t with lupRsp := rest }
      | [] => none
  | .readUpdate => match t.updRsp with
      | _ :: rest => some { t with updRsp := rest }
      | [] => none

/-- What an answer says about a map. -/
def mapOp : HtLookupResp ⊕ HtUpdateResp → MapOp (BitVec KEY_SIZE) (BitVec 16)
  | .inl r => .lookup r.key (if r.hit then some r.value else none)
  | .inr r => match r.op with
      | .KV_INSERT => .insert r.key r.value r.success
      | .KV_DELETE => .delete r.key r.success

/-- The operations served so far with their answers. -/
def ops (t : HashCore w) : List (MapOp (BitVec KEY_SIZE) (BitVec 16)) := t.served.map mapOp

/-- The map that the operations served so far describe. -/
def map (t : HashCore w) : BitVec KEY_SIZE → Option (BitVec 16) := after MapOp.effect (fun _ => none) t.ops

end HashCore

/-! ## The tables represent a map -/

section RepresentsMap

variable {κ : Type} [DecidableEq κ] {w : Nat} {hashes : κ → Fin NUM_TABLES → BitVec w}
  {tables : CuckooTables κ w} {e : HtEntry κ} {m : κ → Option (BitVec 16)}

def Single (tables : CuckooTables κ w) : Prop :=
  ∀ i a j b, (tables i a).valid = true → (tables j b).valid = true → (tables i a).key = (tables j b).key →
    i = j ∧ a = b

/-- The tables hold the pairs of the map, each in one slot of its key. -/
structure RepresentsMap (hashes : κ → Fin NUM_TABLES → BitVec w) (tables : CuckooTables κ w)
    (m : κ → Option (BitVec 16)) : Prop where
  placed : Placed hashes tables
  single : Single tables
  stored : ∀ key value, Stored tables ⟨key, value, true⟩ ↔ m key = some value

omit [DecidableEq κ] in
theorem RepresentsMap.empty : RepresentsMap hashes (fun _ _ => ⟨e.key, e.value, false⟩) fun _ => none := by
  constructor
  · intro i a hv
    cases hv
  · intro i a j b hv
    cases hv
  · intro key value
    constructor
    · rintro ⟨-, i, a, he⟩
      cases he
    · intro h
      cases h

omit [DecidableEq κ] in
theorem RepresentsMap.stored_slot (h : RepresentsMap hashes tables m) (i : Fin NUM_TABLES) (a : BitVec w)
    (hv : (tables i a).valid = true) : m (tables i a).key = some (tables i a).value := by
  refine (h.stored _ _).mp ⟨rfl, i, a, ?_⟩
  rw [← hv]

omit [DecidableEq κ] in
theorem RepresentsMap.slot (h : RepresentsMap hashes tables m) {key : κ} {value : BitVec 16} (hm : m key = some value) :
    ∃ i, tables i (hashes key i) = ⟨key, value, true⟩ := by
  obtain ⟨-, i, a, he⟩ := (h.stored key value).mpr hm
  have hplaced := h.placed i a (by rw [he])
  rw [he] at hplaced
  exact ⟨i, by rw [hplaced, he]⟩

/-- The new entry takes one slot of its key. -/
def CuckooTables.store (hashes : κ → Fin NUM_TABLES → BitVec w) (tables : CuckooTables κ w)
    (pos : Fin NUM_TABLES) (cur : HtEntry κ) : CuckooTables κ w :=
  tables.writeBack (hashes cur.key) (Function.update (fun i => tables i (hashes cur.key i)) pos cur)

omit [DecidableEq κ] in
@[simp] theorem store_self (pos : Fin NUM_TABLES) (cur : HtEntry κ) :
    tables.store hashes pos cur pos (hashes cur.key pos) = cur := by
  rw [CuckooTables.store, writeBack_apply, if_pos rfl, Function.update_self]

omit [DecidableEq κ] in
theorem store_of_ne {pos i : Fin NUM_TABLES} {cur : HtEntry κ} {a : BitVec w}
    (h : ¬ (i = pos ∧ a = hashes cur.key pos)) : tables.store hashes pos cur i a = tables i a := by
  rw [CuckooTables.store, writeBack_apply]
  split
  · next ha =>
      rw [Function.update_of_ne, ha]
      rintro rfl
      exact h ⟨rfl, ha⟩
  · rfl

/-- The map without the entry that is overwritten. -/
def evict (m : κ → Option (BitVec 16)) (old : HtEntry κ) : κ → Option (BitVec 16) :=
  if old.valid then Function.update m old.key none else m

/-- Storing a fresh entry: what was in its slot goes, everything else stays. -/
theorem RepresentsMap.store (h : RepresentsMap hashes tables m) (pos : Fin NUM_TABLES) {cur : HtEntry κ}
    (hv : cur.valid = true) (hfresh : m cur.key = none) :
    RepresentsMap hashes (tables.store hashes pos cur)
      (Function.update (evict m (tables pos (hashes cur.key pos))) cur.key (some cur.value)) := by
  -- the fresh key is in no slot
  have hne (i : Fin NUM_TABLES) (a : BitVec w) (hv : (tables i a).valid = true) : (tables i a).key ≠ cur.key := by
    intro hk
    have hslot := h.stored_slot i a hv
    rw [hk, hfresh] at hslot
    cases hslot
  have hcases (i : Fin NUM_TABLES) (a : BitVec w) :
      (i = pos ∧ a = hashes cur.key pos ∧ tables.store hashes pos cur i a = cur) ∨
        (¬ (i = pos ∧ a = hashes cur.key pos) ∧ tables.store hashes pos cur i a = tables i a) := by
    by_cases hi : i = pos ∧ a = hashes cur.key pos
    · obtain ⟨rfl, rfl⟩ := hi
      exact .inl ⟨rfl, rfl, store_self _ _⟩
    · exact .inr ⟨hi, store_of_ne hi⟩
  constructor
  · exact placed_write h.placed pos cur
  · intro i a j b hi hj hk
    rcases hcases i a with ⟨rfl, rfl, ha⟩ | ⟨-, ha⟩ <;> rcases hcases j b with ⟨rfl, rfl, hb⟩ | ⟨-, hb⟩
    · exact ⟨rfl, rfl⟩
    · rw [ha, hb] at hk
      rw [hb] at hj
      exact absurd hk.symm (hne j b hj)
    · rw [ha, hb] at hk
      rw [ha] at hi
      exact absurd hk (hne i a hi)
    · rw [ha] at hi hk
      rw [hb] at hj hk
      exact h.single i a j b hi hj hk
  · intro key value
    by_cases hkey : key = cur.key
    · subst hkey
      rw [Function.update_self]
      constructor
      · rintro ⟨-, i, a, he⟩
        rcases hcases i a with ⟨-, -, ha⟩ | ⟨-, ha⟩
        · rw [← ha, he]
        · rw [ha] at he
          exact absurd (by rw [he]) (hne i a (by rw [he]))
      · intro hvalue
        refine ⟨rfl, pos, hashes cur.key pos, ?_⟩
        rw [store_self, ← Option.some.inj hvalue, ← hv]
    · rw [Function.update_of_ne hkey]
      constructor
      · rintro ⟨-, i, a, he⟩
        rcases hcases i a with ⟨-, -, ha⟩ | ⟨hslot, ha⟩
        · rw [← ha, he] at hkey
          exact absurd rfl hkey
        · rw [ha] at he
          have hm := h.stored_slot i a (by rw [he])
          rw [he] at hm
          rw [evict]
          split
          · next hold =>
              -- the key of the victim is in no other slot
              rw [Function.update_of_ne, hm]
              rintro rfl
              exact hslot (h.single i a pos _ (by rw [he]) hold (by rw [he]))
          · exact hm
      · intro hm
        have hmem : m key = some value ∧
            ¬ ((tables pos (hashes cur.key pos)).valid = true ∧ (tables pos (hashes cur.key pos)).key = key) := by
          rw [evict] at hm
          split at hm
          · next hold =>
              by_cases hk : key = (tables pos (hashes cur.key pos)).key
              · rw [hk, Function.update_self] at hm
                cases hm
              · rw [Function.update_of_ne hk] at hm
                exact ⟨hm, fun hc => hk hc.2.symm⟩
          · next hold => exact ⟨hm, fun hc => hold hc.1⟩
        obtain ⟨i, he⟩ := h.slot hmem.1
        refine ⟨rfl, i, hashes key i, ?_⟩
        rw [store_of_ne, he]
        rintro ⟨rfl, ha⟩
        rw [ha] at he
        exact hmem.2 (by rw [he]; exact ⟨rfl, rfl⟩)

/-! ### Insertion -/

/-- One round of the loop stores what it carries; the entry of the slot is carried on if there was one. -/
theorem insertLoop_represents {trials : Nat} {victimIdx : Fin NUM_TABLES} {victimBit : BitVec 1} {cur : HtEntry κ}
    (h : RepresentsMap hashes tables m) (hv : cur.valid = true) (hfresh : m cur.key = none)
    (hs : (insertLoop hashes trials tables victimIdx victimBit cur).2.2 = true) :
    RepresentsMap hashes (insertLoop hashes trials tables victimIdx victimBit cur).1
      (Function.update m cur.key (some cur.value)) := by
  induction trials generalizing tables m victimIdx victimBit cur with
  | zero => cases hs
  | succ trials ih =>
    rw [insertLoop] at hs ⊢
    split
    · next slot hslot =>
        have hfree : ¬ (tables slot (hashes cur.key slot)).valid = true := by
          have := lastSlot_spec hslot
          simpa using this
        have hstore := h.store slot hv hfresh
        rw [evict, if_neg hfree] at hstore
        exact hstore
    · next hnone =>
        rw [hnone] at hs
        have hpos := lastSlot_none hnone (victimPos (hashes cur.key) victimIdx victimBit)
        have hvictim : (tables (victimPos (hashes cur.key) victimIdx victimBit)
            (hashes cur.key (victimPos (hashes cur.key) victimIdx victimBit))).valid = true := by
          simpa using hpos
        have hstore := h.store (victimPos (hashes cur.key) victimIdx victimBit) hv hfresh
        have hmem := h.stored_slot _ _ hvictim
        rw [evict, if_pos hvictim] at hstore
        have hne : (tables (victimPos (hashes cur.key) victimIdx victimBit)
            (hashes cur.key (victimPos (hashes cur.key) victimIdx victimBit))).key ≠ cur.key := by
          intro hk
          rw [hk, hfresh] at hmem
          cases hmem
        -- the victim is fresh now, and it comes back in the rounds that follow
        have hrest := ih hstore hvictim (by rw [Function.update_of_ne hne, Function.update_self]) hs
        rw [Function.update_comm hne.symm, Function.update_idem, Function.update_comm hne] at hrest
        rwa [Function.update_eq_self_iff.mpr (by rw [Function.update_of_ne hne, hmem])] at hrest

variable {t : HashTable κ w}

theorem insert_represents (h : RepresentsMap hashes t.cuckooTables m) {key : κ}
    {value : BitVec 16} (hfresh : m key = none) (hs : (t.insert hashes key value).2 = true) :
    RepresentsMap hashes (t.insert hashes key value).1.cuckooTables (Function.update m key (some value)) :=
  @insertLoop_represents _ _ _ hashes t.cuckooTables m MAX_TRIALS 0 t.victimBit ⟨key, value, true⟩ h rfl hfresh hs

/-! ### Lookup and removal -/

theorem lookup_represents (h : RepresentsMap hashes tables m) (key : κ) : tables.lookup hashes key = m key := by
  cases hl : tables.lookup hashes key with
  | some value => exact ((h.stored key value).mp (lookup_some hl)).symm
  | none =>
    cases hm : m key with
    | none => rfl
    | some value =>
      -- the slot of the pair matches
      obtain ⟨i, he⟩ := h.slot hm
      rw [CuckooTables.lookup, Option.map_eq_none_iff] at hl
      have hslot := lastSlot_none hl i
      simp [he] at hslot

theorem remove_success (h : RepresentsMap hashes tables m) (ht : t.cuckooTables = tables) (key : κ) :
    (t.remove hashes key).2 = (m key).isSome := by
  subst ht
  have hlookup := lookup_represents h key
  rw [CuckooTables.lookup] at hlookup
  rw [← hlookup, Option.isSome_map]
  rfl

theorem remove_apply (t : HashTable κ w) (key : κ) (i : Fin NUM_TABLES) (a : BitVec w)
    (hne : (t.cuckooTables i a).key ≠ key) :
    (t.remove hashes key).1.cuckooTables i a = t.cuckooTables i a := by
  rw [HashTable.remove]
  simp only [writeBack_apply]
  split
  · next ha =>
      rw [ha] at hne
      rw [if_neg (by simp [hne]), ha]
  · rfl

theorem remove_represents (h : RepresentsMap hashes t.cuckooTables m) (key : κ) :
    RepresentsMap hashes (t.remove hashes key).1.cuckooTables (Function.update m key none) := by
  obtain ⟨hplaced, hstored⟩ := remove_spec h.placed key
  constructor
  · exact hplaced
  · intro i a j b hi hj hk
    rw [(remove_slot h.placed hi).1] at hk
    rw [(remove_slot h.placed hj).1] at hk
    rw [(remove_slot h.placed hi).1] at hi
    rw [(remove_slot h.placed hj).1] at hj
    exact h.single i a j b hi hj hk
  · intro k value
    constructor
    · intro he
      obtain ⟨hold, hne⟩ := hstored _ he
      rw [Function.update_of_ne hne]
      exact (h.stored k value).mp hold
    · intro hm
      by_cases hk : k = key
      · rw [hk, Function.update_self] at hm
        cases hm
      · rw [Function.update_of_ne hk] at hm
        obtain ⟨i, he⟩ := h.slot hm
        refine ⟨rfl, i, hashes k i, ?_⟩
        rw [remove_apply, he]
        rw [he]
        exact hk

end RepresentsMap

/-! ## Every run -/

namespace HashCore

variable {w : Nat} {hashes : BitVec KEY_SIZE → Fin NUM_TABLES → BitVec w} {t u : HashCore w} {l : Label}

/-- What a step does to the tables and to the history. -/
inductive Effect (hashes : BitVec KEY_SIZE → Fin NUM_TABLES → BitVec w) (t u : HashCore w) : Prop where
  | none (htable : u.table = t.table) (hops : u.ops = t.ops)
  | lookup (key : BitVec KEY_SIZE) (htable : u.table = t.table)
      (hops : u.ops = t.ops ++ [.lookup key (t.table.cuckooTables.lookup hashes key)])
  | insert (key : BitVec KEY_SIZE) (value : BitVec 16) (htable : u.table = (t.table.insert hashes key value).1)
      (hops : u.ops = t.ops ++ [.insert key value (t.table.insert hashes key value).2])
  | delete (key : BitVec KEY_SIZE) (htable : u.table = (t.table.remove hashes key).1)
      (hops : u.ops = t.ops ++ [.delete key (t.table.remove hashes key).2])

theorem mapOp_lookupResp (tables : CuckooTables (BitVec KEY_SIZE) w) (request : HtLookupReq)
    (undefined : BitVec 16) :
    mapOp (.inl (lookupResp hashes tables request undefined)) =
      .lookup request.key (tables.lookup hashes request.key) := by
  rw [lookupResp]
  split
  · next hl => simp [mapOp, hl]
  · next hl => simp [mapOp, hl]

theorem core_effect (t : HashCore w) (undefined : BitVec 16) : Effect hashes t (t.hashTableCore hashes undefined) := by
  cases hlup : t.lupReq with
  | cons request rest =>
    refine .lookup request.key ?_ ?_
    · simp only [hashTableCore, hlup]
    · simp only [hashTableCore, hlup, ops, List.map_append, List.map_cons, List.map_nil, mapOp_lookupResp]
  | nil =>
    cases hupd : t.updReq with
    | nil =>
      refine .none ?_ ?_
      · simp only [hashTableCore, hlup, hupd]
      · simp only [hashTableCore, hlup, hupd]
    | cons request rest =>
      cases hop : request.op with
      | KV_INSERT =>
        refine .insert request.key request.value ?_ ?_
        · simp only [hashTableCore, hlup, hupd, hop]
        · simp only [hashTableCore, hlup, hupd, hop, ops, List.map_append, List.map_cons, List.map_nil, mapOp]
      | KV_DELETE =>
        refine .delete request.key ?_ ?_
        · simp only [hashTableCore, hlup, hupd, hop]
        · simp only [hashTableCore, hlup, hupd, hop, ops, List.map_append, List.map_cons, List.map_nil, mapOp]

theorem step_effect (hs : t.step hashes l = some u) : Effect hashes t u := by
  cases l with
  | lookup | update =>
    cases Option.some.inj hs
    exact .none rfl rfl
  | core undefined =>
    cases Option.some.inj hs
    exact core_effect t undefined
  | readLookup | readUpdate =>
    simp only [step] at hs
    split at hs
    · cases Option.some.inj hs
      exact .none rfl rfl
    · cases hs

/-- Insertions so far were of fresh keys and succeeded. -/
def Regular (t : HashCore w) : Prop := Conforms MapOp.effect MapOp.Fresh (fun _ => none) t.ops

/-- The tables are the map of the history, and every answer was the one of the map. -/
structure Inv (hashes : BitVec KEY_SIZE → Fin NUM_TABLES → BitVec w) (t : HashCore w) : Prop where
  answered : Conforms MapOp.effect MapOp.Answered (fun _ => none) t.ops
  represents : RepresentsMap hashes t.table.cuckooTables t.map

theorem inv_step (h : t.Regular → Inv hashes t) (hs : t.step hashes l = some u) (hu : u.Regular) :
    Inv hashes u := by
  cases step_effect hs with
  | none htable hops =>
    have ht : t.Regular := by rwa [Regular, ← hops]
    have hi := h ht
    constructor
    · rw [hops]
      exact hi.answered
    · rw [htable, map, hops]
      exact hi.represents
  | lookup key htable hops =>
    rw [Regular, hops, conforms_snoc] at hu
    have hi := h hu.1
    constructor
    · rw [hops, conforms_snoc]
      exact ⟨hi.answered, lookup_represents hi.represents key⟩
    · rw [htable, map, hops, after_snoc]
      exact hi.represents
  | insert key value htable hops =>
    rw [Regular, hops, conforms_snoc] at hu
    obtain ⟨ht, hfresh, hsuccess⟩ := hu
    have hi := h ht
    constructor
    · rw [hops, conforms_snoc]
      exact ⟨hi.answered, hsuccess⟩
    · rw [htable, map, hops, after_snoc]
      exact insert_represents hi.represents hfresh hsuccess
  | delete key htable hops =>
    rw [Regular, hops, conforms_snoc] at hu
    have hi := h hu.1
    constructor
    · rw [hops, conforms_snoc]
      exact ⟨hi.answered, remove_success hi.represents rfl key⟩
    · rw [htable, map, hops, after_snoc]
      exact remove_represents hi.represents key

/-- As long as insertions are of fresh keys and succeed, the table is a map: the answers are the map's, the slots
hold its pairs, each once and where its key belongs, and a victim is one of the tables. -/
theorem refines_map (tabulationTable : Fin NUM_TABLES → Bool → Nat → BitVec MAX_ADDRESS_BITS)
    (h : Reach (step (calculateHashes tabulationTable)) anyStep {} t) (hregular : t.Regular) :
    (Conforms MapOp.effect MapOp.Answered (fun _ => none) t.ops ∧
      RepresentsMap (calculateHashes tabulationTable) t.table.cuckooTables t.map) ∧
    (∀ (key : BitVec KEY_SIZE) (victimIdx : Fin NUM_TABLES) (victimBit : BitVec 1),
      (calculateHashes tabulationTable key victimIdx : BitVec w).toNat % (NUM_TABLES - 1) + victimBit.toNat <
        NUM_TABLES) ∧
    ∀ victimIdx : Fin NUM_TABLES, (nextVictimIdx (BitVec.ofNat 8 victimIdx.val)).toNat = (victimIdx + 1).val := by
  have hinv : t.Regular → Inv (calculateHashes tabulationTable) t := by
    refine h.invariant (P := fun t => t.Regular → Inv (calculateHashes tabulationTable) t) (fun _ => ?_)
      fun _ _ _ hu _ hs => inv_step hu hs
    exact ⟨conforms_nil, RepresentsMap.empty (e := ⟨0, 0, false⟩)⟩
  refine ⟨⟨(hinv hregular).answered, (hinv hregular).represents⟩, fun key victimIdx victimBit => ?_,
    nextVictimIdx_toNat⟩
  exact (victimPos (calculateHashes tabulationTable key) victimIdx victimBit).isLt

/-- An insertion, a hit, a deletion and a miss, with every address 0. -/
def insertedAndDeleted : List Label :=
  [.update ⟨.KV_INSERT, 5, 7, .RX⟩, .core 0, .lookup ⟨5, .TX_APP⟩, .core 0, .update ⟨.KV_DELETE, 5, 7, .RX⟩, .core 0,
    .lookup ⟨5, .TX_APP⟩, .core 3]

theorem refines_map_deleted : ∃ t : HashCore 1,
    t.served = [.inr ⟨.KV_INSERT, 5, 7, true, .RX⟩, .inl ⟨5, 7, true, .TX_APP⟩, .inr ⟨.KV_DELETE, 5, 7, true, .RX⟩,
      .inl ⟨5, 3, false, .TX_APP⟩] ∧
    RepresentsMap (calculateHashes fun _ _ _ => 0) t.table.cuckooTables t.map := by
  have hrun : (run (step (calculateHashes fun _ _ _ => 0)) ({} : HashCore 1) insertedAndDeleted).map (·.served) =
      some [.inr ⟨.KV_INSERT, 5, 7, true, .RX⟩, .inl ⟨5, 7, true, .TX_APP⟩, .inr ⟨.KV_DELETE, 5, 7, true, .RX⟩,
        .inl ⟨5, 3, false, .TX_APP⟩] := by decide +kernel
  obtain ⟨t, ht, hserved⟩ := Option.map_eq_some_iff.mp hrun
  have hregular : t.Regular := by
    have hops : t.ops = [] ++ [.insert 5 7 true] ++ [.lookup 5 (some 7)] ++ [.delete 5 true] ++ [.lookup 5 none] := by
      rw [ops, hserved]
      rfl
    rw [Regular, hops]
    simp only [conforms_snoc]
    exact ⟨⟨⟨⟨conforms_nil, rfl, rfl⟩, trivial⟩, trivial⟩, trivial⟩
  exact ⟨t, hserved, (refines_map (fun _ _ _ => 0) (reach_of_run ht) hregular).1.2⟩

end HashCore

end FpgaNetworkStack.Toe
