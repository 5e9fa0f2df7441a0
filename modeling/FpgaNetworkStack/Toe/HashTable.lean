import FpgaNetworkStack.Toe.Internals
import Mathlib.Data.Fin.Basic
import Mathlib.Data.Fintype.Basic

/-!
# The cuckoo hash table (`hash_table.cpp`)

`NUM_TABLES` tables hold the entries; a key has one slot in each of them.  The random numbers behind the
addresses are a parameter.  An insertion that finds no free slot evicts an entry and goes on with that one,
and after `MAX_TRIALS` rounds the entry it carries is lost.
-/

namespace FpgaNetworkStack.Toe

def NUM_TABLES : Nat := 9
def MAX_TRIALS : Nat := 12

instance : NeZero NUM_TABLES := ⟨by decide⟩

/-- `htEntry`. -/
structure HtEntry (κ : Type) where
  key : κ
  value : BitVec 16
  valid : Bool
  deriving DecidableEq

abbrev CuckooTables (κ : Type) (w : Nat) := Fin NUM_TABLES → BitVec w → HtEntry κ

structure HashTable (κ : Type) (w : Nat) where
  cuckooTables : CuckooTables κ w
  victimBit : BitVec 1 := 0
  insertFailureCounter : BitVec 16 := 0

section Operations

variable {κ : Type} [DecidableEq κ] {w : Nat}

-- the address of a key in every table
variable (hashes : κ → Fin NUM_TABLES → BitVec w)

/-- A loop over the tables that remembers the last one with the property. -/
def lastSlot (p : Fin NUM_TABLES → Bool) : Option (Fin NUM_TABLES) :=
  (List.finRange NUM_TABLES).foldl (fun slot i => if p i then some i else slot) none

/-- The value of a key, if there is one. -/
def CuckooTables.lookup (tables : CuckooTables κ w) (key : κ) : Option (BitVec 16) :=
  let currentEntries := fun i => tables i (hashes key i)
  (lastSlot fun i => (currentEntries i).valid && (currentEntries i).key == key).map fun slot =>
    (currentEntries slot).value

def CuckooTables.writeBack (tables : CuckooTables κ w) (addr : Fin NUM_TABLES → BitVec w)
    (entries : Fin NUM_TABLES → HtEntry κ) : CuckooTables κ w :=
  fun i a => if a = addr i then entries i else tables i a

/-- The slot that is given up: one of the first tables, moved by the alternating bit. -/
def victimPos (addr : Fin NUM_TABLES → BitVec w) (victimIdx : Fin NUM_TABLES) (victimBit : BitVec 1) :
    Fin NUM_TABLES :=
  ⟨(addr victimIdx).toNat % (NUM_TABLES - 1) + victimBit.toNat, by
    have hbit := victimBit.isLt
    have hmod := Nat.mod_lt (addr victimIdx).toNat (show 0 < NUM_TABLES - 1 by decide)
    simp only [NUM_TABLES] at *
    omega⟩

/-- `insertLoop` with the trials that are left. -/
def insertLoop : Nat → CuckooTables κ w → Fin NUM_TABLES → BitVec 1 → HtEntry κ →
    CuckooTables κ w × BitVec 1 × Bool
  | 0, tables, _, victimBit, _ => (tables, victimBit, false)
  | trials + 1, tables, victimIdx, victimBit, currentEntry =>
    let addr := hashes currentEntry.key
    let currentEntries := fun i => tables i (addr i)
    match lastSlot fun i => !(currentEntries i).valid with
    | some slot =>
      (tables.writeBack addr (Function.update currentEntries slot currentEntry), victimBit + 1, true)
    | none =>
      let pos := victimPos addr victimIdx victimBit
      insertLoop trials (tables.writeBack addr (Function.update currentEntries pos currentEntry))
        (victimIdx + 1) (victimBit + 1) (currentEntries pos)

def HashTable.insert (t : HashTable κ w) (key : κ) (value : BitVec 16) : HashTable κ w × Bool :=
  let (cuckooTables, victimBit, success) :=
    insertLoop hashes MAX_TRIALS t.cuckooTables 0 t.victimBit ⟨key, value, true⟩
  ({ cuckooTables, victimBit
     insertFailureCounter := if success then t.insertFailureCounter else t.insertFailureCounter + 1 }, success)

def HashTable.remove (t : HashTable κ w) (key : κ) : HashTable κ w × Bool :=
  let currentEntries := fun i => t.cuckooTables i (hashes key i)
  let matching := fun i => (currentEntries i).valid && (currentEntries i).key == key
  ({ t with cuckooTables := t.cuckooTables.writeBack (hashes key) fun i =>
      if matching i then { currentEntries i with valid := false } else currentEntries i },
    (lastSlot matching).isSome)

end Operations

/-! ## What is stored -/

variable {κ : Type} [DecidableEq κ] {w : Nat} {hashes : κ → Fin NUM_TABLES → BitVec w}
  {tables : CuckooTables κ w} {e : HtEntry κ}

/-- The entry is in one of the tables and valid. -/
def Stored (tables : CuckooTables κ w) (e : HtEntry κ) : Prop := e.valid = true ∧ ∃ i a, tables i a = e

def Placed (hashes : κ → Fin NUM_TABLES → BitVec w) (tables : CuckooTables κ w) : Prop :=
  ∀ i a, (tables i a).valid = true → hashes (tables i a).key i = a

theorem lastSlot_spec {p : Fin NUM_TABLES → Bool} {slot : Fin NUM_TABLES} (h : lastSlot p = some slot) :
    p slot = true := by
  have hfold : ∀ (l : List (Fin NUM_TABLES)) (s : Option (Fin NUM_TABLES)), (∀ i, s = some i → p i = true) →
      ∀ i, l.foldl (fun slot i => if p i then some i else slot) s = some i → p i = true := by
    intro l
    induction l with
    | nil => exact fun s hs => hs
    | cons j l ih =>
      intro s hs
      apply ih
      intro i hi
      simp only at hi
      split at hi
      · next hj => rw [← Option.some.inj hi]; exact hj
      · exact hs i hi
  exact hfold _ none (by simp) slot h

theorem lastSlot_none {p : Fin NUM_TABLES → Bool} (h : lastSlot p = none) (i : Fin NUM_TABLES) : p i = false := by
  have hsome : ∀ (l : List (Fin NUM_TABLES)) (j : Fin NUM_TABLES),
      l.foldl (fun slot i => if p i then some i else slot) (some j) ≠ none := by
    intro l
    induction l with
    | nil => exact fun j hj => by cases hj
    | cons k l ih =>
      intro j
      rw [List.foldl_cons]
      split
      · exact ih k
      · exact ih j
  have hfold : ∀ l : List (Fin NUM_TABLES),
      l.foldl (fun slot i => if p i then some i else slot) none = none → ∀ i ∈ l, p i = false := by
    intro l
    induction l with
    | nil => exact fun _ i hi => by cases hi
    | cons k l ih =>
      intro hl i hi
      rw [List.foldl_cons] at hl
      cases hk : p k with
      | true =>
        rw [hk] at hl
        exact absurd hl (hsome l k)
      | false =>
        rw [hk] at hl
        rcases List.mem_cons.mp hi with rfl | hi
        · exact hk
        · exact ih hl i hi
  exact hfold _ h i (List.mem_finRange i)

theorem lookup_some {key : κ} {value : BitVec 16} (h : tables.lookup hashes key = some value) :
    Stored tables ⟨key, value, true⟩ := by
  rw [CuckooTables.lookup, Option.map_eq_some_iff] at h
  obtain ⟨slot, hslot, hvalue⟩ := h
  have hp := lastSlot_spec hslot
  simp only [Bool.and_eq_true, beq_iff_eq] at hp hvalue
  refine ⟨rfl, slot, hashes key slot, ?_⟩
  cases he : tables slot (hashes key slot) with
  | mk k v b =>
    rw [he] at hp hvalue
    cases hp.1
    cases hp.2
    cases hvalue
    rfl

omit [DecidableEq κ] in
theorem writeBack_apply (addr : Fin NUM_TABLES → BitVec w) (entries : Fin NUM_TABLES → HtEntry κ)
    (i : Fin NUM_TABLES) (a : BitVec w) :
    tables.writeBack addr entries i a = if a = addr i then entries i else tables i a := rfl

omit [DecidableEq κ] in
theorem stored_write (pos : Fin NUM_TABLES) (cur : HtEntry κ)
    (h : Stored (tables.writeBack (hashes cur.key)
      (Function.update (fun i => tables i (hashes cur.key i)) pos cur)) e) : e = cur ∨ Stored tables e := by
  obtain ⟨hv, i, a, he⟩ := h
  rw [writeBack_apply] at he
  split at he
  · by_cases hi : i = pos
    · rw [hi, Function.update_self] at he
      exact .inl he.symm
    · rw [Function.update_of_ne hi] at he
      exact .inr ⟨hv, i, _, he⟩
  · exact .inr ⟨hv, i, a, he⟩

omit [DecidableEq κ] in
theorem placed_write (h : Placed hashes tables) (pos : Fin NUM_TABLES) (cur : HtEntry κ) :
    Placed hashes (tables.writeBack (hashes cur.key)
      (Function.update (fun i => tables i (hashes cur.key i)) pos cur)) := by
  intro i a hv
  rw [writeBack_apply] at hv ⊢
  split at hv
  · next ha =>
      rw [if_pos ha]
      by_cases hi : i = pos
      · rw [hi, Function.update_self, ha, hi]
      · rw [Function.update_of_ne hi] at hv ⊢
        rw [h i _ hv, ha]
  · next ha =>
      rw [if_neg ha]
      exact h i a hv

theorem insertLoop_spec {trials : Nat} {victimIdx : Fin NUM_TABLES} {victimBit : BitVec 1} {cur : HtEntry κ}
    (hplaced : Placed hashes tables) :
    Placed hashes (insertLoop hashes trials tables victimIdx victimBit cur).1 ∧
      ∀ e, Stored (insertLoop hashes trials tables victimIdx victimBit cur).1 e → e = cur ∨ Stored tables e := by
  induction trials generalizing tables victimIdx victimBit cur with
  | zero => exact ⟨hplaced, fun e he => .inr he⟩
  | succ trials ih =>
    rw [insertLoop]
    split
    · exact ⟨placed_write hplaced _ cur, fun e he => stored_write _ cur he⟩
    · next hnone =>
        obtain ⟨hp, hs⟩ := @ih _ (victimIdx + 1) (victimBit + 1)
          (tables (victimPos (hashes cur.key) victimIdx victimBit)
            (hashes cur.key (victimPos (hashes cur.key) victimIdx victimBit)))
          (placed_write hplaced (victimPos (hashes cur.key) victimIdx victimBit) cur)
        refine ⟨hp, fun e he => ?_⟩
        rcases hs e he with rfl | he'
        · -- the victim was stored before; it is carried on
          exact .inr ⟨he.1, _, _, rfl⟩
        · exact stored_write _ cur he'

variable {t : HashTable κ w}

theorem insert_spec (h : Placed hashes t.cuckooTables) (key : κ) (value : BitVec 16) :
    Placed hashes (t.insert hashes key value).1.cuckooTables ∧
      ∀ e, Stored (t.insert hashes key value).1.cuckooTables e →
        e = ⟨key, value, true⟩ ∨ Stored t.cuckooTables e :=
  @insertLoop_spec _ _ _ hashes t.cuckooTables MAX_TRIALS 0 t.victimBit ⟨key, value, true⟩ h

/-- A slot that is valid after a removal was not touched, and it is one of another key. -/
theorem remove_slot (h : Placed hashes t.cuckooTables) {key : κ} {i : Fin NUM_TABLES}
    {a : BitVec w} (hv : ((t.remove hashes key).1.cuckooTables i a).valid = true) :
    (t.remove hashes key).1.cuckooTables i a = t.cuckooTables i a ∧ (t.cuckooTables i a).key ≠ key := by
  have happly : (t.remove hashes key).1.cuckooTables i a =
      if a = hashes key i then
        (if (t.cuckooTables i (hashes key i)).valid && (t.cuckooTables i (hashes key i)).key == key then
          { t.cuckooTables i (hashes key i) with valid := false }
        else t.cuckooTables i (hashes key i))
      else t.cuckooTables i a := rfl
  rw [happly] at hv ⊢
  split at hv
  · next ha =>
      rw [if_pos ha]
      split at hv
      · cases hv
      · next hm =>
          rw [if_neg hm, ha]
          refine ⟨rfl, fun hk => hm ?_⟩
          rw [hv, hk, beq_self_eq_true]
          rfl
  · next ha =>
      rw [if_neg ha]
      refine ⟨rfl, fun hk => ha ?_⟩
      rw [← h i a hv, hk]

theorem remove_spec (h : Placed hashes t.cuckooTables) (key : κ) :
    Placed hashes (t.remove hashes key).1.cuckooTables ∧
      ∀ e, Stored (t.remove hashes key).1.cuckooTables e → Stored t.cuckooTables e ∧ e.key ≠ key := by
  constructor
  · intro i a hv
    obtain ⟨heq, -⟩ := remove_slot h hv
    rw [heq] at hv ⊢
    exact h i a hv
  · rintro e ⟨hv, i, a, rfl⟩
    obtain ⟨heq, hne⟩ := remove_slot h hv
    rw [heq] at hv ⊢
    exact ⟨⟨hv, i, a, rfl⟩, hne⟩

end FpgaNetworkStack.Toe
