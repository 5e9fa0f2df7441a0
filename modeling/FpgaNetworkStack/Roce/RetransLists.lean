import FpgaNetworkStack.Lib.SharedLists
import FpgaNetworkStack.Roce.Retransmitter

/-!
# The lists behind the retransmitter

What the retransmitter is for: a list of requests for every queue pair.  `Lists` relates the lists to the
two tables and the free cells; the three changes of the tables that `process_retransmissions` makes are the
operations on the lists.
-/

namespace FpgaNetworkStack.Roce

open Lib

/-! ## The abstract lists -/

/-- What is left of a request after one packet of its response. -/
def RetransEntry.advance (e : RetransEntry) : RetransEntry :=
  { e with
    localAddr := e.localAddr + BitVec.ofNat 64 PMTU
    remoteAddr := e.remoteAddr + BitVec.ofNat 64 PMTU
    length := e.length - BitVec.ofNat 32 PMTU
    psn := e.psn + 1 }

inductive RetransOp where
  | insert (e : RetransEntry)
  | update (u : RetransUpdate)
  deriving DecidableEq

/-- Insertions append; a response that is not complete changes the head, every other one removes it. -/
def listStep (lists : Qpn → List RetransEntry) : RetransOp → Qpn → List RetransEntry
  | .insert e => Function.update lists e.qpn (lists e.qpn ++ [e])
  | .update u => Function.update lists u.qpn
      (if readMore u.opCode then (lists u.qpn).modifyHead RetransEntry.advance else (lists u.qpn).tail)

def listRun (ops : List RetransOp) : Qpn → List RetransEntry := ops.foldl listStep fun _ => []

theorem listRun_snoc (ops : List RetransOp) (op : RetransOp) :
    listRun (ops ++ [op]) = listStep (listRun ops) op := by
  rw [listRun, List.foldl_append]
  rfl

/-! ## Representation -/

def RetransMetaEntry.entry (q : Qpn) (m : RetransMetaEntry) : RetransEntry :=
  ⟨q, m.psn, m.opCode, m.localAddr, m.remoteAddr, m.length, m.lst, m.offs⟩

@[simp] theorem entry_ofEntry (e : RetransEntry) : (RetransMetaEntry.ofEntry e).entry e.qpn = e := rfl

theorem entry_advance (q : Qpn) (m : RetransMetaEntry) : m.advance.entry q = (m.entry q).advance := rfl

/-- The cells `l` are the list of pointer entry `p`. -/
def Represents (p : RetransPointerEntry) (table : MetaIdx → RetransMetaEntry) (l : List MetaIdx) : Prop :=
  if p.valid then Chain (fun i => (table i).next) (fun i => (table i).isTail) p.head p.tail l else l = []

def RetransPointerEntry.ends (p : RetransPointerEntry) : ListEnds MetaIdx := ⟨p.head, p.tail, p.valid⟩

def cellView : CellView Qpn MetaIdx RetransMetaEntry RetransEntry where
  next := RetransMetaEntry.next
  isTail := RetransMetaEntry.isTail
  valid := RetransMetaEntry.valid
  value q m := m.entry q
  link m i := { m with next := i, isTail := false }
  next_link _ _ := rfl
  isTail_link _ _ := rfl
  valid_link _ _ := rfl
  value_link _ _ _ := rfl

/-- All cells of `retrans_meta_table`. -/
def metaCells : List MetaIdx := (List.range META_TABLE_SIZE).map (BitVec.ofNat 16)

structure Lists (ptr : Qpn → RetransPointerEntry) (table : MetaIdx → RetransMetaEntry) (free : List MetaIdx)
    (lists : Qpn → List RetransEntry) (cells : Qpn → List MetaIdx) : Prop where
  represents : ∀ q, Represents (ptr q) table (cells q)
  valid : ∀ q, ∀ i ∈ cells q, (table i).valid = true
  entries : ∀ q, (cells q).map (fun i => (table i).entry q) = lists q
  partition : Partition metaCells free cells

namespace Lists

variable {ptr : Qpn → RetransPointerEntry} {table : MetaIdx → RetransMetaEntry} {free : List MetaIdx}
  {lists : Qpn → List RetransEntry} {cells : Qpn → List MetaIdx} {x : MetaIdx} {q : Qpn}

theorem iff_shared : Lists ptr table free lists cells ↔
    SharedLists cellView (RetransPointerEntry.ends ∘ ptr) table metaCells free lists cells :=
  ⟨fun h => ⟨h.represents, h.valid, h.entries, h.partition⟩, fun h => ⟨h.spans, h.valid, h.values, h.partition⟩⟩

theorem perm {free' : List MetaIdx} (h : Lists ptr table free lists cells) (hf : free.Perm free') :
    Lists ptr table free' lists cells :=
  { h with partition := h.partition.perm hf }

/-- Changes outside the cells of the other lists; `q` gets the cells `l`. -/
theorem change {p : RetransPointerEntry} {table' : MetaIdx → RetransMetaEntry} {free' l : List MetaIdx}
    {es : List RetransEntry} (h : Lists ptr table free lists cells)
    (hother : ∀ q', q' ≠ q → ∀ i ∈ cells q', table' i = table i) (hrep : Represents p table' l)
    (hvalid : ∀ i ∈ l, (table' i).valid = true) (hes : l.map (fun i => (table' i).entry q) = es)
    (hpart : Partition metaCells free' (Function.update cells q l)) :
    Lists (Function.update ptr q p) table' free' (Function.update lists q es) (Function.update cells q l) := by
  rw [iff_shared, Function.comp_update]
  exact (iff_shared.mp h).change hother hrep hvalid hes hpart

/-- The pointer entry after `x` was appended. -/
def appended (p : RetransPointerEntry) (x : MetaIdx) : RetransPointerEntry :=
  if p.valid then { p with tail := x } else ⟨x, x, true⟩

/-- The meta table after `x` was linked to the tail of the list of `p`. -/
def linked (table : MetaIdx → RetransMetaEntry) (p : RetransPointerEntry) (x : MetaIdx) :
    MetaIdx → RetransMetaEntry :=
  if p.valid then Function.update table p.tail { table p.tail with next := x, isTail := false } else table

-- the library's `append` on the pointer entry
theorem ends_appended (p : RetransPointerEntry) (x : MetaIdx) : (appended p x).ends = p.ends.append x := by
  unfold appended ListEnds.append
  cases hv : p.valid <;> simp [RetransPointerEntry.ends, hv]

theorem insert (h : Lists ptr table (x :: free) lists cells) (e : RetransEntry) :
    Lists (Function.update ptr e.qpn (appended (ptr e.qpn) x))
      (Function.update (linked table (ptr e.qpn) x) x (.ofEntry e)) free (listStep lists (.insert e))
      (Function.update cells e.qpn (cells e.qpn ++ [x])) := by
  rw [iff_shared, Function.comp_update, ends_appended]
  exact (iff_shared.mp h).insert e.qpn (e := .ofEntry e) rfl rfl

theorem head (h : Lists ptr table free lists cells) (hv : (ptr q).valid = true) :
    ∃ l, cells q = (ptr q).head :: l ∧ (table (ptr q).head).valid = true ∧
      (table (ptr q).head).isTail = l.isEmpty := by
  obtain ⟨l, hl, hvalid, htail, -⟩ := (iff_shared.mp h).head hv
  exact ⟨l, hl, hvalid, htail⟩

theorem nil (h : Lists ptr table free lists cells) (hv : (ptr q).valid = false) : lists q = [] :=
  (iff_shared.mp h).nil hv

variable {u : RetransUpdate}

theorem skip (h : Lists ptr table free lists cells) (hv : (ptr u.qpn).valid = false) :
    Lists (Function.update ptr u.qpn (ptr u.qpn)) table free (listStep lists (.update u)) cells := by
  have hnil := h.nil hv
  have hlists : listStep lists (.update u) = lists := by
    have hsame : (if readMore u.opCode then (lists u.qpn).modifyHead RetransEntry.advance
        else (lists u.qpn).tail) = lists u.qpn := by
      rw [hnil]
      split <;> rfl
    rw [listStep, hsame, Function.update_eq_self]
  rw [hlists, Function.update_eq_self]
  exact h

theorem pop (h : Lists ptr table free lists cells) (hv : (ptr u.qpn).valid = true)
    (hop : readMore u.opCode = false) :
    Lists (Function.update ptr u.qpn { ptr u.qpn with
        head := (table (ptr u.qpn).head).next, valid := !(table (ptr u.qpn).head).isTail })
      table ((ptr u.qpn).head :: free) (listStep lists (.update u))
      (Function.update cells u.qpn (cells u.qpn).tail) := by
  rw [iff_shared, Function.comp_update, listStep, hop]
  exact (iff_shared.mp h).pop hv

/-- The head is changed in place. -/
theorem advance (h : Lists ptr table free lists cells) (hv : (ptr u.qpn).valid = true)
    (hop : readMore u.opCode = true) :
    Lists (Function.update ptr u.qpn (ptr u.qpn))
      (Function.update table (ptr u.qpn).head (table (ptr u.qpn).head).advance) free
      (listStep lists (.update u)) cells := by
  obtain ⟨l, hl, hhead, -⟩ := h.head hv
  have hnd := h.partition.nodup u.qpn
  rw [hl, List.nodup_cons] at hnd
  have hmem : (ptr u.qpn).head ∈ cells u.qpn := by
    rw [hl]
    exact List.mem_cons_self
  have hrest : ∀ i ∈ l, Function.update table (ptr u.qpn).head (table (ptr u.qpn).head).advance i = table i := by
    intro i hi
    rw [Function.update_of_ne]
    rintro rfl
    exact hnd.1 hi
  have hlink : ∀ i, (Function.update table (ptr u.qpn).head (table (ptr u.qpn).head).advance i).next =
        (table i).next ∧
      (Function.update table (ptr u.qpn).head (table (ptr u.qpn).head).advance i).isTail = (table i).isTail ∧
      (Function.update table (ptr u.qpn).head (table (ptr u.qpn).head).advance i).valid = (table i).valid := by
    intro i
    by_cases hi : i = (ptr u.qpn).head
    · rw [hi, Function.update_self]
      exact ⟨rfl, rfl, rfl⟩
    · rw [Function.update_of_ne hi]
      exact ⟨rfl, rfl, rfl⟩
  have hentries := h.entries u.qpn
  rw [hl, List.map_cons] at hentries
  have hcells : cells = Function.update cells u.qpn (cells u.qpn) := by rw [Function.update_eq_self]
  rw [listStep, hop, ← hentries, hcells]
  refine h.change ?_ ?_ ?_ ?_ ?_
  · intro q' hq i hi
    rw [Function.update_of_ne]
    rintro rfl
    exact h.partition.apart q' u.qpn hq hi hmem
  · have hrep := h.represents u.qpn
    rw [Represents, if_pos hv] at hrep ⊢
    exact hrep.congr (fun i _ => (hlink i).1) fun i _ => (hlink i).2.1
  · intro i hi
    rw [(hlink i).2.2]
    exact h.valid u.qpn i hi
  · rw [hl, List.map_cons, Function.update_self, entry_advance]
    simp only [if_true, List.modifyHead_cons]
    congr 1
    exact List.map_congr_left fun i hi => by rw [hrest i hi]
  · rw [Function.update_eq_self]
    exact h.partition

end Lists

end FpgaNetworkStack.Roce
