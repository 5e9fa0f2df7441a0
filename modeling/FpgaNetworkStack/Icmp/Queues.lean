import FpgaNetworkStack.Icmp.ErrorMessages

/-!
# The queues of `icmp_server_core`

The five processes with queues of the depths that are declared.  A call that writes more than fits into a queue blocks.
The packets come in word by word, at any time.
-/

namespace FpgaNetworkStack.Icmp

open Lib
open Axi (Word Ends Framed)

/-! ## The system -/

structure IcmpNet where
  /-- Words that have not come in yet. -/
  dataLater : List (Word 8) := []
  inputLater : Fin 2 → List (Word 8) := fun _ => []
  dataIn : List (Word 8) := []
  /-- `udpIn` and `ttlIn`. -/
  input : UnreachableIn := ⟨fun _ => []⟩
  check : CheckIcmp := {}
  unreachable : Unreachable := {}
  addIp : AddIpHeader := {}
  drop : Dropper := {}
  insert : InsertChecksum := {}
  packageBuffer1 : List (Word 8) := []
  validFifo : List Bool := []
  /-- `udpPort2addIpHeader_header` and `udpPort2addIpHeader_data`. -/
  header : List (BitVec 64) := []
  data : List (Word 8) := []
  dataStreams : Fin 2 → List (Word 8) := fun _ => []
  checksumStreams : Fin 2 → List (BitVec 16) := fun _ => []
  dataOut : List (Word 8) := []

inductive Proc where
  | check | unreachable | addIp | dropper | insert
  deriving DecidableEq, Repr

/-- What `full` says of the queues behind `udpPortUnreachable`. -/
def IcmpNet.full (n : IcmpNet) : UnreachableFull where
  data := decide (192 ≤ n.data.length)
  header := decide (64 ≤ n.header.length)
  value := decide (16 ≤ (n.checksumStreams 1).length)

/-- Some items are written into one of the two queues. -/
def put {α : Type} (k : Fin 2) (queues : Fin 2 → List α) (items : List α) : Fin 2 → List α :=
  Function.update queues k (queues k ++ items)

/-- One call of a process, if its queues had room; `unread` is that of `dropper`. -/
def IcmpNet.call (unread : Bool) (n : IcmpNet) : Proc → IcmpNet
  | .check =>
    let r := checkIcmpChecksum n.check n.dataIn
    { n with
      check := r.1
      dataIn := r.2.1
      packageBuffer1 := n.packageBuffer1 ++ r.2.2.dataOut
      validFifo := n.validFifo ++ r.2.2.validFifoOut
      checksumStreams := put 0 n.checksumStreams r.2.2.checksumFifoOut }
  | .unreachable =>
    let r := udpPortUnreachable n.full n.unreachable n.input
    { n with
      unreachable := r.1
      input := r.2.1
      data := n.data ++ r.2.2.data
      header := n.header ++ r.2.2.header
      checksumStreams := put 1 n.checksumStreams r.2.2.value }
  | .addIp =>
    let r := udpAddIpHeader (decide (16 ≤ (n.dataStreams 1).length)) n.addIp ⟨n.data, n.header⟩
    { n with addIp := r.1, data := r.2.1.data, header := r.2.1.header, dataStreams := put 1 n.dataStreams r.2.2 }
  | .dropper =>
    let r := dropper unread n.drop ⟨n.packageBuffer1, n.validFifo⟩
    { n with
      drop := r.1
      packageBuffer1 := r.2.1.dataIn
      validFifo := r.2.1.validFifoIn
      dataStreams := put 0 n.dataStreams r.2.2 }
  | .insert =>
    let r := insertChecksum n.insert ⟨n.dataStreams, n.checksumStreams⟩
    { n with
      insert := r.1
      dataStreams := r.2.1.inputStreams
      checksumStreams := r.2.1.checksumStreams
      dataOut := n.dataOut ++ r.2.2 }

def IcmpNet.Fits (n : IcmpNet) : Prop :=
  n.packageBuffer1.length ≤ 64 ∧ n.validFifo.length ≤ 8 ∧ n.header.length ≤ 64 ∧ n.data.length ≤ 192 ∧
    ∀ k, (n.dataStreams k).length ≤ 16 ∧ (n.checksumStreams k).length ≤ 16

instance (n : IcmpNet) : Decidable n.Fits := by
  unfold IcmpNet.Fits
  infer_instance

inductive Act where
  | data
  | input (k : Fin 2)
  | call (p : Proc)
  deriving DecidableEq, Repr

/-- A word comes in, or a process is called that does not block. -/
def IcmpNet.step (unread : Bool) (n : IcmpNet) : Act → Option IcmpNet
  | .data =>
    match n.dataLater with
    | [] => none
    | w :: rest => some { n with dataLater := rest, dataIn := n.dataIn ++ [w] }
  | .input k =>
    match n.inputLater k with
    | [] => none
    | w :: rest => some { n with
        inputLater := Function.update n.inputLater k rest
        input := ⟨put k n.input.input [w]⟩ }
  | .call p => if (n.call unread p).Fits then some (n.call unread p) else none

def IcmpNet.Unread (n : IcmpNet) : Prop :=
  n.dataIn ++ n.dataLater ≠ [] ∨ ∃ k, n.input.input k ++ n.inputLater k ≠ []

/-- There is input left, and nothing can happen any more. -/
def IcmpNet.Deadlock (unread : Bool) (n : IcmpNet) : Prop :=
  n.Unread ∧ ∀ a t, n.step unread a = some t → t = n

def serverStart (ps : List (Framed 8)) (qs : Fin 2 → List (Framed 8)) : IcmpNet :=
  { dataLater := ps.flatMap (·.words), inputLater := fun k => (qs k).flatMap (·.words) }

/-! ## Words and checksums -/

/-- The number of the word behind `w`, when `w` has number `c`. -/
def next (c : Nat) (w : Word 8) : Nat := if w.last then 0 else c + 1

/-- The words from number `c` on lead to number `d`, none of the first three of a packet is its last one, and `k` of them
take a checksum. -/
inductive Walk : Nat → List (Word 8) → Nat → Nat → Prop
  | nil {c d k : Nat} (h : d = c) (hk : k = 0) : Walk c [] d k
  | cons {c d k l : Nat} {w : Word 8} {ws : List (Word 8)} (early : c ≤ 2 → w.last = false) (small : c ≤ 1000)
      (rest : Walk (next c w) ws d l) (hk : k = l + if c = 2 then 1 else 0) : Walk c (w :: ws) d k

section

variable {c d e k l : Nat} {w : Word 8} {ws vs : List (Word 8)}

theorem Walk.append (h : Walk c ws d k) (h' : Walk d vs e l) : Walk c (ws ++ vs) e (k + l) := by
  induction h with
  | nil hd hk =>
    subst hd hk
    rw [Nat.zero_add]
    exact h'
  | cons early small _ hk ih => exact .cons early small (ih h') (by omega)

theorem Walk.snoc (h : Walk c ws d k) (early : d ≤ 2 → w.last = false) (small : d ≤ 1000) :
    Walk c (ws ++ [w]) (next d w) (k + if d = 2 then 1 else 0) :=
  h.append (.cons early small (.nil rfl rfl) (Nat.zero_add _).symm)

theorem Walk.nil_inv (h : Walk c [] d k) : d = c ∧ k = 0 := by
  cases h with
  | nil hd hk => exact ⟨hd, hk⟩

theorem Walk.cons_inv (h : Walk c (w :: ws) d k) :
    (c ≤ 2 → w.last = false) ∧ c ≤ 1000 ∧ ∃ l, Walk (next c w) ws d l ∧ k = l + if c = 2 then 1 else 0 := by
  cases h with
  | cons early small rest hk => exact ⟨early, small, _, rest, hk⟩

theorem Walk.rest (h : Ends ws) : ∀ {c : Nat}, 4 ≤ c + ws.length → c + ws.length ≤ 1000 →
    Walk c ws 0 (if c ≤ 2 then 1 else 0) := by
  induction h with
  | @last w hlast =>
    intro c hlow hhigh
    rw [List.length_singleton] at hlow hhigh
    have hlate : ¬c ≤ 2 := by omega
    refine .cons (fun h => absurd h hlate) (by omega) (.nil (by rw [next, if_pos hlast]) rfl) ?_
    rw [if_neg hlate, if_neg (by omega)]
  | @cons w ws hlast _ ih =>
    intro c hlow hhigh
    rw [List.length_cons] at hlow hhigh
    have hnext : next c w = c + 1 := by rw [next, hlast]; rfl
    have hmore := ih (c := c + 1) (by omega) (by omega)
    rw [← hnext] at hmore
    refine .cons (fun _ => hlast) (by omega) hmore ?_
    rw [hnext]
    split <;> split <;> split <;> omega

end

/-! ## `insertChecksum` -/

/-- The number of the next word from a source. -/
def InsertChecksum.count (s : InsertChecksum) (k : Fin 2) : Nat := if s.streamSource = k then s.wordCount.toNat else 0

/-- One word of the source `k` is read, with a checksum if it takes one. -/
structure InsertChecksum.Reads (s : InsertChecksum) (i : InsertIn) (r : InsertChecksum × InsertIn × List (Word 8))
    (k : Fin 2) (w : Word 8) (rest : List (Word 8)) : Prop where
  stream : i.inputStreams k = w :: rest
  streams : r.2.1.inputStreams = Function.update i.inputStreams k rest
  count : r.1.count k = next (s.count k) w
  other : ∀ j, j ≠ k → s.count j = 0 ∧ r.1.count j = 0
  checksum : if s.count k = 2 then
      ∃ checksum checksums, i.checksumStreams k = checksum :: checksums ∧
        r.2.1.checksumStreams = Function.update i.checksumStreams k checksums
    else r.2.1.checksumStreams = i.checksumStreams

/-- There is nothing to read where the next word is expected. -/
def InsertChecksum.Waiting (s : InsertChecksum) (i : InsertIn) : Prop :=
  (∀ k, s.count k = 0 ∧ i.inputStreams k = []) ∨
    ∃ k, s.count k ≠ 0 ∧ (i.inputStreams k = [] ∨ s.count k = 2 ∧ i.checksumStreams k = [])

theorem InsertChecksum.count_self {n : BitVec 16} {k : Fin 2} : (InsertChecksum.mk n k).count k = n.toNat := if_pos rfl

theorem InsertChecksum.count_of_ne {s : InsertChecksum} {j : Fin 2} (h : j ≠ s.streamSource) : s.count j = 0 :=
  if_neg (Ne.symm h)

theorem insert_call {s : InsertChecksum} {i : InsertIn}
    (hi : ∀ k w rest, i.inputStreams k = w :: rest → (s.count k ≤ 2 → w.last = false) ∧ s.count k ≤ 1000) :
    insertChecksum s i = (s, i, []) ∧ s.Waiting i ∨
      ∃ k w rest, s.Reads i (insertChecksum s i) k w rest := by
  obtain ⟨n, source⟩ := s
  by_cases hzero : n = 0
  · -- a packet is begun, from the first source that has one
    subst hzero
    have hcount (k : Fin 2) : (InsertChecksum.mk 0 source).count k = 0 := ite_self 0
    have hother (k j : Fin 2) (h : j ≠ k) : (InsertChecksum.mk 0 source).count j = 0 ∧ (InsertChecksum.mk 1 k).count j = 0 :=
      ⟨hcount j, InsertChecksum.count_of_ne h⟩
    have hreads (k : Fin 2) (w : Word 8) (rest : List (Word 8)) (hk : i.inputStreams k = w :: rest)
        (hcall : insertChecksum ⟨0, source⟩ i =
          (⟨1, k⟩, { i with inputStreams := Function.update i.inputStreams k rest }, [w])) :
        InsertChecksum.Reads ⟨0, source⟩ i (insertChecksum ⟨0, source⟩ i) k w rest := by
      have hlast := (hi k w rest hk).1 (by rw [hcount]; decide)
      rw [hcall]
      refine ⟨hk, rfl, ?_, hother k, ?_⟩
      · rw [hcount, next, hlast]
        exact InsertChecksum.count_self
      · rw [hcount]
        rfl
    cases h0 : i.inputStreams 0 with
    | cons w rest => exact .inr ⟨0, w, rest, hreads 0 w rest h0 (by simp [insertChecksum, h0])⟩
    | nil =>
      cases h1 : i.inputStreams 1 with
      | cons w rest => exact .inr ⟨1, w, rest, hreads 1 w rest h1 (by simp [insertChecksum, h0, h1])⟩
      | nil =>
        have hempty : ∀ k, i.inputStreams k = [] := Fin.forall_fin_two.mpr ⟨h0, h1⟩
        exact .inl ⟨by simp [insertChecksum, h0, h1], .inl fun k => ⟨hcount k, hempty k⟩⟩
  · have hne : (InsertChecksum.mk n source).count source ≠ 0 := by
      rw [InsertChecksum.count_self]
      intro h
      exact hzero (BitVec.eq_of_toNat_eq h)
    have htwo : n = 2 ↔ (InsertChecksum.mk n source).count source = 2 := by
      rw [InsertChecksum.count_self]
      exact ⟨fun h => by rw [h]; rfl, fun h => BitVec.eq_of_toNat_eq h⟩
    have hother (m : BitVec 16) (j : Fin 2) (h : j ≠ source) :
        (InsertChecksum.mk n source).count j = 0 ∧ (InsertChecksum.mk m source).count j = 0 :=
      ⟨InsertChecksum.count_of_ne h, InsertChecksum.count_of_ne h⟩
    cases hstream : i.inputStreams source with
    | nil =>
      refine .inl ⟨?_, .inr ⟨source, hne, .inl hstream⟩⟩
      by_cases h2 : n = 2
      · simp only [insertChecksum, if_neg hzero, if_pos h2, hstream]
      · simp only [insertChecksum, if_neg hzero, if_neg h2, hstream]
    | cons w rest =>
      obtain ⟨hearly, hsmall⟩ := hi source w rest hstream
      rw [InsertChecksum.count_self] at hearly hsmall
      have hnext : (n + 1).toNat = n.toNat + 1 := by
        rw [BitVec.toNat_add]
        show (n.toNat + 1) % 65536 = n.toNat + 1
        omega
      by_cases h2 : n = 2
      · cases hchecksum : i.checksumStreams source with
        | nil =>
          exact .inl ⟨by simp [insertChecksum, h2, hstream, hchecksum],
            .inr ⟨source, hne, .inr ⟨htwo.mp h2, hchecksum⟩⟩⟩
        | cons checksum checksums =>
          refine .inr ⟨source, w, rest, hstream, ?_, ?_, ?_, ?_⟩
          · simp [insertChecksum, h2, hstream, hchecksum]
          · have hlast := hearly (by rw [h2]; decide)
            simp [insertChecksum, h2, hstream, hchecksum, InsertChecksum.count, next, hlast]
          · intro j hj
            simp only [insertChecksum, h2, hstream, hchecksum]
            exact ⟨InsertChecksum.count_of_ne hj, InsertChecksum.count_of_ne hj⟩
          · rw [if_pos (htwo.mp h2)]
            refine ⟨checksum, checksums, hchecksum, ?_⟩
            simp [insertChecksum, h2, hstream, hchecksum]
      · have hcall : insertChecksum ⟨n, source⟩ i = (⟨if w.last then 0 else n + 1, source⟩,
            { i with inputStreams := Function.update i.inputStreams source rest }, [w]) := by
          simp only [insertChecksum, if_neg hzero, if_neg h2, hstream]
        rw [hcall]
        refine .inr ⟨source, w, rest, hstream, rfl, ?_, hother _, ?_⟩
        · rw [InsertChecksum.count_self, InsertChecksum.count_self, next]
          split
          · rfl
          · exact hnext
        · rw [if_neg (fun h => h2 (htwo.mpr h))]

end FpgaNetworkStack.Icmp
