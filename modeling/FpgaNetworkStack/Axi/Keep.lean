import FpgaNetworkStack.Axi.Packets

/-!
# The enables of a word as a number (`axi_utils.cpp`)

`keepToLen` is a table of the enables of 1 to 64 bytes from the first lane on.
-/

namespace FpgaNetworkStack.Axi

variable {N : Nat} {w : Word N} {bs : List (BitVec 8)}

namespace Word

def keeps (w : Word N) : List Bool := w.lanes.map (·.keep)

/-- The enables of the first `n` lanes. -/
def lowKeeps (N n : Nat) : List Bool := (List.range N).map fun k => decide (k < n)

/-- `keepToLen(word.keep)`: the entry of the table, or its default. -/
def keepToLen (w : Word N) : Nat :=
  match (List.range 64).find? fun n => w.keeps == lowKeeps N (n + 1) with
  | some n => n + 1
  | none => 0xFF

def keepAt (w : Word N) (k : Nat) : Bool := (w.keeps[k]?).getD false

end Word

theorem Word.Holds.keeps_eq (h : w.Holds bs) : w.keeps = Word.lowKeeps N bs.length := by
  have hN := w.length_eq
  obtain ⟨rest, hw, hrest⟩ := h
  rw [hw, List.length_append, List.length_map] at hN
  unfold Word.keeps Word.lowKeeps
  apply List.ext_getElem
  · simp only [hw, List.length_map, List.length_append, List.length_range]
    exact hN
  · intro k hk hk'
    simp only [hw, List.map_append, List.map_map, List.getElem_map, List.getElem_range]
    rw [List.getElem_append]
    split
    · next hlt =>
        rw [List.length_map] at hlt
        rw [List.getElem_map, decide_eq_true hlt]
        rfl
    · next hge =>
        rw [List.length_map] at hge
        rw [List.getElem_map, decide_eq_false hge]
        exact hrest _ (List.getElem_mem _)

theorem lowKeeps_inj {m n : Nat} (hm : m ≤ N) (hn : n ≤ N) (h : Word.lowKeeps N m = Word.lowKeeps N n) : m = n := by
  have hlane {k : Nat} (hk : k < N) : k < m ↔ k < n := by
    have hkeep := congrArg (fun l => l[k]?) h
    simp only [Word.lowKeeps] at hkeep
    rw [List.getElem?_map, List.getElem?_map, List.getElem?_range hk] at hkeep
    simpa using hkeep
  by_contra hne
  rcases Nat.lt_or_gt_of_ne hne with hlt | hgt
  · exact absurd ((hlane (k := m) (by omega)).mpr hlt) (Nat.lt_irrefl m)
  · exact absurd ((hlane (k := n) (by omega)).mp hgt) (Nat.lt_irrefl n)

theorem Word.Holds.keepToLen_eq (h : w.Holds bs) (hpos : 0 < bs.length) (hN : N ≤ 64) : w.keepToLen = bs.length := by
  have hle := h.length_le
  have hfind : ((List.range 64).find? fun n => w.keeps == Word.lowKeeps N (n + 1)) = some (bs.length - 1) := by
    rw [List.find?_range_eq_some, h.keeps_eq, Nat.sub_add_cancel hpos]
    refine ⟨beq_self_eq_true _, List.mem_range.mpr (by omega), fun n hn => ?_⟩
    rw [Bool.not_eq_true', beq_eq_false_iff_ne]
    intro heq
    have hlen := lowKeeps_inj hle (by omega) heq
    omega
  unfold Word.keepToLen
  rw [hfind]
  exact Nat.sub_add_cancel hpos

theorem Word.Holds.keepAt_eq (h : w.Holds bs) {k : Nat} (hk : k < N) : w.keepAt k = decide (k < bs.length) := by
  unfold Word.keepAt
  rw [h.keeps_eq, Word.lowKeeps, List.getElem?_map, List.getElem?_range hk]
  rfl

-- past the end nothing is kept
theorem Word.Holds.keepAt (h : w.Holds bs) (k : Nat) : w.keepAt k = decide (k < bs.length) := by
  by_cases hk : k < N
  · exact h.keepAt_eq hk
  · have hnone : w.keeps[k]? = none := by
      rw [List.getElem?_eq_none_iff, Word.keeps, List.length_map, w.length_eq]
      exact Nat.le_of_not_lt hk
    rw [Word.keepAt, hnone, decide_eq_false (Nat.not_lt.mpr (Nat.le_trans h.length_le (Nat.le_of_not_lt hk)))]
    rfl

/-! ## Words of given bytes -/

def Word.ofBytes (bs : List (BitVec 8)) (hN : bs.length ≤ N) (last : Bool) : Word N where
  lanes := bs.map Lane.kept ++ List.replicate (N - bs.length) {}
  last := last
  length_eq := by
    rw [List.length_append, List.length_map, List.length_replicate]
    omega

theorem Word.ofBytes_holds (bs : List (BitVec 8)) (hN : bs.length ≤ N) (last : Bool) :
    (Word.ofBytes bs hN last).Holds bs := ⟨_, rfl, unkept_replicate _⟩

/-- The bytes of a packet that fits into one word. -/
def Framed.single (bytes : List (BitVec 8)) (hlen : bytes.length ≤ N) : Framed N where
  words := [.ofBytes bytes hlen true]
  bytes := bytes
  packet := .last rfl (Word.ofBytes_holds bytes hlen true)

/-- A full word in front of a packet. -/
def Framed.full (bytes : List (BitVec 8)) (hlen : bytes.length = N) (p : Framed N) : Framed N where
  words := .ofBytes bytes (Nat.le_of_eq hlen) false :: p.words
  bytes := bytes ++ p.bytes
  packet := .cons rfl ((Word.ofBytes_holds bytes (Nat.le_of_eq hlen) false).full hlen) p.packet

theorem exists_packet (hN : 0 < N) {bs : List (BitVec 8)} (hbs : bs ≠ []) :
    ∃ ws : List (Word N), Packet ws bs ∧ ∀ w ∈ ws, w.bytes ≠ [] := by
  induction hlen : bs.length using Nat.strongRecOn generalizing bs with
  | ind n ih =>
    by_cases hfit : bs.length ≤ N
    · have hholds := Word.ofBytes_holds bs hfit true
      refine ⟨[.ofBytes bs hfit true], .last rfl hholds, fun w hw => ?_⟩
      rw [List.mem_singleton.mp hw, hholds.bytes_eq]
      exact hbs
    · have hfront : (bs.take N).length = N := by
        rw [List.length_take]
        omega
      have hdrop : (bs.drop N).length = n - N := by rw [List.length_drop, hlen]
      obtain ⟨ws, hws, hne⟩ := ih (n - N) (by omega) (List.ne_nil_of_length_pos (by omega)) hdrop
      have hholds := Word.ofBytes_holds (bs.take N) (Nat.le_of_eq hfront) false
      have hpacket := Packet.cons rfl (hholds.full hfront) hws
      rw [List.take_append_drop] at hpacket
      refine ⟨_, hpacket, List.forall_mem_cons.mpr ⟨?_, hne⟩⟩
      rw [hholds.bytes_eq]
      exact List.ne_nil_of_length_pos (by omega)

end FpgaNetworkStack.Axi
