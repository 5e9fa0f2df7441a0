import FpgaNetworkStack.Axi.Keep

/-!
# Wider and narrower words (`axi_utils.hpp`)

`increaseStreamWidth` collects up to `D` words in one, and `reduceStreamWidth` sends a word in up to `D` pieces.  Neither
counts bytes: a packet ends with the word that is marked, or where the first byte of the next piece is not kept.
-/

namespace FpgaNetworkStack.Axi

open Lib

variable {N D : Nat} {w : Word N} {ws : List (Word N)} {v : Word (D * N)} {vs : List (Word (D * N))}
  {bs : List (BitVec 8)} {bss : List (List (BitVec 8))}

/-! ## `increaseStreamWidth` -/

/-- The lanes from `k` on are those of `currWord`. -/
def Word.put {M : Nat} (temp : Word M) (k : Nat) (currWord : Word N) : Word M where
  lanes := (temp.lanes.take k ++ currWord.lanes ++ temp.lanes.drop (k + N)).take M
  last := currWord.last
  length_eq := by
    simp only [List.length_take, List.length_append, List.length_drop, temp.length_eq, currWord.length_eq]
    omega

/-- Nothing is kept; the bytes are only set to 0 where the code is not synthesized. -/
def Word.cleared {M : Nat} (synthesis : Bool) (temp : Word M) : Word M where
  lanes := temp.lanes.map fun l => ⟨if synthesis then l.data else 0, false⟩
  last := temp.last
  length_eq := by rw [List.length_map, temp.length_eq]

structure IncreaseStreamWidth (N D : Nat) where
  count : Nat := 0
  temp : Word (D * N) := .zero

def increaseStreamWidth (synthesis : Bool) (s : IncreaseStreamWidth N D) (input : List (Word N)) :
    IncreaseStreamWidth N D × List (Word N) × List (Word (D * N)) :=
  match input with
  | [] => (s, [], [])
  | currWord :: rest =>
    let temp := s.temp.put (s.count * N) currWord
    if currWord.last || s.count + 1 == D then (⟨0, temp.cleared synthesis⟩, rest, [temp])
    else (⟨s.count + 1, temp⟩, rest, [])

/-! ## `reduceStreamWidth` -/

/-- The first `N` lanes; a wide word has as many. -/
def Word.low {M : Nat} (N : Nat) (w : Word M) (last : Bool) : Word N where
  lanes := (w.lanes ++ List.replicate N ({} : Lane)).take N
  last := last
  length_eq := by
    rw [List.length_take, List.length_append, List.length_replicate]
    omega

/-- Shifted by `n` lanes: the bytes of the last ones stay, and nothing is kept of them. -/
def Word.shift {M : Nat} (n : Nat) (w : Word M) : Word M where
  lanes := w.lanes.drop n ++ (w.lanes.drop (M - n)).map fun l => { l with keep := false }
  last := w.last
  length_eq := by
    rw [List.length_append, List.length_map, List.length_drop, List.length_drop, w.length_eq]
    omega

inductive ReduceState where
  | FIRST | SECOND
  deriving DecidableEq, Repr

structure ReduceStreamWidth (N D : Nat) where
  fsmState : ReduceState := .FIRST
  count : Nat := 0
  currWord : Word (D * N) := .zero

def reduceStreamWidth (s : ReduceStreamWidth N D) (input : List (Word (D * N))) :
    ReduceStreamWidth N D × List (Word (D * N)) × List (Word N) :=
  match s.fsmState, input with
  | .FIRST, [] => (s, [], [])
  | .FIRST, currWord :: rest =>
    let more := currWord.keepAt N
    ({ fsmState := if more then .SECOND else .FIRST
       count := if more then 1 else s.count
       currWord := currWord.shift N },
      rest, [currWord.low N (!more)])
  | .SECOND, _ =>
    let last := if s.count < D - 1 then !s.currWord.keepAt N else s.currWord.last
    ({ fsmState := if s.count + 1 == D || last then .FIRST else .SECOND
       count := s.count + 1
       currWord := s.currWord.shift N },
      input, [s.currWord.low N last])

/-! ## A word and its pieces -/

/-- Words of one packet, all with a byte but perhaps the first one; `last` tells whether the packet ends with them. -/
inductive Pieces : List (Word N) → Bool → Prop
  | last {w : Word N} : Pieces [w] w.last
  | cons {w x : Word N} {ws : List (Word N)} {last : Bool} (hlast : w.last = false) (hnext : x.keepAt 0 = true)
      (h : Pieces (x :: ws) last) : Pieces (w :: x :: ws) last

/-- The wide word `v` is made of `ws`. -/
structure Joins (ws : List (Word N)) (v : Word (D * N)) : Prop where
  pieces : Pieces ws v.last
  lanes : ∃ rest, v.lanes = ws.flatMap Word.lanes ++ rest ∧ Unkept rest
  length : ws.length ≤ D
  full : v.last = false → ws.length = D

theorem Pieces.ne_nil {last : Bool} (h : Pieces ws last) : ws ≠ [] := by
  cases h <;> exact List.cons_ne_nil _ _

theorem pieces_snoc (h : ∀ x ∈ ws, x.keepAt 0 = true ∧ x.last = false) (hw : w.keepAt 0 = true) :
    Pieces (ws ++ [w]) w.last := by
  induction ws with
  | nil => exact .last
  | cons x ws ih =>
    obtain ⟨hx, hws⟩ := List.forall_mem_cons.mp h
    have hrest := ih hws
    cases ws with
    | nil => exact .cons hx.2 hw hrest
    | cons y ws => exact .cons hx.2 (hws y List.mem_cons_self).1 hrest

/-- Every word has a byte, in its first lane. -/
def Dense (ws : List (Word N)) : Prop := ∀ w ∈ ws, w.keepAt 0 = true

/-! ## Lanes -/

variable {M k d : Nat} {front back ls : List Lane} {u : Word M}

theorem Word.keepAt_of_lanes {l : Lane} (h : u.lanes = front ++ l :: back)
    (hk : front.length = k) : u.keepAt k = l.keep := by
  unfold Word.keepAt Word.keeps
  rw [h, List.map_append, List.getElem?_append_right (by rw [List.length_map]; exact Nat.le_of_eq hk), List.length_map, hk,
    Nat.sub_self]
  rfl

theorem Word.keepAt_zero_of_lanes {l : Lane} (h : u.lanes = l :: ls) : u.keepAt 0 = l.keep := by
  rw [Word.keepAt, Word.keeps, h]
  rfl

theorem Word.keepAt_of_unkept (h : u.lanes = front ++ back)
    (hk : front.length = k) (hback : Unkept back) : u.keepAt k = false := by
  cases back with
  | nil =>
    have hnone : u.keeps[k]? = none := by
      rw [List.getElem?_eq_none_iff, Word.keeps, List.length_map, h, List.append_nil]
      exact Nat.le_of_eq hk
    rw [Word.keepAt, hnone]
    rfl
  | cons l back =>
    rw [Word.keepAt_of_lanes h hk]
    exact hback l List.mem_cons_self

-- the first lane of a word that keeps it
theorem Word.first_lane (h : w.keepAt 0 = true) : ∃ l ls, w.lanes = l :: ls ∧ l.keep = true := by
  cases hw : w.lanes with
  | nil =>
    simp [Word.keepAt, Word.keeps, hw] at h
  | cons l ls =>
    rw [Word.keepAt_zero_of_lanes hw] at h
    exact ⟨l, ls, rfl, h⟩

theorem first_lane_of_words (ws : List (Word N)) (h : w.keepAt 0 = true) :
    ∃ l ls, (w :: ws).flatMap Word.lanes = l :: ls ∧ l.keep = true := by
  obtain ⟨l, ls, hlanes, hl⟩ := Word.first_lane h
  exact ⟨l, ls ++ ws.flatMap Word.lanes, by rw [List.flatMap_cons, hlanes]; rfl, hl⟩

theorem Word.low_eq (h : u.lanes = w.lanes ++ back) : u.low N w.last = w := by
  have hlanes : (u.low N w.last).lanes = w.lanes := by
    show (u.lanes ++ List.replicate N ({} : Lane)).take N = _
    rw [h, List.append_assoc, List.take_left' w.length_eq]
  obtain ⟨lanes, last, hlen⟩ := w
  simp only [Word.low] at hlanes ⊢
  simp only [hlanes]

theorem Word.shift_lanes (h : u.lanes = w.lanes ++ back) :
    ∃ rest, (u.shift N).lanes = back ++ rest ∧ Unkept rest := by
  refine ⟨(u.lanes.drop (M - N)).map fun l => { l with keep := false }, ?_, ?_⟩
  · show u.lanes.drop N ++ _ = _
    rw [h, List.drop_left' w.length_eq]
  · intro l hl
    obtain ⟨l', -, rfl⟩ := List.mem_map.mp hl
    rfl

/-! ## A word is sent in pieces -/

section

variable {s : ReduceStreamWidth N D} (input : List (Word (D * N)))

/-- Induction on the pieces that are left: the code finds the end of the packet at the first lane behind each. -/
theorem reduce_second {last : Bool} (h : Pieces ws last) :
    ∀ {s : ReduceStreamWidth N D} {rest : List Lane}, s.fsmState = .SECOND → s.currWord.last = last →
      s.currWord.lanes = ws.flatMap Word.lanes ++ rest → Unkept rest → s.count + ws.length ≤ D →
      (last = false → s.count + ws.length = D) →
      ∃ t, Runs reduceStreamWidth s input (ws.map fun w => [w]) t input ∧ t.fsmState = .FIRST := by
  induction h with
  | @last w =>
    intro s rest hst hlast hlanes hrest hcount hfull
    rw [List.flatMap_singleton] at hlanes
    rw [List.length_singleton] at hcount hfull
    have hend : (if s.count < D - 1 then !s.currWord.keepAt N else s.currWord.last) = w.last := by
      split
      · next hlt =>
          rw [Word.keepAt_of_unkept hlanes w.length_eq hrest]
          by_contra hne
          have hw : w.last = false := by
            cases hl : w.last with
            | false => rfl
            | true => exact absurd hl.symm hne
          have := hfull hw
          omega
      · exact hlast
    have hdone : (s.count + 1 == D || w.last) = true := by
      by_cases hD : s.count + 1 = D
      · rw [beq_iff_eq.mpr hD, Bool.true_or]
      · cases hw : w.last with
        | true => rw [Bool.or_true]
        | false => exact absurd (hfull hw) hD
    have hcall : reduceStreamWidth s input =
        ({ fsmState := .FIRST, count := s.count + 1, currWord := s.currWord.shift N }, input, [w]) := by
      simp only [reduceStreamWidth, hst, hend, hdone, if_true, Word.low_eq hlanes]
    exact ⟨_, .one hcall, rfl⟩
  | @cons w x ws last hw hnext _ ih =>
    intro s rest hst hlast hlanes hrest hcount hfull
    rw [List.flatMap_cons, List.append_assoc] at hlanes
    rw [List.length_cons] at hcount hfull
    have hlen : 0 < (x :: ws).length := Nat.succ_pos _
    obtain ⟨l, ls, hfirst, hl⟩ := first_lane_of_words ws hnext
    have hmore : s.currWord.keepAt N = true := by
      rw [hfirst] at hlanes
      exact (Word.keepAt_of_lanes hlanes w.length_eq).trans hl
    have hgo : (if s.count < D - 1 then !s.currWord.keepAt N else s.currWord.last) = w.last := by
      rw [if_pos (by omega), hmore, hw]
      rfl
    have hbusy : (s.count + 1 == D || w.last) = false := by
      rw [hw, Bool.or_false, beq_eq_false_iff_ne]
      omega
    have hcall : reduceStreamWidth s input =
        ({ fsmState := .SECOND, count := s.count + 1, currWord := s.currWord.shift N }, input, [w]) := by
      simp only [reduceStreamWidth, hst, hgo, hbusy, Bool.false_eq_true, if_false, Word.low_eq hlanes]
    obtain ⟨rest', hshift, hrest'⟩ := Word.shift_lanes hlanes
    rw [List.append_assoc] at hshift
    obtain ⟨t, hrun, ht⟩ := ih (s := { fsmState := .SECOND, count := s.count + 1, currWord := s.currWord.shift N }) rfl hlast
      hshift (hrest.append hrest') (by simp only; omega) (fun hf => by have := hfull hf; simp only; omega)
    exact ⟨t, .call hcall hrun, ht⟩

/-- A wide word comes out as the words it is made of. -/
theorem reduce_word (hD : 2 ≤ D) (h : Joins ws v) (hst : s.fsmState = .FIRST) :
    ∃ t, Runs reduceStreamWidth s (v :: input) (ws.map fun w => [w]) t input ∧ t.fsmState = .FIRST := by
  obtain ⟨hpieces, ⟨rest, hlanes, hrest⟩, hlength, hfull⟩ := h
  generalize hv : v.last = last at hpieces hfull
  cases hpieces with
  | @last w =>
    rw [List.flatMap_singleton] at hlanes
    have hw : w.last = true := by
      cases hl : w.last with
      | true => rfl
      | false =>
        have := hfull hl
        rw [List.length_singleton] at this
        omega
    have hcall : reduceStreamWidth s (v :: input) =
        ({ fsmState := .FIRST, count := s.count, currWord := v.shift N }, input, [v.low N true]) := by
      simp [reduceStreamWidth, hst, Word.keepAt_of_unkept hlanes w.length_eq hrest]
    rw [← hw, Word.low_eq hlanes] at hcall
    exact ⟨_, .one hcall, rfl⟩
  | @cons w x ws _ hw hnext hpieces =>
    rw [List.flatMap_cons, List.append_assoc] at hlanes
    rw [List.length_cons] at hlength hfull
    obtain ⟨l, ls, hfirst, hl⟩ := first_lane_of_words ws hnext
    have hmore : v.keepAt N = true := by
      have hlanes' := hlanes
      rw [hfirst] at hlanes'
      exact (Word.keepAt_of_lanes hlanes' w.length_eq).trans hl
    have hcall : reduceStreamWidth s (v :: input) =
        ({ fsmState := .SECOND, count := 1, currWord := v.shift N }, input, [v.low N false]) := by
      simp [reduceStreamWidth, hst, hmore]
    rw [← hw, Word.low_eq hlanes] at hcall
    obtain ⟨rest', hshift, hrest'⟩ := Word.shift_lanes hlanes
    rw [List.append_assoc] at hshift
    obtain ⟨t, hrun, ht⟩ := reduce_second input hpieces
      (s := { fsmState := .SECOND, count := 1, currWord := v.shift N }) rfl hv hshift (hrest.append hrest')
      (by simp only; omega) (fun hf => by have := hfull hf; simp only; omega)
    exact ⟨t, .call hcall hrun, ht⟩

theorem reduce_words {wss : List (List (Word N))} (hD : 2 ≤ D) (h : List.Forall₂ Joins wss vs) :
    ∀ {s : ReduceStreamWidth N D}, s.fsmState = .FIRST →
      ∃ t, Runs reduceStreamWidth s vs (wss.flatten.map fun w => [w]) t [] ∧ t.fsmState = .FIRST := by
  induction h with
  | nil => exact fun hs => ⟨_, .refl _ _, hs⟩
  | cons hjoins _ ih =>
    intro s hs
    obtain ⟨t, hrun, ht⟩ := reduce_word _ hD hjoins hs
    obtain ⟨u, hmore, hu⟩ := ih ht
    rw [List.flatten_cons, List.map_append]
    exact ⟨u, hrun.trans hmore, hu⟩

end

theorem reduce_waits : Waits (reduceStreamWidth (N := N) (D := D)) [] := by
  intro s i
  cases hst : s.fsmState with
  | FIRST =>
    cases i with
    | nil =>
      left
      simp [reduceStreamWidth, hst]
    | cons v rest =>
      right
      intro x
      simp [reduceStreamWidth, hst]
  | SECOND =>
    right
    intro x
    simp [reduceStreamWidth, hst]

theorem reduce_completes {wss : List (List (Word N))} (hD : 2 ≤ D) (h : List.Forall₂ Joins wss vs) :
    Completes reduceStreamWidth [] id (fun s => s.fsmState = .FIRST) {} [] vs wss.flatten := by
  obtain ⟨t, hrun, ht⟩ := reduce_words hD h (s := {}) rfl
  have hrest : reduceStreamWidth t [] = (t, [], []) := by simp [reduceStreamWidth, ht]
  refine .of_rests reduce_waits rfl ⟨hrun, hrest⟩ ht ?_
  rw [List.flatMap_id, flatten_singletons]

/-! ## Words are collected -/

/-- `held` was read, and is not sent yet. -/
structure IncreaseStreamWidth.Holding (s : IncreaseStreamWidth N D) (held : List (Word N)) (q : List (BitVec 8)) : Prop where
  count : s.count = held.length
  room : held.length < D
  temp : ∃ rest, s.temp.lanes = held.flatMap Word.lanes ++ rest ∧ Unkept rest
  more : ∀ x ∈ held, x.last = false
  bytes : held.flatMap Word.lanes = q.map Lane.kept

theorem length_flatMap_lanes (ws : List (Word N)) : (ws.flatMap Word.lanes).length = ws.length * N := by
  induction ws with
  | nil => exact (Nat.zero_mul N).symm
  | cons w ws ih => rw [List.flatMap_cons, List.length_append, w.length_eq, ih, List.length_cons, Nat.succ_mul, Nat.add_comm]

theorem unkept_cleared (synthesis : Bool) (u : Word M) : Unkept (u.cleared synthesis).lanes := by
  intro l hl
  obtain ⟨l', -, rfl⟩ := List.mem_map.mp hl
  rfl

namespace IncreaseStreamWidth

variable {s : IncreaseStreamWidth N D} {held : List (Word N)} {q : List (BitVec 8)} (synthesis : Bool)

/-- Between two wide words nothing is held. -/
def Idle (s : IncreaseStreamWidth N D) : Prop := s.Holding [] []

theorem idle_init (hD : 0 < D) : Idle ({} : IncreaseStreamWidth N D) :=
  ⟨rfl, hD, ⟨_, rfl, unkept_replicate (D * N)⟩, fun _ hx => absurd hx List.not_mem_nil, rfl⟩

theorem idle_cleared (hD : 0 < D) (v : Word (D * N)) : Idle (⟨0, v.cleared synthesis⟩ : IncreaseStreamWidth N D) :=
  ⟨rfl, hD, ⟨_, rfl, unkept_cleared synthesis v⟩, fun _ hx => absurd hx List.not_mem_nil, rfl⟩

theorem Holding.put (h : s.Holding held q) (w : Word N) :
    ∃ rest, (s.temp.put (s.count * N) w).lanes = (held ++ [w]).flatMap Word.lanes ++ rest ∧ Unkept rest := by
  obtain ⟨rest, hlanes, hrest⟩ := h.temp
  refine ⟨rest.drop N, ?_, hrest.drop N⟩
  have hlen := length_flatMap_lanes held
  have hroom : (held.length + 1) * N ≤ D * N := Nat.mul_le_mul_right N h.room
  have htotal := s.temp.length_eq
  rw [hlanes, List.length_append, hlen] at htotal
  rw [Nat.succ_mul] at hroom
  show ((s.temp.lanes.take _ ++ w.lanes ++ s.temp.lanes.drop _).take (D * N)) = _
  rw [h.count, hlanes, List.take_left' hlen, ← List.drop_drop, List.drop_left' hlen, List.flatMap_append,
    List.flatMap_singleton]
  apply List.take_of_length_le
  rw [List.length_append, List.length_append, hlen, w.length_eq, List.length_drop]
  omega

theorem Holding.joins (h : s.Holding held q) (hdense : Dense (held ++ [w])) (hend : w.last = true ∨ held.length + 1 = D) :
    Joins (held ++ [w]) (s.temp.put (s.count * N) w) := by
  obtain ⟨hheld, hw⟩ := List.forall_mem_append.mp hdense
  refine ⟨pieces_snoc (fun x hx => ⟨hheld x hx, h.more x hx⟩) (hw w (List.mem_singleton_self w)), h.put w, ?_,
    fun hmore => ?_⟩
  · rw [List.length_append, List.length_singleton]
    exact h.room
  · rcases hend with hlast | hfull
    · exact absurd (hlast.symm.trans hmore) (by decide)
    · rw [List.length_append, List.length_singleton]
      exact hfull

theorem Holding.call_end (h : s.Holding held q) (hend : w.last = true ∨ held.length + 1 = D) (rest : List (Word N)) :
    increaseStreamWidth synthesis s (w :: rest) =
      (⟨0, (s.temp.put (s.count * N) w).cleared synthesis⟩, rest, [s.temp.put (s.count * N) w]) := by
  have hcond : (w.last || s.count + 1 == D) = true := by
    rw [h.count, Bool.or_eq_true, beq_iff_eq]
    exact hend
  simp only [increaseStreamWidth, hcond, if_true]

theorem Holding.call_more (h : s.Holding held q) (hlast : w.last = false) (hroom : held.length + 1 ≠ D)
    (rest : List (Word N)) :
    increaseStreamWidth synthesis s (w :: rest) = (⟨s.count + 1, s.temp.put (s.count * N) w⟩, rest, []) := by
  have hcond : (w.last || s.count + 1 == D) = false := by
    rw [h.count, hlast, Bool.false_or, beq_eq_false_iff_ne]
    exact hroom
  simp only [increaseStreamWidth, hcond, Bool.false_eq_true, if_false]

/-- Induction on the packet: a wide word is sent for up to `D` words, those that are held and the next ones. -/
theorem Holding.packet (h : Packet ws bs) (rest : List (Word N)) :
    ∀ {s : IncreaseStreamWidth N D} {held : List (Word N)} {q : List (BitVec 8)}, s.Holding held q →
      ∃ os t wss, Runs (increaseStreamWidth synthesis) s (ws ++ rest) os t rest ∧ t.Idle ∧ Packet os.flatten (q ++ bs) ∧
        wss.flatten = held ++ ws ∧ (Dense (held ++ ws) → List.Forall₂ Joins wss os.flatten) := by
  induction h with
  | @last w bs hlast hw =>
    intro s held q hs
    obtain ⟨tail, hlanes, htail⟩ := hs.put w
    obtain ⟨unkept, hbytes, hunkept⟩ := hw
    refine ⟨_, _, [held ++ [w]], .one (hs.call_end synthesis (.inl hlast) rest),
      idle_cleared synthesis (Nat.lt_of_le_of_lt (Nat.zero_le _) hs.room) _, ?_, List.append_nil _,
      fun hdense => .cons (hs.joins hdense (.inl hlast)) .nil⟩
    refine .last hlast ⟨unkept ++ tail, ?_, hunkept.append htail⟩
    rw [hlanes, List.flatMap_append, List.flatMap_singleton, hs.bytes, hbytes, List.map_append]
    simp only [List.append_assoc]
  | @cons w ws b bs' hlast hw hmore ih =>
    intro s held q hs
    have hbytes : (held ++ [w]).flatMap Word.lanes = (q ++ b).map Lane.kept := by
      rw [List.flatMap_append, List.flatMap_singleton, hs.bytes, hw, List.map_append]
    have hwords : held ++ w :: ws = (held ++ [w]) ++ ws := by rw [List.append_assoc, List.singleton_append]
    by_cases hfull : held.length + 1 = D
    · -- the wide word is full
      have hD : 0 < D := Nat.lt_of_le_of_lt (Nat.zero_le _) hs.room
      obtain ⟨os, t, wss, hrun, ht, hpacket, hflat, hjoins⟩ := ih (idle_cleared synthesis hD (s.temp.put (s.count * N) w))
      obtain ⟨tail, hlanes, -⟩ := hs.put w
      have htail : tail = [] := by
        have hlen := (s.temp.put (s.count * N) w).length_eq
        rw [hlanes, List.length_append, length_flatMap_lanes, List.length_append, List.length_singleton, hfull] at hlen
        exact List.length_eq_zero_iff.mp (by omega)
      rw [htail, List.append_nil, hbytes] at hlanes
      refine ⟨_, t, (held ++ [w]) :: wss, .call (hs.call_end synthesis (.inr hfull) _) hrun, ht, ?_, ?_,
        fun hdense => ?_⟩
      · have hall := Packet.cons (w := s.temp.put (s.count * N) w) hlast hlanes hpacket
        rw [List.nil_append, List.append_assoc] at hall
        exact hall
      · rw [List.flatten_cons, hflat, hwords]
        rfl
      · rw [hwords] at hdense
        obtain ⟨hheld, hws⟩ := List.forall_mem_append.mp hdense
        exact .cons (hs.joins hheld (.inr hfull)) (hjoins hws)
    · have hholding : Holding (⟨s.count + 1, s.temp.put (s.count * N) w⟩ : IncreaseStreamWidth N D) (held ++ [w]) (q ++ b) := by
        refine ⟨?_, ?_, hs.put w, ?_, hbytes⟩
        · rw [List.length_append, List.length_singleton, hs.count]
        · have hroom := hs.room
          rw [List.length_append, List.length_singleton]
          omega
        · exact List.forall_mem_append.mpr ⟨hs.more, List.forall_mem_singleton.mpr hlast⟩
      obtain ⟨os, t, wss, hrun, ht, hpacket, hflat, hjoins⟩ := ih hholding
      rw [List.append_assoc] at hpacket
      rw [← hwords] at hflat hjoins
      exact ⟨_, t, wss, .call (hs.call_more synthesis hlast hfull _) hrun, ht, hpacket, hflat, hjoins⟩

theorem packets (h : Packets ws bss) :
    ∀ {s : IncreaseStreamWidth N D}, s.Idle →
      ∃ os t wss, Runs (increaseStreamWidth synthesis) s ws os t [] ∧ t.Idle ∧ Packets os.flatten bss ∧
        wss.flatten = ws ∧ (Dense ws → List.Forall₂ Joins wss os.flatten) := by
  induction h with
  | nil => exact fun {s} hs => ⟨[], s, [], .refl _ _, hs, .nil, rfl, fun _ => .nil⟩
  | @cons ws ws' bs bss hfirst _ ih =>
    intro s hs
    obtain ⟨os, t, wss, hrun, ht, hpacket, hflat, hjoins⟩ := Holding.packet synthesis hfirst ws' hs
    obtain ⟨os', u, wss', hrun', hu, hpackets, hflat', hjoins'⟩ := ih ht
    rw [List.nil_append] at hflat hpacket hjoins
    refine ⟨os ++ os', u, wss ++ wss', hrun.trans hrun', hu, ?_, ?_, fun hdense => ?_⟩
    · rw [List.flatten_append]
      exact .cons hpacket hpackets
    · rw [List.flatten_append, hflat, hflat']
    · obtain ⟨hws, hws'⟩ := List.forall_mem_append.mp hdense
      rw [List.flatten_append]
      exact List.rel_append (hjoins hws) (hjoins' hws')

theorem waits : Waits (increaseStreamWidth (N := N) (D := D) synthesis) [] := by
  intro s i
  cases i with
  | nil => exact .inl rfl
  | cons w rest =>
    right
    intro x
    simp only [List.cons_append, increaseStreamWidth]
    split <;> rfl

end IncreaseStreamWidth

/-! ## Every word has its pieces -/

theorem Joins.keepAt_zero (h : Joins ws v) (hdense : Dense ws) : v.keepAt 0 = true := by
  obtain ⟨rest, hlanes, -⟩ := h.lanes
  obtain ⟨w, ws, rfl⟩ := List.exists_cons_of_ne_nil h.pieces.ne_nil
  obtain ⟨l, ls, hls, hl⟩ := first_lane_of_words ws (hdense w List.mem_cons_self)
  rw [hls] at hlanes
  exact (Word.keepAt_zero_of_lanes hlanes).trans hl

theorem dense_of_joins {wss : List (List (Word N))} (h : List.Forall₂ Joins wss vs) (hdense : Dense wss.flatten) :
    Dense vs := by
  induction h with
  | nil => exact fun _ hv => absurd hv List.not_mem_nil
  | cons hjoins _ ih =>
    obtain ⟨hws, hmore⟩ := List.forall_mem_append.mp hdense
    exact List.forall_mem_cons.mpr ⟨hjoins.keepAt_zero hws, ih hmore⟩

/-- Some lanes for `d` words: the bytes `bs`, and nothing kept behind them. -/
structure Cut (d : Nat) (bs : List (BitVec 8)) (rest : List Lane) (last : Bool) (ws : List (Word N)) : Prop where
  length : ws.length ≤ d
  pieces : Pieces ws last
  dense : bs ≠ [] → Dense ws
  lanes : ∃ rest', bs.map Lane.kept ++ rest = ws.flatMap Word.lanes ++ rest' ∧ Unkept rest'
  ends : last = true → Packet ws bs
  goes : last = false → rest = [] → ws.length = d ∧ ∀ {ws' bs'}, Packet ws' bs' → Packet (ws ++ ws') (bs ++ bs')

theorem Word.Holds.keepAt_zero (h : w.Holds bs) (hbs : bs ≠ []) : w.keepAt 0 = true := by
  rw [h.keepAt, decide_eq_true_eq]
  exact List.length_pos_iff.mpr hbs

theorem unkept_nil : Unkept [] := fun _ hl => absurd hl List.not_mem_nil

theorem exists_cut (hN : 0 < N) (last : Bool) {rest : List Lane} (hrest : Unkept rest) (d : Nat) :
    ∀ {bs : List (BitVec 8)}, (bs.map Lane.kept ++ rest).length = (d + 1) * N →
      ∃ ws : List (Word N), Cut (d + 1) bs rest last ws := by
  induction d with
  | zero =>
    intro bs hlen
    rw [Nat.zero_add, Nat.one_mul] at hlen
    let w : Word N := ⟨bs.map Lane.kept ++ rest, last, hlen⟩
    have hw : w.Holds bs := ⟨rest, rfl, hrest⟩
    refine ⟨[w], Nat.le_refl 1, .last, fun hbs => List.forall_mem_singleton.mpr (hw.keepAt_zero hbs), ⟨[], ?_, ?_⟩,
      fun hlast => .last hlast hw, fun hlast hnil => ⟨rfl, fun hmore => .cons hlast ?_ hmore⟩⟩
    · rw [List.flatMap_singleton, List.append_nil]
    · exact fun _ hl => absurd hl List.not_mem_nil
    · show bs.map Lane.kept ++ rest = _
      rw [hnil, List.append_nil]
  | succ d ih =>
    intro bs hlen
    have hlength := hlen
    rw [List.length_append, List.length_map, Nat.succ_mul] at hlength
    by_cases hfit : bs.length ≤ N
    · -- the rest of the lanes is not kept
      have htake : ((bs.map Lane.kept ++ rest).take N).length = N := by
        rw [List.length_take, hlen, Nat.succ_mul]
        omega
      let w : Word N := ⟨(bs.map Lane.kept ++ rest).take N, last, htake⟩
      have hw : w.Holds bs := by
        refine ⟨rest.take (N - bs.length), ?_, hrest.take _⟩
        show (bs.map Lane.kept ++ rest).take N = _
        rw [List.take_append, List.length_map, List.take_of_length_le (by rw [List.length_map]; exact hfit)]
      refine ⟨[w], by rw [List.length_singleton]; omega, .last,
        fun hbs => List.forall_mem_singleton.mpr (hw.keepAt_zero hbs), ⟨(bs.map Lane.kept ++ rest).drop N, ?_, ?_⟩,
        fun hlast => .last hlast hw, fun _ hnil => ?_⟩
      · rw [List.flatMap_singleton]
        exact (List.take_append_drop N _).symm
      · rw [List.drop_append, List.length_map, List.drop_eq_nil_of_le (by rw [List.length_map]; exact hfit),
          List.nil_append]
        exact hrest.drop _
      · have hpos : 0 < (d + 1) * N := Nat.mul_pos (Nat.succ_pos d) hN
        rw [hnil, List.length_nil] at hlength
        omega
    · have htake : ((bs.take N).map Lane.kept).length = N := by
        rw [List.length_map, List.length_take]
        omega
      have hdrop : ((bs.drop N).map Lane.kept ++ rest).length = (d + 1) * N := by
        rw [List.length_append, List.length_map, List.length_drop]
        omega
      have hsplit : bs.map Lane.kept = (bs.take N).map Lane.kept ++ (bs.drop N).map Lane.kept := by
        rw [← List.map_append, List.take_append_drop]
      have hbehind : bs.drop N ≠ [] := by
        apply List.ne_nil_of_length_pos
        rw [List.length_drop]
        omega
      obtain ⟨ws, hcut⟩ := ih hdrop
      let w : Word N := ⟨(bs.take N).map Lane.kept, false, htake⟩
      have hw : w.keepAt 0 = true := by
        apply (Word.holds_full (w := w) rfl).keepAt_zero
        apply List.ne_nil_of_length_pos
        rw [List.length_map] at htake
        omega
      have hdense := hcut.dense hbehind
      refine ⟨w :: ws, Nat.succ_le_succ hcut.length, ?_, fun _ => List.forall_mem_cons.mpr ⟨hw, hdense⟩, ?_,
        fun hlast => ?_, fun hlast hnil => ?_⟩
      · have hpieces := hcut.pieces
        cases ws with
        | nil => cases hpieces
        | cons x ws => exact .cons rfl (hdense x List.mem_cons_self) hpieces
      · obtain ⟨rest', hlanes, hrest'⟩ := hcut.lanes
        refine ⟨rest', ?_, hrest'⟩
        rw [hsplit, List.append_assoc, hlanes, List.flatMap_cons, List.append_assoc]
      · have hpacket := Packet.cons (w := w) rfl rfl (hcut.ends hlast)
        rw [List.take_append_drop] at hpacket
        exact hpacket
      · obtain ⟨hd, hgoes⟩ := hcut.goes hlast hnil
        refine ⟨by rw [List.length_cons, hd], fun hmore => ?_⟩
        have hpacket := Packet.cons (w := w) rfl rfl (hgoes hmore)
        rw [← List.append_assoc, List.take_append_drop] at hpacket
        exact hpacket

/-- A packet in wide words is one in narrow words. -/
theorem exists_pieces {vs : List (Word ((d + 1) * N))} (hN : 0 < N) (h : Packet vs bs) :
    ∃ wss : List (List (Word N)), List.Forall₂ Joins wss vs ∧ Packet wss.flatten bs ∧ (Dense vs → Dense wss.flatten) := by
  have hfirst {v : Word ((d + 1) * N)} {b : List (BitVec 8)} (hv : v.Holds b) (hkeep : v.keepAt 0 = true) : b ≠ [] := by
    rw [hv.keepAt, decide_eq_true_eq] at hkeep
    exact List.length_pos_iff.mp hkeep
  induction h with
  | @last v bs hlast hv =>
    have hne := hfirst hv
    obtain ⟨rest, hlanes, hrest⟩ := hv
    obtain ⟨ws, hcut⟩ := exists_cut hN true hrest d (hlanes ▸ v.length_eq)
    rw [← hlast] at hcut
    refine ⟨[ws], .cons ⟨hcut.pieces, ?_, hcut.length, fun hmore => ?_⟩ .nil, ?_, fun hdense => ?_⟩
    · rw [hlanes]
      exact hcut.lanes
    · exact absurd (hlast.symm.trans hmore) (by decide)
    · rw [List.flatten_singleton]
      exact hcut.ends hlast
    · rw [List.flatten_singleton]
      exact hcut.dense (hne (hdense v (List.mem_singleton_self v)))
  | @cons v vs b bs' hlast hv _ ih =>
    have hne := hfirst (Word.holds_full hv)
    rw [← List.append_nil (b.map Lane.kept)] at hv
    obtain ⟨wss, hjoins, hpacket, hmore⟩ := ih
    obtain ⟨ws, hcut⟩ := exists_cut hN false unkept_nil d (hv ▸ v.length_eq)
    obtain ⟨hlen, hgoes⟩ := hcut.goes rfl rfl
    rw [← hlast] at hcut
    refine ⟨ws :: wss, .cons ⟨hcut.pieces, ?_, hcut.length, fun _ => hlen⟩ hjoins, ?_, fun hdense => ?_⟩
    · rw [hv]
      exact hcut.lanes
    · rw [List.flatten_cons]
      exact hgoes hpacket
    · obtain ⟨hfront, hbehind⟩ := List.forall_mem_cons.mp hdense
      rw [List.flatten_cons]
      exact List.forall_mem_append.mpr ⟨hcut.dense (hne hfront), hmore hbehind⟩

theorem exists_all_pieces {vs : List (Word ((d + 1) * N))} (hN : 0 < N) (h : Packets vs bss) :
    ∃ wss : List (List (Word N)), List.Forall₂ Joins wss vs ∧ Packets wss.flatten bss ∧ (Dense vs → Dense wss.flatten) := by
  induction h with
  | nil => exact ⟨[], .nil, .nil, fun _ _ hw => absurd hw List.not_mem_nil⟩
  | cons hfirst _ ih =>
    obtain ⟨wss, hjoins, hpacket, hpieces⟩ := exists_pieces hN hfirst
    obtain ⟨wss', hjoins', hpackets, hpieces'⟩ := ih
    refine ⟨wss ++ wss', List.rel_append hjoins hjoins', ?_, fun hdense => ?_⟩
    · rw [List.flatten_append]
      exact .cons hpacket hpackets
    · obtain ⟨hfront, hbehind⟩ := List.forall_mem_append.mp hdense
      rw [List.flatten_append]
      exact List.forall_mem_append.mpr ⟨hpieces hfront, hpieces' hbehind⟩

/-! ## Both -/

/-- However the words come in: the packets keep their bytes and their ends in both directions.  Words that all have a byte
stay such words, and then the wide words come out as the words they were made of. -/
theorem stream_width (synthesis : Bool) (hN : 0 < N) (hD : 2 ≤ D) (h : Packets ws bss) {bss' : List (List (BitVec 8))}
    (h' : Packets vs bss') :
    (∃ mid, Completes (increaseStreamWidth synthesis) [] id IncreaseStreamWidth.Idle ({} : IncreaseStreamWidth N D) [] ws mid ∧
      Packets mid bss ∧ (Dense ws → Dense mid ∧
        Completes reduceStreamWidth [] id (fun s => s.fsmState = .FIRST) ({} : ReduceStreamWidth N D) [] mid ws)) ∧
    ∃ out, Completes reduceStreamWidth [] id (fun s => s.fsmState = .FIRST) ({} : ReduceStreamWidth N D) [] vs out ∧
      Packets out bss' ∧ (Dense vs → Dense out) := by
  have hpos : 0 < D := Nat.lt_of_lt_of_le Nat.two_pos hD
  obtain ⟨d, rfl⟩ := Nat.exists_eq_succ_of_ne_zero (Nat.pos_iff_ne_zero.mp hpos)
  constructor
  · obtain ⟨os, t, wss, hrun, ht, hpackets, rfl, hjoins⟩ :=
      IncreaseStreamWidth.packets synthesis h (IncreaseStreamWidth.idle_init hpos)
    refine ⟨os.flatten, .of_rests (IncreaseStreamWidth.waits synthesis) rfl ⟨hrun, rfl⟩ ht List.flatMap_id, hpackets,
      fun hdense => ⟨dense_of_joins (hjoins hdense) hdense, reduce_completes hD (hjoins hdense)⟩⟩
  · obtain ⟨wss, hjoins, hpackets, hpieces⟩ := exists_all_pieces hN h'
    exact ⟨wss.flatten, reduce_completes hD hjoins, hpackets, hpieces⟩

/-- The words of nine bytes: eight in the first one. -/
def nineBytes : List (Word 8) :=
  [.ofBytes [1, 2, 3, 4, 5, 6, 7, 8] (by decide) false, .ofBytes [9] (by decide) true]

theorem nineBytes_packets : Packets nineBytes [[1, 2, 3, 4, 5, 6, 7, 8, 9]] :=
  Packets.cons (.cons rfl ((Word.ofBytes_holds _ _ _).full rfl) (.last rfl (Word.ofBytes_holds _ _ _))) .nil

/-- Sixteen bytes fill one wide word. -/
def sixteenBytes : List (Word (2 * 8)) :=
  [.ofBytes [1, 2, 3, 4, 5, 6, 7, 8, 9, 10, 11, 12, 13, 14, 15, 16] (by decide) true]

theorem sixteenBytes_packets : Packets sixteenBytes [[1, 2, 3, 4, 5, 6, 7, 8, 9, 10, 11, 12, 13, 14, 15, 16]] :=
  Packets.cons (.last rfl (Word.ofBytes_holds _ _ _)) .nil

theorem stream_width_two :
    (∃ mid, Completes (increaseStreamWidth true) [] id IncreaseStreamWidth.Idle ({} : IncreaseStreamWidth 8 2) [] nineBytes mid ∧
      Packets mid [[1, 2, 3, 4, 5, 6, 7, 8, 9]] ∧ (Dense nineBytes → Dense mid ∧
        Completes reduceStreamWidth [] id (fun s => s.fsmState = .FIRST) ({} : ReduceStreamWidth 8 2) [] mid nineBytes)) ∧
    ∃ out, Completes reduceStreamWidth [] id (fun s => s.fsmState = .FIRST) ({} : ReduceStreamWidth 8 2) [] sixteenBytes out ∧
      Packets out [[1, 2, 3, 4, 5, 6, 7, 8, 9, 10, 11, 12, 13, 14, 15, 16]] ∧ (Dense sixteenBytes → Dense out) :=
  stream_width true (by decide) (by decide) nineBytes_packets sixteenBytes_packets

end FpgaNetworkStack.Axi
