import FpgaNetworkStack.Axi.Words
import FpgaNetworkStack.Lib.Streams

/-!
# Packets and the bytes they carry

In a packet the kept bytes come first: all words but the last one are full.  Shifting to the left puts bytes
in front of the packet, and shifting to the right takes its first bytes away.
-/

namespace FpgaNetworkStack.Axi

open Lib

variable {N : Nat} {w : Word N} {ws : List (Word N)} {bs bs' : List (BitVec 8)}

/-- Nothing is kept of these lanes. -/
def Unkept (ls : List Lane) : Prop := ∀ l ∈ ls, l.keep = false

/-- The kept bytes of the word are `bs`, from the first lane on. -/
def Word.Holds (w : Word N) (bs : List (BitVec 8)) : Prop :=
  ∃ rest, w.lanes = bs.map Lane.kept ++ rest ∧ Unkept rest

/-- The words carry the bytes `bs`. -/
inductive Packet : List (Word N) → List (BitVec 8) → Prop
  | last {w : Word N} {bs : List (BitVec 8)} (hlast : w.last = true) (hw : w.Holds bs) : Packet [w] bs
  | cons {w : Word N} {ws : List (Word N)} {bs bs' : List (BitVec 8)} (hlast : w.last = false)
      (hw : w.lanes = bs.map Lane.kept) (h : Packet ws bs') : Packet (w :: ws) (bs ++ bs')

/-! ## Lanes -/

theorem unkept_replicate (n : Nat) : Unkept (List.replicate n {}) := by
  intro l hl
  rw [List.eq_of_mem_replicate hl]

variable {ls : List Lane}

theorem Unkept.take (h : Unkept ls) (k : Nat) : Unkept (ls.take k) :=
  fun l hl => h l (List.mem_of_mem_take hl)

theorem Unkept.drop (h : Unkept ls) (k : Nat) : Unkept (ls.drop k) :=
  fun l hl => h l (List.mem_of_mem_drop hl)

theorem Unkept.append {ls ls' : List Lane} (h : Unkept ls) (h' : Unkept ls') : Unkept (ls ++ ls') := by
  intro l hl
  rcases List.mem_append.mp hl with hl | hl
  · exact h l hl
  · exact h' l hl

theorem filter_keep_kept (bs : List (BitVec 8)) : (bs.map Lane.kept).filter (·.keep) = bs.map Lane.kept := by
  apply List.filter_eq_self.mpr
  intro l hl
  obtain ⟨b, -, rfl⟩ := List.mem_map.mp hl
  rfl

theorem Unkept.filter_keep (h : Unkept ls) : ls.filter (·.keep) = [] :=
  List.filter_eq_nil_iff.mpr fun l hl => by simp [h l hl]

theorem map_data_kept (bs : List (BitVec 8)) : (bs.map Lane.kept).map (·.data) = bs := by
  rw [List.map_map]
  exact List.map_id bs

theorem Word.Holds.bytes_eq (h : w.Holds bs) : w.bytes = bs := by
  obtain ⟨rest, hw, hrest⟩ := h
  rw [Word.bytes, hw, List.filter_append, filter_keep_kept, hrest.filter_keep, List.append_nil, map_data_kept]

theorem Word.Holds.length_le (h : w.Holds bs) : bs.length ≤ N := by
  obtain ⟨rest, hw, -⟩ := h
  rw [← w.length_eq, hw, List.length_append, List.length_map]
  exact Nat.le_add_right _ _

theorem Word.Holds.full (h : w.Holds bs) (hlen : bs.length = N) : w.lanes = bs.map Lane.kept := by
  obtain ⟨rest, hw, -⟩ := h
  have hlength := w.length_eq
  rw [hw, List.length_append, List.length_map] at hlength
  have hnil : rest = [] := List.length_eq_zero_iff.mp (by omega)
  rw [hw, hnil, List.append_nil]

theorem Word.holds_full (h : w.lanes = bs.map Lane.kept) : w.Holds bs :=
  ⟨[], by rw [h, List.append_nil], fun _ hl => (List.not_mem_nil hl).elim⟩

theorem Word.length_full (h : w.lanes = bs.map Lane.kept) : bs.length = N := by
  rw [← w.length_eq, h, List.length_map]

theorem Packet.bytes_eq (h : Packet ws bs) : ws.flatMap Word.bytes = bs := by
  induction h with
  | last _ hw => rw [List.flatMap_singleton, hw.bytes_eq]
  | cons _ hw _ ih => rw [List.flatMap_cons, (Word.holds_full hw).bytes_eq, ih]

theorem Packet.ne_nil (h : Packet ws bs) : ws ≠ [] := by
  cases h <;> exact List.cons_ne_nil _ _

-- a packet of one word
theorem Packet.one (h : Packet [w] bs) : w.last = true ∧ w.Holds bs := by
  cases h with
  | last hlast hw => exact ⟨hlast, hw⟩
  | cons _ _ hnil => exact absurd rfl hnil.ne_nil

theorem Word.Holds.emptyFrom (h : w.Holds bs) (k : Nat) : w.emptyFrom k = decide (bs.length ≤ k) := by
  obtain ⟨rest, hw, hrest⟩ := h
  unfold Word.emptyFrom
  rw [hw, List.drop_append, List.all_append]
  have htail : ((rest.drop (k - (bs.map Lane.kept).length)).all fun l => !l.keep) = true := by
    rw [List.all_eq_true]
    intro l hl
    rw [hrest.drop _ l hl]
    rfl
  rw [htail, Bool.and_true]
  by_cases hk : bs.length ≤ k
  · rw [List.drop_eq_nil_of_le (by simpa using hk), decide_eq_true hk]
    rfl
  · rw [decide_eq_false hk, List.drop_eq_getElem_cons (by simpa using hk)]
    simp [Lane.kept]

/-! ## `lshiftWordByOctet` -/

/-- The process is between two packets. -/
structure LShift.Idle (s : LShift N) : Prop where
  firstWord : s.firstWord = true
  writeRemainder : s.writeRemainder = false

theorem LShift.idle_init : ({} : LShift N).Idle := ⟨rfl, rfl⟩

variable {offset : Nat} {s : LShift N} {q : List (BitVec 8)}

/-- The bytes `q` go in front of the next word. -/
structure LShift.Owes (offset : Nat) (s : LShift N) (q : List (BitVec 8)) : Prop where
  writeRemainder : s.writeRemainder = false
  length : q.length = offset
  lanes : (if s.firstWord then (filler : Word N).lanes.take offset else s.prevWord.lanes.drop (N - offset)) =
    q.map Lane.kept

-- in front of a packet there are zeros
theorem LShift.Idle.owes (h : s.Idle) (hoff : offset ≤ N) (hoff' : offset ≤ 32) :
    s.Owes offset (List.replicate offset 0) := by
  refine ⟨h.writeRemainder, List.length_replicate, ?_⟩
  rw [if_pos h.firstWord]
  apply List.ext_getElem
  · simp [filler, hoff]
  · intro k hk hk'
    have hlt : k < 32 := by
      rw [List.length_map, List.length_replicate] at hk'
      omega
    simp [filler, Lane.kept, hlt]

theorem LShift.Owes.send (h : s.Owes offset q) (hoff : offset ≤ N) (w : Word N) :
    (s.send offset w).lanes = q.map Lane.kept ++ w.lanes.take (N - offset) := by
  show List.take N (if s.firstWord then (filler : Word N).lanes.take offset else s.prevWord.lanes.drop (N - offset)) ++
    w.lanes.take (N - min offset N) = _
  rw [h.lanes, Nat.min_eq_left hoff, List.take_of_length_le (by rw [List.length_map, h.length]; exact hoff)]

/-- Induction on the packet: what is owed and the front of a word are sent, and its tail is owed next. -/
theorem lshift_owes (hpos : 0 < offset) (hoff : offset ≤ N) (h : Packet ws bs) (rest : List (Word N)) :
    ∀ {s : LShift N} {q : List (BitVec 8)}, s.Owes offset q →
      ∃ os t, Runs (lshiftWordByOctet offset) s (ws ++ rest) os t rest ∧ LShift.Idle t ∧
        Packet os.flatten (q ++ bs) := by
  have hne : offset ≠ 0 := Nat.pos_iff_ne_zero.mp hpos
  induction h with
  | @last w bs hlast hw =>
    intro s q hs
    have hsend := hs.send hoff w
    have hsendLast : (s.send offset w).last = decide (bs.length ≤ N - offset) := hw.emptyFrom _
    have hcall : lshiftWordByOctet offset s (w :: rest) =
        ({ prevWord := w, firstWord := true, writeRemainder := !(s.send offset w).last }, rest,
          [s.send offset w]) := by
      simp [lshiftWordByOctet, hs.writeRemainder, hne, hlast]
    obtain ⟨unkept, hlanes, hunkept⟩ := hw
    by_cases hfit : bs.length ≤ N - offset
    · -- all bytes fit into the word
      rw [decide_eq_true hfit] at hsendLast
      rw [hsendLast] at hcall
      refine ⟨_, _, Runs.one hcall, ⟨rfl, rfl⟩, .last hsendLast ⟨unkept.take (N - offset - bs.length), ?_, hunkept.take _⟩⟩
      rw [hsend, hlanes, List.take_append, List.take_of_length_le (by rw [List.length_map]; exact hfit),
        List.length_map, List.map_append, List.append_assoc]
    · -- the rest goes into another word
      rw [decide_eq_false hfit] at hsendLast
      rw [hsendLast] at hcall
      have hremainder : lshiftWordByOctet offset
          { prevWord := w, firstWord := true, writeRemainder := true } rest =
          ({ prevWord := w, firstWord := true, writeRemainder := false }, rest,
            [.join (N - offset) w .zero true]) := by
        simp [lshiftWordByOctet]
      have hfull : (s.send offset w).lanes = (q ++ bs.take (N - offset)).map Lane.kept := by
        rw [hsend, hlanes, List.take_append_of_le_length (by rw [List.length_map]; omega), ← List.map_take,
          List.map_append]
      have htail : (Word.join (N - offset) w .zero true).Holds (bs.drop (N - offset)) := by
        refine ⟨unkept ++ (Word.zero : Word N).lanes.take (N - offset), ?_,
          hunkept.append ((unkept_replicate N).take _)⟩
        show w.lanes.drop (N - offset) ++ (Word.zero : Word N).lanes.take (N - offset) = _
        rw [hlanes, List.drop_append_of_le_length (by rw [List.length_map]; omega), List.map_drop,
          List.append_assoc]
      refine ⟨_, _, .call hcall (.one hremainder), ⟨rfl, rfl⟩, ?_⟩
      have hpacket := Packet.cons hsendLast hfull (.last rfl htail)
      rw [List.append_assoc, List.take_append_drop] at hpacket
      exact hpacket
  | @cons w ws bs bs' hlast hw _ ih =>
    intro s q hs
    have hlen : bs.length = N := Word.length_full hw
    have hsend := hs.send hoff w
    have hsendLast : (s.send offset w).last = false := by
      have hempty := (Word.holds_full hw).emptyFrom (N - offset)
      rw [decide_eq_false (by omega)] at hempty
      exact hempty
    have hcall : lshiftWordByOctet offset s (w :: (ws ++ rest)) =
        ({ prevWord := w, firstWord := false, writeRemainder := false }, ws ++ rest, [s.send offset w]) := by
      simp [lshiftWordByOctet, hs.writeRemainder, hne, hlast]
    have hfull : (s.send offset w).lanes = (q ++ bs.take (N - offset)).map Lane.kept := by
      rw [hsend, hw, ← List.map_take, List.map_append]
    have howes : LShift.Owes offset { prevWord := w, firstWord := false, writeRemainder := false }
        (bs.drop (N - offset)) := by
      refine ⟨rfl, by rw [List.length_drop, hlen]; omega, ?_⟩
      rw [if_neg Bool.false_ne_true, List.map_drop, hw]
    obtain ⟨os, t, hrun, hidle, hpacket⟩ := ih howes
    refine ⟨_, t, .call hcall hrun, hidle, ?_⟩
    have hall := Packet.cons hsendLast hfull hpacket
    rw [List.append_assoc, ← List.append_assoc (bs.take _), List.take_append_drop] at hall
    exact hall

theorem lshift_packet_pos (hpos : 0 < offset) (hoff : offset ≤ N) (hoff' : offset ≤ 32) (h : Packet ws bs)
    (hs : s.Idle) (rest : List (Word N)) :
    ∃ os t, Runs (lshiftWordByOctet offset) s (ws ++ rest) os t rest ∧ t.Idle ∧
      Packet os.flatten (List.replicate offset 0 ++ bs) :=
  lshift_owes hpos hoff h rest (hs.owes hoff hoff')

theorem lshift_zero (hs : s.writeRemainder = false) (ws rest : List (Word N)) :
    Runs (lshiftWordByOctet 0) s (ws ++ rest) (ws.map fun w => [w]) s rest := by
  induction ws with
  | nil => exact .refl s rest
  | cons w ws ih =>
    refine .call ?_ ih
    simp [lshiftWordByOctet, hs]

theorem flatten_singletons (ws : List (Word N)) : (ws.map fun w => [w]).flatten = ws := by
  rw [← List.flatMap_def, List.flatMap_singleton']

/-- A packet comes out with `offset` zeros in front. -/
theorem lshift_packet (hoff : offset ≤ N) (hoff' : offset ≤ 32) (h : Packet ws bs) (hs : s.Idle)
    (rest : List (Word N)) :
    ∃ os t, Runs (lshiftWordByOctet offset) s (ws ++ rest) os t rest ∧ t.Idle ∧
      Packet os.flatten (List.replicate offset 0 ++ bs) := by
  rcases Nat.eq_zero_or_pos offset with rfl | hpos
  · refine ⟨_, s, lshift_zero hs.writeRemainder ws rest, hs, ?_⟩
    rw [flatten_singletons]
    exact h
  · exact lshift_packet_pos hpos hoff hoff' h hs rest

theorem lshift_idle (hs : s.Idle) : lshiftWordByOctet offset s [] = (s, [], []) := by
  simp [lshiftWordByOctet, hs.writeRemainder]

/-! ## `rshiftWordByOctet` -/

/-- The process is between two packets. -/
structure RShift.Idle (offset : Nat) (s : RShift N) : Prop where
  fsmState : s.fsmState = .PKG
  firstWord : s.firstWord = decide (offset ≠ 0)

theorem RShift.idle_init (offset : Nat) : (RShift.init offset : RShift N).Idle offset := ⟨rfl, rfl⟩

theorem Word.Holds.tail (h : w.Holds bs) (k : Nat) (last : Bool) : (Word.join k w .zero last).Holds (bs.drop k) := by
  obtain ⟨unkept, hlanes, hunkept⟩ := h
  refine ⟨unkept.drop (k - bs.length) ++ (Word.zero : Word N).lanes.take k, ?_,
    (hunkept.drop _).append ((unkept_replicate N).take _)⟩
  show w.lanes.drop k ++ (Word.zero : Word N).lanes.take k = _
  rw [hlanes, List.drop_append, List.length_map, List.map_drop, List.append_assoc]

section Realign

variable {σ ι ο : Type} {f : σ → ι → σ × ι × ο} {g : ο → List (Word N)} (input : List (Word N) → ι)
  (holds owes : Word N → σ → Prop) (idle : σ → Prop)

/-- A process that holds a word back and sends its lanes from `offset` on with the first ones of the next word; what is
left of the last word is sent by a call of its own.  Induction on the packet. -/
theorem realign
    (hmore : ∀ s prev w (bs : List (BitVec 8)) rest, holds prev s → w.last = false → w.lanes = bs.map Lane.kept →
      ∃ t o, f s (input (w :: rest)) = (t, input rest, o) ∧ g o = [.join offset prev w false] ∧ holds w t)
    (hlast : ∀ s prev w bs rest, holds prev s → w.last = true → w.Holds bs →
      ∃ t o, f s (input (w :: rest)) = (t, input rest, o) ∧ g o = [.join offset prev w (decide (bs.length ≤ offset))] ∧
        if bs.length ≤ offset then idle t else owes w t)
    (hrest : ∀ s w rest, owes w s →
      ∃ t o, f s (input rest) = (t, input rest, o) ∧ g o = [.join offset w .zero true] ∧ idle t)
    (h : Packet ws bs) (rest : List (Word N)) :
    ∀ {s : σ} {prev : Word N} {p : List (BitVec 8)}, holds prev s → prev.lanes = p.map Lane.kept →
      ∃ os t, Runs f s (input (ws ++ rest)) os t (input rest) ∧ idle t ∧ Packet (os.flatMap g) (p.drop offset ++ bs) := by
  induction h with
  | @last w bs hend hw =>
    intro s prev p hs hprev
    obtain ⟨t, o, hcall, ho, ht⟩ := hlast s prev w bs rest hs hend hw
    have htail := hw.tail offset true
    obtain ⟨unkept, hlanes, hunkept⟩ := hw
    by_cases hfit : bs.length ≤ offset
    · rw [if_pos hfit] at ht
      refine ⟨_, t, .one hcall, ht, ?_⟩
      rw [List.flatMap_singleton, ho]
      refine .last (decide_eq_true hfit) ⟨unkept.take (offset - bs.length), ?_, hunkept.take _⟩
      show prev.lanes.drop offset ++ w.lanes.take offset = _
      rw [hprev, hlanes, List.take_append, List.take_of_length_le (by rw [List.length_map]; exact hfit),
        List.length_map, List.map_append, List.map_drop, List.append_assoc]
    · rw [if_neg hfit] at ht
      obtain ⟨u, o', hcall', ho', hu⟩ := hrest t w rest ht
      have hfull : (Word.join offset prev w (decide (bs.length ≤ offset))).lanes =
          (p.drop offset ++ bs.take offset).map Lane.kept := by
        show prev.lanes.drop offset ++ w.lanes.take offset = _
        rw [hprev, hlanes, List.take_append_of_le_length (by rw [List.length_map]; omega), ← List.map_take,
          List.map_append, List.map_drop]
      refine ⟨_, u, .call hcall (.one hcall'), hu, ?_⟩
      have hpacket := Packet.cons (decide_eq_false hfit) hfull (.last rfl htail)
      rw [List.append_assoc, List.take_append_drop] at hpacket
      rw [List.flatMap_cons, List.flatMap_singleton, ho, ho']
      exact hpacket
  | @cons w ws bs bs' hgoes hw _ ih =>
    intro s prev p hs hprev
    obtain ⟨t, o, hcall, ho, ht⟩ := hmore s prev w bs (ws ++ rest) hs hgoes hw
    have hfull : (Word.join offset prev w false).lanes = (p.drop offset ++ bs.take offset).map Lane.kept := by
      show prev.lanes.drop offset ++ w.lanes.take offset = _
      rw [hprev, hw, List.map_append, List.map_drop, List.map_take]
    obtain ⟨os, u, hrun, hu, hpacket⟩ := ih ht hw
    refine ⟨_, u, .call hcall hrun, hu, ?_⟩
    have hall := Packet.cons rfl hfull hpacket
    rw [List.append_assoc, ← List.append_assoc (bs.take _), List.take_append_drop] at hall
    rw [List.flatMap_cons, ho]
    exact hall

end Realign

variable {r : RShift N} {p : List (BitVec 8)}

theorem rshift_owes (hpos : 0 < offset) (hoff : offset < N) (h : Packet ws bs) (rest : List (Word N))
    (hst : r.fsmState = .PKG) (hfirst : r.firstWord = false) (hprev : r.prevWord.lanes = p.map Lane.kept) :
    ∃ os t, Runs (rshiftWordByOctet offset) r (ws ++ rest) os t rest ∧ t.Idle offset ∧
      Packet os.flatten (p.drop offset ++ bs) := by
  have hne : offset ≠ 0 := Nat.pos_iff_ne_zero.mp hpos
  have hrealign : ∃ os t, Runs (rshiftWordByOctet offset) r (ws ++ rest) os t rest ∧ t.Idle offset ∧
      Packet (os.flatMap id) (p.drop offset ++ bs) := by
    refine realign (fun ws => ws)
      (fun prev (r : RShift N) => r.fsmState = .PKG ∧ r.firstWord = false ∧ r.prevWord = prev)
      (fun w (r : RShift N) => r = { prevWord := w, firstWord := true, fsmState := .REMAINDER }) (RShift.Idle offset) ?_ ?_
      ?_ h rest ⟨hst, hfirst, rfl⟩ hprev
    · rintro r prev w bs rest ⟨hst, hfirst, rfl⟩ hlast hw
      have hlen : bs.length = N := Word.length_full hw
      have hempty : w.emptyFrom offset = false := by
        rw [(Word.holds_full hw).emptyFrom, decide_eq_false (by omega)]
      refine ⟨{ prevWord := w, firstWord := false, fsmState := .PKG }, [.join offset r.prevWord w false], ?_, rfl, rfl, rfl,
        rfl⟩
      simp [rshiftWordByOctet, hst, hfirst, hne, hlast, hempty]
    · rintro r prev w bs rest ⟨hst, hfirst, rfl⟩ hlast hw
      have hempty := hw.emptyFrom offset
      refine ⟨{ prevWord := w, firstWord := true, fsmState := if bs.length ≤ offset then .PKG else .REMAINDER },
        [.join offset r.prevWord w (decide (bs.length ≤ offset))], ?_, rfl, ?_⟩
      · by_cases hfit : bs.length ≤ offset <;>
          simp [rshiftWordByOctet, hst, hfirst, hne, hlast, hempty, hfit, Word.join]
      · by_cases hfit : bs.length ≤ offset
        · rw [if_pos hfit, if_pos hfit]
          exact ⟨rfl, (decide_eq_true hne).symm⟩
        · rw [if_neg hfit, if_neg hfit]
    · rintro r w rest rfl
      exact ⟨{ prevWord := w, firstWord := true, fsmState := .PKG }, [.join offset w .zero true], rfl, rfl, rfl,
        (decide_eq_true hne).symm⟩
  simp only [List.flatMap_id] at hrealign
  exact hrealign

/-- A packet comes out without its first `offset` bytes; when it has no more, as one word without bytes. -/
theorem rshift_packet_pos (hpos : 0 < offset) (hoff : offset < N) (h : Packet ws bs) (hr : r.Idle offset)
    (rest : List (Word N)) :
    ∃ os t, Runs (rshiftWordByOctet offset) r (ws ++ rest) os t rest ∧ t.Idle offset ∧
      Packet os.flatten (bs.drop offset) := by
  have hne : offset ≠ 0 := Nat.pos_iff_ne_zero.mp hpos
  have hfirst : r.firstWord = true := hr.firstWord.trans (decide_eq_true hne)
  cases h with
  | @last w bs hlast hw =>
    have hcall : rshiftWordByOctet offset r (w :: rest) =
        ({ prevWord := w, firstWord := true, fsmState := .REMAINDER }, rest, []) := by
      simp [rshiftWordByOctet, hr.fsmState, hfirst, hne, hlast]
    have hremainder : rshiftWordByOctet offset
        { prevWord := w, firstWord := true, fsmState := .REMAINDER } rest =
        ({ prevWord := w, firstWord := true, fsmState := .PKG }, rest, [.join offset w .zero true]) := rfl
    exact ⟨_, _, .call hcall (.one hremainder), ⟨rfl, (decide_eq_true hne).symm⟩, .last rfl (hw.tail offset true)⟩
  | @cons w ws bs bs' hlast hw h =>
    have hcall : rshiftWordByOctet offset r (w :: (ws ++ rest)) =
        ({ prevWord := w, firstWord := false, fsmState := .PKG }, ws ++ rest, []) := by
      simp [rshiftWordByOctet, hr.fsmState, hfirst, hne, hlast]
    obtain ⟨os, t, hrun, hidle, hpacket⟩ := rshift_owes hpos hoff h rest
      (r := { prevWord := w, firstWord := false, fsmState := .PKG }) rfl rfl hw
    have hlen : bs.length = N := Word.length_full hw
    refine ⟨_, t, .call hcall hrun, hidle, ?_⟩
    rw [List.drop_append_of_le_length (by omega)]
    exact hpacket

theorem rshift_zero (hr : r.Idle 0) (ws rest : List (Word N)) :
    ∃ t, Runs (rshiftWordByOctet 0) r (ws ++ rest) (ws.map fun w => [w]) t rest ∧ t.Idle 0 := by
  induction ws generalizing r with
  | nil => exact ⟨r, .refl r rest, hr⟩
  | cons w ws ih =>
    have hfirst : r.firstWord = false := hr.firstWord
    have hcall : rshiftWordByOctet 0 r (w :: (ws ++ rest)) =
        ({ prevWord := w, firstWord := false, fsmState := .PKG }, ws ++ rest, [w]) := by
      simp [rshiftWordByOctet, hr.fsmState, hfirst]
    obtain ⟨t, hrun, ht⟩ := ih (r := { prevWord := w, firstWord := false, fsmState := .PKG }) ⟨rfl, rfl⟩
    exact ⟨t, .call hcall hrun, ht⟩

/-- A packet comes out without its first `offset` bytes. -/
theorem rshift_packet (hoff : offset < N) (h : Packet ws bs) (hr : r.Idle offset) (rest : List (Word N)) :
    ∃ os t, Runs (rshiftWordByOctet offset) r (ws ++ rest) os t rest ∧ t.Idle offset ∧
      Packet os.flatten (bs.drop offset) := by
  rcases Nat.eq_zero_or_pos offset with rfl | hpos
  · obtain ⟨t, hrun, ht⟩ := rshift_zero hr ws rest
    refine ⟨_, t, hrun, ht, ?_⟩
    rw [flatten_singletons]
    exact h
  · exact rshift_packet_pos hpos hoff h hr rest

theorem rshift_idle (hr : r.Idle offset) : rshiftWordByOctet offset r [] = (r, [], []) := by
  simp [rshiftWordByOctet, hr.fsmState]

/-! ## Waiting for words -/

theorem lshift_waits (offset : Nat) : Waits (lshiftWordByOctet (N := N) offset) [] := by
  intro s i
  cases hremainder : s.writeRemainder with
  | true =>
    right
    intro x
    simp [lshiftWordByOctet, hremainder]
  | false =>
    cases i with
    | nil =>
      left
      simp [lshiftWordByOctet, hremainder]
    | cons w rest =>
      right
      intro x
      by_cases hoff : offset = 0 <;> simp [lshiftWordByOctet, hremainder, hoff]

theorem rshift_waits (offset : Nat) : Waits (rshiftWordByOctet (N := N) offset) [] := by
  intro s i
  cases hst : s.fsmState with
  | REMAINDER =>
    right
    intro x
    simp [rshiftWordByOctet, hst]
  | PKG =>
    cases i with
    | nil =>
      left
      simp [rshiftWordByOctet, hst]
    | cons w rest =>
      right
      intro x
      simp [rshiftWordByOctet, hst]

/-! ## Word by word -/

/-- The last word, and only that one, is marked. -/
inductive Ends : List (Word N) → Prop
  | last {w : Word N} (h : w.last = true) : Ends [w]
  | cons {w : Word N} {ws : List (Word N)} (h : w.last = false) (rest : Ends ws) : Ends (w :: ws)

theorem Packet.ends (h : Packet ws bs) : Ends ws := by
  induction h with
  | last hlast _ => exact .last hlast
  | cons hlast _ _ ih => exact .cons hlast ih

section

variable {σ ι ο : Type} {f : σ → ι → σ × ι × ο} (input : List (Word N) → ι) (busy idle : σ → Prop) (body : Word N → ο)

theorem Ends.runs_body
    (hbody : ∀ s w rest, busy s → ∃ t, f s (input (w :: rest)) = (t, input rest, body w) ∧
      (w.last = false → busy t) ∧ (w.last = true → idle t))
    (h : Ends ws) (rest : List (Word N)) :
    ∀ {s : σ}, busy s → ∃ t, Runs f s (input (ws ++ rest)) (ws.map body) t (input rest) ∧ idle t := by
  induction h with
  | @last w hw =>
    intro s hs
    obtain ⟨t, hcall, -, ht⟩ := hbody s w rest hs
    exact ⟨t, .one hcall, ht hw⟩
  | @cons w ws hw _ ih =>
    intro s hs
    obtain ⟨t, hcall, ht, -⟩ := hbody s w (ws ++ rest) hs
    obtain ⟨u, hrun, hu⟩ := ih (ht hw)
    exact ⟨u, .call hcall hrun, hu⟩

theorem Ends.runs_first {s t : σ} {i : ι} {o : ο}
    (hbody : ∀ s w rest, busy s → ∃ t, f s (input (w :: rest)) = (t, input rest, body w) ∧
      (w.last = false → busy t) ∧ (w.last = true → idle t))
    (h : Ends (w :: ws)) (rest : List (Word N)) (hfirst : f s i = (t, input (ws ++ rest), o))
    (hbusy : w.last = false → busy t) (hidle : w.last = true → idle t) :
    ∃ t, Runs f s i (o :: ws.map body) t (input rest) ∧ idle t := by
  cases h with
  | last hw => exact ⟨t, .one hfirst, hidle hw⟩
  | cons hw hmore =>
    obtain ⟨u, hrun, hu⟩ := hmore.runs_body input busy idle body hbody rest (hbusy hw)
    exact ⟨u, .call hfirst hrun, hu⟩

end

/-! ## Forwarding -/

section Forward

variable {σ ι : Type} {f : σ → ι → σ × ι × List (Word N)} (input : List (Word N) → ι) (busy idle : σ → Prop)
  (hmore : ∀ s w rest, busy s → w.last = false → ∃ t, f s (input (w :: rest)) = (t, input rest, [w]) ∧ busy t)
  (hlast : ∀ s w rest, busy s → w.last = true → ∃ t, f s (input (w :: rest)) = (t, input rest, [w]) ∧ idle t)

include hmore hlast

/-- A process that passes on one word at a call, up to the last word of a packet. -/
theorem forward (h : Packet ws bs) (rest : List (Word N)) :
    ∀ {s : σ}, busy s → ∃ os t, Runs f s (input (ws ++ rest)) os t (input rest) ∧ idle t ∧ os.flatten = ws := by
  induction h with
  | @last w bs hw _ =>
    intro s hs
    obtain ⟨t, hcall, ht⟩ := hlast s w rest hs hw
    exact ⟨_, t, Runs.one hcall, ht, rfl⟩
  | @cons w ws bs bs' hw _ _ ih =>
    intro s hs
    obtain ⟨t, hcall, ht⟩ := hmore s w (ws ++ rest) hs hw
    obtain ⟨os, u, hrun, hu, hos⟩ := ih ht
    exact ⟨_, u, .call hcall hrun, hu, by rw [List.flatten_cons, hos]; rfl⟩

theorem forward_first {g : Word N → Word N} {s : σ}
    (hfirst : ∀ w rest, ∃ t, f s (input (w :: rest)) = (t, input rest, [g w]) ∧
      (w.last = false → busy t) ∧ (w.last = true → idle t))
    (h : Packet ws bs) (rest : List (Word N)) :
    ∃ os t w ws', Runs f s (input (ws ++ rest)) os t (input rest) ∧ idle t ∧ ws = w :: ws' ∧
      os.flatten = g w :: ws' := by
  cases h with
  | @last w bs hw _ =>
    obtain ⟨t, hcall, -, ht⟩ := hfirst w rest
    exact ⟨_, t, w, [], Runs.one hcall, ht hw, rfl, rfl⟩
  | @cons w ws bs bs' hw _ h =>
    obtain ⟨t, hcall, ht, -⟩ := hfirst w (ws ++ rest)
    obtain ⟨os, u, hrun, hu, hos⟩ := forward input busy idle hmore hlast h rest (ht hw)
    exact ⟨_, u, w, ws, .call hcall hrun, hu, rfl, by rw [List.flatten_cons, hos]; rfl⟩

end Forward

theorem Packet.replace {w w' : Word N} {q q' : List (BitVec 8)} (h : Packet (w :: ws) (q ++ bs))
    (hN : q.length ≤ N) (hlast : w'.last = w.last)
    (hw : ∀ ls, w.lanes = q.map Lane.kept ++ ls → w'.lanes = q'.map Lane.kept ++ ls) :
    Packet (w' :: ws) (q' ++ bs) := by
  generalize hall : q ++ bs = all at h
  cases h with
  | last hl hold =>
    obtain ⟨rest, hlanes, hrest⟩ := hold
    rw [← hall, List.map_append, List.append_assoc] at hlanes
    refine .last (hlast.trans hl) ⟨rest, ?_, hrest⟩
    rw [hw _ hlanes, List.map_append, List.append_assoc]
  | @cons _ _ b b' hl hlanes h =>
    -- the first word is full, so it begins with `q`
    have hb : b.length = N := Word.length_full hlanes
    obtain ⟨tail, htail⟩ : ∃ tail, b = q ++ tail := by
      refine ⟨b.drop q.length, ?_⟩
      have htake := congrArg (List.take q.length) hall
      rw [List.take_left' rfl, List.take_append_of_le_length (by omega)] at htake
      calc b = b.take q.length ++ b.drop q.length := (List.take_append_drop _ _).symm
        _ = q ++ b.drop q.length := by rw [← htake]
    rw [htail, List.map_append] at hlanes
    rw [htail, List.append_assoc, List.append_cancel_left_eq] at hall
    have hlanes' : w'.lanes = (q' ++ tail).map Lane.kept := by rw [hw _ hlanes, List.map_append]
    have hpacket := Packet.cons (hlast.trans hl) hlanes' h
    rw [List.append_assoc, ← hall] at hpacket
    exact hpacket

/-! ## Packet by packet -/

/-- The words carry one packet after the other. -/
inductive Packets : List (Word N) → List (List (BitVec 8)) → Prop
  | nil : Packets [] []
  | cons {ws ws' : List (Word N)} {bs : List (BitVec 8)} {bss : List (List (BitVec 8))} (h : Packet ws bs)
      (rest : Packets ws' bss) : Packets (ws ++ ws') (bs :: bss)

theorem Packets.stage {σ : Type} {f : σ → List (Word N) → σ × List (Word N) × List (Word N)} {idle : σ → Prop}
    (g : List (BitVec 8) → List (BitVec 8))
    (hone : ∀ s ws bs rest, idle s → Packet ws bs →
      ∃ os t, Runs f s (ws ++ rest) os t rest ∧ idle t ∧ Packet os.flatten (g bs))
    {ws : List (Word N)} {bss : List (List (BitVec 8))} (h : Packets ws bss) :
    ∀ {s : σ}, idle s → ∃ os t, Runs f s ws os t [] ∧ idle t ∧ Packets os.flatten (bss.map g) := by
  induction h with
  | nil =>
    intro s hs
    exact ⟨[], s, .refl s [], hs, .nil⟩
  | @cons ws ws' bs bss h _ ih =>
    intro s hs
    obtain ⟨os, t, hrun, ht, hpacket⟩ := hone s ws bs ws' hs h
    obtain ⟨os', u, hrun', hu, hpackets⟩ := ih ht
    refine ⟨os ++ os', u, hrun.trans hrun', hu, ?_⟩
    rw [List.flatten_append]
    exact .cons hpacket hpackets

variable {bss : List (List (BitVec 8))}

theorem lshift_packets (hoff : offset ≤ N) (hoff' : offset ≤ 32) {ws : List (Word N)}
    (h : Packets ws bss) (hs : s.Idle) :
    ∃ os t, Runs (lshiftWordByOctet offset) s ws os t [] ∧ t.Idle ∧
      Packets os.flatten (bss.map (List.replicate offset 0 ++ ·)) :=
  h.stage _ (fun _ _ _ rest hs h => lshift_packet hoff hoff' h hs rest) hs

theorem rshift_packets (hoff : offset < N) {ws : List (Word N)} (h : Packets ws bss)
    (hr : r.Idle offset) :
    ∃ os t, Runs (rshiftWordByOctet offset) r ws os t [] ∧ t.Idle offset ∧
      Packets os.flatten (bss.map (·.drop offset)) :=
  h.stage _ (fun _ _ _ rest hr h => rshift_packet hoff h hr rest) hr

theorem Ends.append_inj {vs ws' vs' : List (Word N)} (h : Ends ws) (h' : Ends vs) (heq : ws ++ ws' = vs ++ vs') :
    ws = vs ∧ ws' = vs' := by
  induction h generalizing vs with
  | @last w hlast =>
    cases h' with
    | @last v _ =>
      obtain ⟨rfl, hrest⟩ := List.cons.inj heq
      exact ⟨rfl, hrest⟩
    | @cons v _ hmore _ =>
      obtain ⟨rfl, -⟩ := List.cons.inj heq
      rw [hlast] at hmore
      cases hmore
  | @cons w ws hmore _ ih =>
    cases h' with
    | @last v hlast =>
      obtain ⟨rfl, -⟩ := List.cons.inj heq
      rw [hlast] at hmore
      cases hmore
    | @cons v vs _ hvs =>
      obtain ⟨rfl, htail⟩ := List.cons.inj heq
      obtain ⟨rfl, hbehind⟩ := ih hvs htail
      exact ⟨rfl, hbehind⟩

theorem packets_cons_iff {ws' : List (Word N)} (h : Ends ws) :
    Packets (ws ++ ws') (bs :: bss) ↔ Packet ws bs ∧ Packets ws' bss := by
  constructor
  · intro hall
    generalize hws : ws ++ ws' = all at hall
    cases hall with
    | cons hfirst hrest =>
      obtain ⟨rfl, rfl⟩ := h.append_inj hfirst.ends hws
      exact ⟨hfirst, hrest⟩
  · rintro ⟨hfirst, hrest⟩
    exact .cons hfirst hrest

theorem Packets.unique {bss bss' : List (List (BitVec 8))} (h : Packets ws bss) (h' : Packets ws bss') : bss = bss' := by
  induction h generalizing bss' with
  | nil =>
    generalize hws : ([] : List (Word N)) = all at h'
    cases h' with
    | nil => rfl
    | cons hfirst _ => exact absurd (List.append_eq_nil_iff.mp hws.symm).1 hfirst.ne_nil
  | @cons ws ws' bs bss hfirst _ ih =>
    generalize hws : ws ++ ws' = all at h'
    cases h' with
    | nil => exact absurd (List.append_eq_nil_iff.mp hws).1 hfirst.ne_nil
    | cons hfirst' hrest' =>
      obtain ⟨rfl, rfl⟩ := hfirst.ends.append_inj hfirst'.ends hws
      rw [← hfirst.bytes_eq, hfirst'.bytes_eq, ih hrest']

theorem Packets.countP_last (h : Packets ws bss) : ws.countP (·.last) = bss.length := by
  have hone {ws : List (Word N)} (h : Ends ws) : ws.countP (·.last) = 1 := by
    induction h with
    | last hlast => rw [List.countP_cons_of_pos hlast, List.countP_nil]
    | cons hmore _ ih => rw [List.countP_cons_of_neg (by rw [hmore]; exact Bool.false_ne_true), ih]
  induction h with
  | nil => rfl
  | cons hfirst _ ih => rw [List.countP_append, hone hfirst.ends, ih, List.length_cons, Nat.add_comm]

theorem Packet.full_of_more (h : Packet ws bs) : ∀ w ∈ ws, w.last = false → ∃ q : List (BitVec 8), w.lanes = q.map Lane.kept := by
  induction h with
  | @last w bs hlast _ =>
    intro v hv hmore
    rw [List.mem_singleton.mp hv, hlast] at hmore
    cases hmore
  | @cons w ws q bs' _ hw _ ih => exact List.forall_mem_cons.mpr ⟨fun _ => ⟨q, hw⟩, ih⟩

theorem Packet.bytes_iff (h : Packet ws bs) : Packet ws bs' ↔ bs' = bs := by
  constructor
  · intro h'
    rw [← h'.bytes_eq, h.bytes_eq]
  · rintro rfl
    exact h

theorem Packet.length_bytes (h : Packet ws bs) : bs.length ≤ ws.length * N ∧ (ws.length - 1) * N ≤ bs.length := by
  induction h with
  | last _ hw =>
    rw [List.length_singleton, Nat.one_mul, Nat.sub_self, Nat.zero_mul]
    exact ⟨hw.length_le, Nat.zero_le _⟩
  | @cons w ws bs bs' _ hw hmore ih =>
    have hlen : bs.length = N := Word.length_full hw
    have hone : ws.length = ws.length - 1 + 1 := by
      have := List.length_pos_iff.mpr hmore.ne_nil
      omega
    rw [List.length_cons, List.length_append, hlen, Nat.add_sub_cancel, Nat.succ_mul]
    refine ⟨by omega, ?_⟩
    rw [hone, Nat.succ_mul]
    omega

theorem Packet.drop {k : Nat} (h : Packet ws bs) (hk : k < ws.length) : Packet (ws.drop k) (bs.drop (k * N)) := by
  induction k generalizing ws bs with
  | zero =>
    rw [Nat.zero_mul]
    exact h
  | succ k ih =>
    cases h with
    | last _ _ =>
      rw [List.length_singleton] at hk
      omega
    | @cons w ws q bs' hlast hw hmore =>
      have hlen : q.length = N := Word.length_full hw
      rw [List.length_cons] at hk
      rw [List.drop_succ_cons, Nat.succ_mul, Nat.add_comm, ← List.drop_drop, List.drop_left' hlen]
      exact ih hmore (by omega)

theorem Packet.uncons (h : Packet ws bs) (hlen : N < bs.length) :
    ∃ w ws' q bs', ws = w :: ws' ∧ bs = q ++ bs' ∧ q.length = N ∧ w.last = false ∧ Packet ws' bs' := by
  cases h with
  | last _ hw => exact absurd hw.length_le (Nat.not_le.mpr hlen)
  | @cons w ws q bs' hlast hw hmore => exact ⟨w, ws, q, bs', rfl, rfl, Word.length_full hw, hlast, hmore⟩

/-- A packet with its words. -/
structure Framed (N : Nat) where
  words : List (Word N)
  bytes : List (BitVec 8)
  packet : Packet words bytes

theorem Framed.packets (ps : List (Framed N)) : Packets (ps.flatMap Framed.words) (ps.map Framed.bytes) := by
  induction ps with
  | nil => exact .nil
  | cons p ps ih => exact .cons p.packet ih

theorem Packets.framed (h : Packets ws bss) :
    ∃ ps : List (Framed N), ps.flatMap Framed.words = ws ∧ ps.map Framed.bytes = bss := by
  induction h with
  | nil => exact ⟨[], rfl, rfl⟩
  | @cons ws ws' bs bss h _ ih =>
    obtain ⟨ps, hws, hbss⟩ := ih
    refine ⟨⟨ws, bs, h⟩ :: ps, ?_, ?_⟩
    · rw [List.flatMap_cons, hws]
    · rw [List.map_cons, hbss]

theorem Packets.blocks {ο δ : Type} {R : δ → List ο → Prop} {g : ο → List (Word N)} {h : δ → List (BitVec 8)} {ds : List δ}
    {oss : List (List ο)} (hR : ∀ d os, R d os → Packet (os.flatMap g) (h d)) (hoss : List.Forall₂ R ds oss) :
    Packets (oss.flatten.flatMap g) (ds.map h) := by
  induction hoss with
  | nil => exact .nil
  | cons hos _ ih =>
    rw [List.flatten_cons, List.flatMap_append]
    exact .cons (hR _ _ hos) ih

def PacketsFor {δ : Type} (h : δ → List (BitVec 8)) (ds : List δ) (out : List (Word N)) : Prop := Packets out (ds.map h)

/-- A process that makes one packet of each item makes the packets of all of them. -/
theorem packets_completes_of {σ ι ο δ : Type} [Append ι] [Std.Associative (α := ι) (· ++ ·)]
    {f : σ → ι → σ × ι × ο} {noOut : ο} {g : ο → List (Word N)} {idle : σ → Prop} {Q : δ → Prop} (input : List δ → ι)
    (h : δ → List (BitVec 8)) (hf : Waits f noOut) (hg : g noOut = [])
    (hready : ∀ s, idle s → f s (input []) = (s, input [], noOut))
    (hone : ∀ s d ds, idle s → Q d →
      ∃ os t, Runs f s (input (d :: ds)) os t (input ds) ∧ idle t ∧ Packet (os.flatMap g) (h d))
    {s : σ} (hs : idle s) {ds : List δ} (hds : ∀ d ∈ ds, Q d) :
    ∃ out, Completes f noOut g idle s (input []) (input ds) out ∧ PacketsFor h ds out := by
  have hall : (∃ out, Completes f noOut g idle s (input []) (input ds) out ∧ PacketsFor h ds out) ↔ ∀ d ∈ ds, True := by
    refine completes_iff input hf hg rfl hready .nil ?_ ds hs hds
    intro s d ds hs hd
    obtain ⟨os, t, hrun, ht, hpacket⟩ := hone s d ds hs hd
    refine ⟨os, t, hrun, ht, fun rest => ?_⟩
    rw [PacketsFor, List.map_cons, packets_cons_iff hpacket.ends]
    exact ⟨fun hrest => ⟨trivial, hrest.2⟩, fun hrest => ⟨hpacket, hrest.2⟩⟩
  exact hall.mpr fun _ _ => trivial

theorem packets_completes {σ ι δ : Type} [Append ι] [Std.Associative (α := ι) (· ++ ·)]
    {f : σ → ι → σ × ι × List (Word N)} {idle : σ → Prop} {Q : δ → Prop} (input : List δ → ι) (h : δ → List (BitVec 8))
    (hf : Waits f []) (hready : ∀ s, idle s → f s (input []) = (s, input [], []))
    (hone : ∀ s d ds, idle s → Q d →
      ∃ os t, Runs f s (input (d :: ds)) os t (input ds) ∧ idle t ∧ Packet os.flatten (h d))
    {s : σ} (hs : idle s) {ds : List δ} (hds : ∀ d ∈ ds, Q d) :
    ∃ out, Completes f [] id idle s (input []) (input ds) out ∧ PacketsFor h ds out := by
  refine packets_completes_of input h hf rfl hready ?_ hs hds
  intro s d ds hs hd
  obtain ⟨os, t, hrun, ht, hpacket⟩ := hone s d ds hs hd
  rw [← List.flatMap_id] at hpacket
  exact ⟨os, t, hrun, ht, hpacket⟩

theorem Packet.holds (h : Packet ws bs) : ∀ w ∈ ws, ∃ q : List (BitVec 8), w.Holds q := by
  induction h with
  | last _ hw => exact List.forall_mem_singleton.mpr ⟨_, hw⟩
  | cons _ hw _ ih => exact List.forall_mem_cons.mpr ⟨⟨_, Word.holds_full hw⟩, ih⟩

theorem Packets.holds (h : Packets ws bss) :
    ∀ w ∈ ws, ∃ q : List (BitVec 8), w.Holds q := by
  induction h with
  | nil => exact fun w hw => absurd hw List.not_mem_nil
  | cons hpacket _ ih => exact List.forall_mem_append.mpr ⟨hpacket.holds, ih⟩

end FpgaNetworkStack.Axi
