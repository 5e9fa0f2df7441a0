import FpgaNetworkStack.Axi.Packets
import FpgaNetworkStack.Toe.TxAppStreamIf

/-!
# Buffer words and their lanes

The writers of the two ring buffers work on slices of `data` and `keep`.  A lane is a byte and its enable; cutting a word
and aligning two words are operations on lists of lanes.
-/

namespace FpgaNetworkStack.Toe

open Axi (Word Lane Packet Unkept)

variable {W : Nat} {bs bs' : List (BitVec 8)}

namespace AxiWord

def lane (w : AxiWord W) (k : Nat) : Lane := ⟨w.data.extractLsb' (8 * k) 8, w.keep.getLsbD k⟩

def toWord (w : AxiWord W) : Word W := ⟨(List.range W).map w.lane, w.last, by rw [List.length_map, List.length_range]⟩

theorem toWord_lanes (w : AxiWord W) : w.toWord.lanes = (List.range W).map w.lane := rfl

theorem toWord_getElem (w : AxiWord W) {k : Nat} (hk : k < w.toWord.lanes.length) : w.toWord.lanes[k] = w.lane k := by
  simp only [toWord_lanes, List.getElem_map, List.getElem_range]

def Full (w : AxiWord W) (bs : List (BitVec 8)) : Prop := w.toWord.lanes = bs.map Lane.kept

end AxiWord

/-! ## Aligning two words -/

theorem alignWords_lane {offset : Nat} (hoff : offset ≤ W) (prevWord currWord : AxiWord W) {k : Nat} (hk : k < W) :
    (alignWords offset prevWord currWord).lane k =
      if k < W - offset then prevWord.lane (offset + k) else currWord.lane (k - (W - offset)) := by
  unfold AxiWord.lane alignWords
  split
  · next hlow =>
      congr 1
      · ext i hi
        simp only [BitVec.getElem_extractLsb', BitVec.getLsbD_or, BitVec.getLsbD_shiftLeft, BitVec.getLsbD_ushiftRight]
        rw [decide_eq_true (show 8 * k + i < 8 * (W - offset) by omega)]
        simp only [Bool.not_true, Bool.and_false, Bool.false_and, Bool.false_or]
        congr 1
        omega
      · simp only [BitVec.getLsbD_or, BitVec.getLsbD_shiftLeft, BitVec.getLsbD_ushiftRight]
        rw [decide_eq_true hlow]
        simp
  · next hhigh =>
      congr 1
      · ext i hi
        simp only [BitVec.getElem_extractLsb', BitVec.getLsbD_or, BitVec.getLsbD_shiftLeft, BitVec.getLsbD_ushiftRight]
        rw [decide_eq_false (show ¬8 * k + i < 8 * (W - offset) by omega),
          decide_eq_true (show 8 * k + i < 8 * W by omega),
          BitVec.getLsbD_of_ge prevWord.data _ (by omega)]
        simp only [Bool.not_false, Bool.and_true, Bool.true_and, Bool.or_false]
        congr 1
        omega
      · simp only [BitVec.getLsbD_or, BitVec.getLsbD_shiftLeft, BitVec.getLsbD_ushiftRight]
        rw [decide_eq_false hhigh, decide_eq_true hk, BitVec.getLsbD_of_ge prevWord.keep _ (by omega)]
        simp

theorem alignWords_lanes {offset : Nat} (hoff : offset ≤ W) (prevWord currWord : AxiWord W) (last : Bool) :
    ({ alignWords offset prevWord currWord with last } : AxiWord W).toWord.lanes =
      prevWord.toWord.lanes.drop offset ++ currWord.toWord.lanes.take offset := by
  apply List.ext_getElem
  · simp only [List.length_append, List.length_drop, List.length_take, Word.length_eq]
    omega
  · intro k hk hk'
    have hkW : k < W := by rwa [Word.length_eq] at hk
    rw [AxiWord.toWord_getElem, List.getElem_append]
    change (alignWords offset prevWord currWord).lane k = _
    rw [alignWords_lane hoff _ _ hkW]
    simp only [List.length_drop, Word.length_eq, List.getElem_drop, List.getElem_take, AxiWord.toWord_getElem, dite_eq_ite]

theorem alignWords_full {offset : Nat} (hoff : offset ≤ W) {prevWord currWord : AxiWord W} (hprev : prevWord.Full bs)
    {q rest : List (BitVec 8)} (hcurr : ∃ ls, currWord.toWord.lanes = (q ++ rest).map Lane.kept ++ ls)
    (hq : q.length = offset) (last : Bool) :
    ({ alignWords offset prevWord currWord with last } : AxiWord W).Full (bs.drop offset ++ q) := by
  obtain ⟨ls, hls⟩ := hcurr
  unfold AxiWord.Full at hprev ⊢
  rw [alignWords_lanes hoff, hprev, hls, List.map_append, List.append_assoc,
    List.take_left' (by rw [List.length_map, hq]), List.map_append, List.map_drop]

/-! ## Cutting a word -/

theorem lenToKeep_getLsbD {n k : Nat} (hn : 0 < n) (hlt : n < 64) (hk : k < W) :
    (lenToKeep W n).getLsbD k = decide (k < n) := by
  unfold lenToKeep
  rw [if_neg (by omega), Nat.mod_eq_of_lt hlt, BitVec.getLsbD_ofNat, decide_eq_true hk, Bool.true_and,
    Nat.testBit_two_pow_sub_one]

variable {w : AxiWord W}

theorem cut_holds {n : Nat} (hn : 0 < n) (hlt : n < 64) (hnW : n ≤ W) {ls : List Lane}
    (hw : w.toWord.lanes = bs.map Lane.kept ++ ls) (hbs : n ≤ bs.length) (last : Bool) :
    ({ w with keep := lenToKeep W n, last } : AxiWord W).toWord.Holds (bs.take n) := by
  refine ⟨(({ w with keep := lenToKeep W n, last } : AxiWord W).toWord.lanes).drop n, ?_, ?_⟩
  · -- the first lanes are those of the word
    have hlanes := congrArg (List.take n) hw
    rw [List.take_append_of_le_length (by rw [List.length_map]; exact hbs), ← List.map_take] at hlanes
    rw [← hlanes]
    apply List.ext_getElem
    · simp only [List.length_append, List.length_take, List.length_drop, Word.length_eq]
      omega
    · intro k hk hk'
      have hkW : k < W := by rwa [Word.length_eq] at hk
      rw [AxiWord.toWord_getElem, List.getElem_append]
      split
      · next hlow =>
          rw [List.length_take, Word.length_eq] at hlow
          have hkeep : w.keep.getLsbD k = true := by
            have hkb : k < bs.length := by omega
            have hk := congrArg (fun l => l[k]?) hw
            rw [List.getElem?_append_left (by rw [List.length_map]; exact hkb), List.getElem?_map,
              List.getElem?_eq_getElem (by rw [Word.length_eq]; exact hkW), AxiWord.toWord_getElem,
              List.getElem?_eq_getElem hkb] at hk
            exact congrArg Lane.keep (Option.some.inj hk)
          rw [List.getElem_take, AxiWord.toWord_getElem]
          unfold AxiWord.lane
          rw [lenToKeep_getLsbD hn hlt hkW, hkeep, decide_eq_true (by omega)]
      · next hhigh =>
          rw [List.length_take, Word.length_eq] at hhigh
          rw [List.getElem_drop, AxiWord.toWord_getElem, List.length_take, Word.length_eq]
          congr 1
          omega
  · intro l hl
    obtain ⟨k, hk, rfl⟩ := List.getElem_of_mem hl
    have hkW : n + k < W := by
      rw [List.length_drop, Word.length_eq] at hk
      omega
    rw [List.getElem_drop, AxiWord.toWord_getElem]
    unfold AxiWord.lane
    rw [lenToKeep_getLsbD hn hlt hkW, decide_eq_false (by omega)]

/-- The bit the aligners test: the word has a byte at lane `offset`. -/
theorem keep_getLsbD (h : w.toWord.Holds bs) {k : Nat} (hk : k < W) :
    w.keep.getLsbD k = decide (k < bs.length) := by
  obtain ⟨rest, hw, hrest⟩ := h
  have hlane : w.toWord.lanes[k]? = some (w.lane k) := by
    rw [List.getElem?_eq_getElem (by rw [Word.length_eq]; exact hk), AxiWord.toWord_getElem]
  rw [hw] at hlane
  by_cases hlt : k < bs.length
  · rw [List.getElem?_append_left (by rw [List.length_map]; exact hlt), List.getElem?_map,
      List.getElem?_eq_getElem hlt] at hlane
    rw [decide_eq_true hlt]
    exact (congrArg Lane.keep (Option.some.inj hlane)).symm
  · rw [List.getElem?_append_right (by rw [List.length_map]; omega)] at hlane
    rw [decide_eq_false hlt]
    exact hrest _ (List.mem_of_getElem? hlane)

/-! ## Packets of such words -/

/-- The words carry the bytes `bs` as one packet. -/
def Carries (ws : List (AxiWord W)) (bs : List (BitVec 8)) : Prop := Packet (ws.map AxiWord.toWord) bs

theorem Carries.last (hlast : w.last = true) (hw : w.toWord.Holds bs) : Carries [w] bs :=
  Packet.last hlast hw

variable {ws ws' : List (AxiWord W)}

theorem Carries.cons (hlast : w.last = false) (hw : w.Full bs)
    (h : Carries ws bs') : Carries (w :: ws) (bs ++ bs') := Packet.cons hlast hw h

@[elab_as_elim]
theorem Carries.induct {motive : (ws : List (AxiWord W)) → (bs : List (BitVec 8)) → Carries ws bs → Prop}
    (last : ∀ w bs hlast hw, motive [w] bs (.last hlast hw))
    (cons : ∀ w ws bs bs' hlast hw (h : Carries ws bs'), motive ws bs' h →
      motive (w :: ws) (bs ++ bs') (.cons hlast hw h))
    {ws : List (AxiWord W)} {bs : List (BitVec 8)} (h : Carries ws bs) : motive ws bs h := by
  have key (vs : List (Word W)) (cs : List (BitVec 8)) (hvs : Packet vs cs) :
      ∀ (us : List (AxiWord W)), us.map AxiWord.toWord = vs → (h : Carries us cs) → motive us cs h := by
    induction hvs with
    | last hlast hw =>
      intro ws hv h
      obtain ⟨w, ws', rfl, rfl, hnil⟩ := List.map_eq_cons_iff.mp hv
      obtain rfl := List.map_eq_nil_iff.mp hnil
      exact last w _ hlast hw
    | @cons _ _ _ cs' hlast hw hmore ih =>
      intro ws hv h
      obtain ⟨w, ws', rfl, rfl, hws⟩ := List.map_eq_cons_iff.mp hv
      have hcarries : Carries ws' cs' := by
        unfold Carries
        rw [hws]
        exact hmore
      exact cons w ws' _ _ hlast hw hcarries (ih ws' hws hcarries)
  exact key _ bs h ws rfl h

/-- Words in front of the last one: all are full. -/
inductive Fronts : List (AxiWord W) → List (BitVec 8) → Prop
  | nil : Fronts [] []
  | cons {w : AxiWord W} {ws : List (AxiWord W)} {bs bs' : List (BitVec 8)} (hlast : w.last = false) (hw : w.Full bs)
      (h : Fronts ws bs') : Fronts (w :: ws) (bs ++ bs')

theorem Fronts.carries (h : Fronts ws bs) (h' : Carries ws' bs') : Carries (ws ++ ws') (bs ++ bs') := by
  induction h with
  | nil => exact h'
  | cons hlast hw _ ih =>
    rw [List.cons_append, List.append_assoc]
    exact Carries.cons hlast hw ih

theorem AxiWord.Full.holds (h : w.Full bs) : w.toWord.Holds bs := Axi.Word.holds_full h

theorem AxiWord.Full.length_eq (h : w.Full bs) : bs.length = W := Axi.Word.length_full h

def lastBytes : List (AxiWord W) → Nat
  | [] => 0
  | [w] => w.toWord.bytes.length
  | _ :: w :: ws => lastBytes (w :: ws)

theorem lastBytes_cons (h : ws ≠ []) : lastBytes (w :: ws) = lastBytes ws := by
  cases ws with
  | nil => exact absurd rfl h
  | cons w' ws => rfl

theorem Carries.ne_nil (h : Carries ws bs) : ws ≠ [] := by
  rintro rfl
  exact Packet.ne_nil h rfl

end FpgaNetworkStack.Toe
