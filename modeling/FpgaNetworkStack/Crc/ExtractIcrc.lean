import FpgaNetworkStack.Axi.Headers
import FpgaNetworkStack.Axi.Keep

/-!
# Taking the ICRC off a packet (`extract_icrc`)

The last four bytes of a packet are its ICRC.  Each word is held back until the next one has come, since the ICRC may
be alone in the last one.
-/

namespace FpgaNetworkStack.Crc

open Lib
open Axi (Lane Word Packet Packets PacketsFor Framed Unkept headerOf)

variable {N : Nat}

/-! ## `extract_icrc` -/

inductive StateType where
  | FIRST | PKG | LAST
  deriving DecidableEq, Repr

structure ExtractIcrc (N : Nat) where
  eiState : StateType := .FIRST
  eiPrevWord : Word N := .zero

@[ext]
structure ExtractIcrcOut (N : Nat) where
  output : List (Word N) := []
  rxCrcFifo : List (BitVec 32) := []

def clearKeep (k : Nat) (w : Word N) : Word N where
  lanes := w.lanes.mapIdx fun j l => if k ≤ j ∧ j < k + 4 then { l with keep := false } else l
  last := w.last
  length_eq := by rw [List.length_mapIdx, w.length_eq]

/-- The lane at which the ICRC starts: the sixteen cases of `keep`, which are the enables of 4, 8, .. 64 bytes. -/
def icrcLane (w : Word N) : Option Nat :=
  ((List.range 16).map (4 * ·)).find? fun k => decide (k + 4 ≤ N) && w.keeps == Word.lowKeeps N (k + 4)

/-- One call of `extract_icrc`; `crcCheck` is the build without `DISABLE_CRC_CHECK`, and `undef` is what `crc` holds where
it is not set. -/
def extractIcrc (crcCheck : Bool) (undef : BitVec 32) (s : ExtractIcrc N) (input : List (Word N)) :
    ExtractIcrc N × List (Word N) × ExtractIcrcOut N :=
  match s.eiState with
  | .FIRST =>
    match input with
    | [] => (s, [], {})
    | currWord :: rest => (⟨if currWord.last then .LAST else .PKG, currWord⟩, rest, {})
  | .PKG =>
    match input with
    | [] => (s, [], {})
    | currWord :: rest =>
      if currWord.last && !currWord.keepAt 4 then
        (⟨.FIRST, currWord⟩, rest,
          { output := [{ s.eiPrevWord with last := true }]
            rxCrcFifo := if crcCheck then [currWord.data.extractLsb' 0 32] else [] })
      else (⟨if currWord.last then .LAST else .PKG, currWord⟩, rest, { output := [s.eiPrevWord] })
  | .LAST =>
    let crc := match icrcLane s.eiPrevWord with
      | some k => s.eiPrevWord.data.extractLsb' (8 * k) 32
      | none => undef
    -- with four bytes nothing is taken off
    let prevWord := match icrcLane s.eiPrevWord with
      | some k => if k = 0 then s.eiPrevWord else clearKeep k s.eiPrevWord
      | none => s.eiPrevWord
    (⟨.FIRST, prevWord⟩, input, { output := [prevWord], rxCrcFifo := if crcCheck then [crc] else [] })

theorem extractIcrc_waits (crcCheck : Bool) (undef : BitVec 32) : Waits (extractIcrc (N := N) crcCheck undef) {} := by
  intro s input
  obtain ⟨state, prev⟩ := s
  cases state with
  | FIRST =>
    cases input with
    | nil => exact .inl rfl
    | cons currWord rest => exact .inr fun more => rfl
  | PKG =>
    cases input with
    | nil => exact .inl rfl
    | cons currWord rest =>
      refine .inr fun more => ?_
      rw [List.cons_append]
      simp only [extractIcrc]
      cases currWord.last && !currWord.keepAt 4 <;> rfl
  | LAST => exact .inr fun more => rfl

/-! ## The last word -/

def icrcOf (bytes : List (BitVec 8)) : BitVec 32 := headerOf 4 (bytes.drop (bytes.length - 4))

def withoutIcrc (bytes : List (BitVec 8)) : List (BitVec 8) := bytes.take (bytes.length - 4)

section

variable {w : Word N} {bs : List (BitVec 8)}

theorem headerOf_extract {k n : Nat} (hN : k + n ≤ N) (bytes : List (BitVec 8)) :
    (headerOf N bytes).extractLsb' (8 * k) (8 * n) = headerOf n (bytes.drop k) := by
  apply BitVec.eq_of_getLsbD_eq
  intro i hi
  have hlane : 8 * (i / 8) + i % 8 = i := Nat.div_add_mod i 8
  have hmod : i % 8 < 8 := Nat.mod_lt i (by decide)
  have hsum : 8 * k + i = 8 * (k + i / 8) + i % 8 := by omega
  have hlt : 8 * k + i < 8 * N := by omega
  have hfirst : (Roce.packetNat bytes).testBit (8 * k + i) = (bytes.getD (k + i / 8) 0).getLsbD (i % 8) := by
    rw [hsum]
    exact Axi.testBit_packetNat bytes (k + i / 8) hmod
  have hsecond : (Roce.packetNat (bytes.drop k)).testBit i = ((bytes.drop k).getD (i / 8) 0).getLsbD (i % 8) := by
    rw [← Axi.testBit_packetNat (bytes.drop k) (i / 8) hmod, hlane]
  rw [BitVec.getLsbD_extractLsb', headerOf, headerOf, BitVec.getLsbD_ofNat, BitVec.getLsbD_ofNat, hfirst, hsecond,
    decide_eq_true hi, decide_eq_true hlt]
  simp [List.getD_eq_getElem?_getD, List.getElem?_drop]

theorem headerOf_append {n : Nat} {bytes : List (BitVec 8)} (hn : n ≤ bytes.length) (more : List (BitVec 8)) :
    headerOf n (bytes ++ more) = headerOf n bytes :=
  Axi.ofNat_packetNat_append bytes more (Nat.mul_le_mul_left 8 hn)

theorem data_extract (h : w.Holds bs) {k : Nat} (hk : k + 4 = bs.length) :
    w.data.extractLsb' (8 * k) 32 = icrcOf bs := by
  have hN := h.length_le
  obtain ⟨unkept, hlanes, -⟩ := h
  have hdata : w.data = headerOf N (bs ++ unkept.map (·.data)) := by
    show headerOf N (w.lanes.map (·.data)) = _
    rw [hlanes, List.map_append, Axi.map_data_kept]
  have hextract := headerOf_extract (N := N) (k := k) (n := 4) (by omega) (bs ++ unkept.map (·.data))
  have hfour : 4 ≤ (bs.drop k).length := by
    rw [List.length_drop]
    omega
  have hdrop : bs.length - 4 = k := by omega
  rw [hdata, icrcOf, hdrop, ← headerOf_append hfour (unkept.map (·.data)), ← List.drop_append_of_le_length (by omega)]
  exact hextract

theorem clearKeep_holds (h : w.Holds bs) {k : Nat} (hk : k + 4 = bs.length) : (clearKeep k w).Holds (withoutIcrc bs) := by
  obtain ⟨unkept, hlanes, hunkept⟩ := h
  have hcut : withoutIcrc bs = bs.take k := by
    rw [withoutIcrc]
    congr 1
    omega
  refine ⟨(clearKeep k w).lanes.drop k, ?_, ?_⟩
  · have hfront : (clearKeep k w).lanes.take k = (bs.take k).map Lane.kept := by
      apply List.ext_getElem
      · simp [clearKeep, hlanes]
        omega
      · intro j hj hj'
        rw [List.length_map, List.length_take] at hj'
        have hlow : ¬(k ≤ j ∧ j < k + 4) := by omega
        simp only [clearKeep, List.getElem_take, List.getElem_mapIdx, if_neg hlow, hlanes, List.getElem_map]
        rw [List.getElem_append_left (by rw [List.length_map]; omega), List.getElem_map]
    rw [hcut, ← hfront, List.take_append_drop]
  · intro l hl
    obtain ⟨j, hj, rfl⟩ := List.getElem_of_mem hl
    simp only [clearKeep, List.getElem_drop, List.getElem_mapIdx]
    by_cases hlow : k ≤ k + j ∧ k + j < k + 4
    · rw [if_pos hlow]
    · rw [if_neg hlow]
      apply hunkept
      have hget : w.lanes[k + j]? = unkept[k + j - bs.length]? := by
        rw [hlanes, List.getElem?_append_right (by rw [List.length_map]; omega), List.length_map]
      have hlen : k + j < w.lanes.length := by
        simp only [clearKeep, List.length_drop, List.length_mapIdx] at hj
        omega
      rw [List.getElem?_eq_getElem hlen] at hget
      exact List.mem_of_getElem? hget.symm

theorem icrcLane_eq (h : w.Holds bs) {k : Nat} (hk : k + 4 = bs.length) (hfour : k % 4 = 0) (hN : N ≤ 64) :
    icrcLane w = some k := by
  have hle := h.length_le
  have hfind : ((List.range 16).find?
      ((fun k => decide (k + 4 ≤ N) && w.keeps == Word.lowKeeps N (k + 4)) ∘ (4 * ·))) = some (k / 4) := by
    have hback : 4 * (k / 4) = k := by omega
    rw [List.find?_range_eq_some, h.keeps_eq, Function.comp_apply, hback, hk, decide_eq_true hle]
    refine ⟨beq_self_eq_true _, List.mem_range.mpr (by omega), fun n hn => ?_⟩
    rw [Function.comp_apply, Bool.not_eq_true', decide_eq_true (by omega), Bool.true_and, beq_eq_false_iff_ne]
    intro heq
    have hlen := Axi.lowKeeps_inj hle (by omega) heq
    omega
  rw [icrcLane, List.find?_map, hfind, Option.map_some]
  congr 1
  omega

end

/-! ## One packet -/

/-- What is written for a packet. -/
structure Taken (crcCheck : Bool) (bytes : List (BitVec 8)) (os : List (ExtractIcrcOut N)) : Prop where
  output : Packet (os.flatMap (·.output)) (withoutIcrc bytes)
  rxCrcFifo : os.flatMap (·.rxCrcFifo) = if crcCheck then [icrcOf bytes] else []

theorem withoutIcrc_append (p : List (BitVec 8)) {bs : List (BitVec 8)} (hlen : 4 ≤ bs.length) :
    withoutIcrc (p ++ bs) = p ++ withoutIcrc bs := by
  rw [withoutIcrc, List.length_append, Nat.add_sub_assoc hlen, List.take_length_add_append]
  rfl

theorem icrcOf_append (p : List (BitVec 8)) {bs : List (BitVec 8)} (hlen : 4 ≤ bs.length) :
    icrcOf (p ++ bs) = icrcOf bs := by
  rw [icrcOf, List.length_append, Nat.add_sub_assoc hlen, List.drop_length_add_append]
  rfl

section

variable (crcCheck : Bool) (undef : BitVec 32) {s : ExtractIcrc N} {ws : List (Word N)} {bs : List (BitVec 8)}

theorem extract_last (hs : s.eiState = .LAST) (hlast : s.eiPrevWord.last = true) (h : s.eiPrevWord.Holds bs)
    (hlen : 4 < bs.length) (hfour : bs.length % 4 = 0) (hN : N ≤ 64) (rest : List (Word N)) :
    ∃ os t, Runs (extractIcrc crcCheck undef) s rest os t rest ∧ t.eiState = .FIRST ∧ Taken crcCheck bs os := by
  have hk : bs.length - 4 + 4 = bs.length := by omega
  have hlane := icrcLane_eq h hk (by omega) hN
  have hpos : ¬bs.length - 4 = 0 := by omega
  have hcall : extractIcrc crcCheck undef s rest = (⟨.FIRST, clearKeep (bs.length - 4) s.eiPrevWord⟩, rest,
      { output := [clearKeep (bs.length - 4) s.eiPrevWord], rxCrcFifo := if crcCheck then [icrcOf bs] else [] }) := by
    simp only [extractIcrc, hs, hlane, if_neg hpos, data_extract h hk]
  refine ⟨_, _, .one hcall, rfl, ?_, ?_⟩
  · rw [List.flatMap_singleton]
    exact .last hlast (clearKeep_holds h hk)
  · rw [List.flatMap_singleton]

theorem bytes_ne_nil (h : Packet ws bs) (hne : ∀ w ∈ ws, w.bytes ≠ []) : bs ≠ [] := by
  cases h with
  | last _ hw => exact hw.bytes_eq ▸ hne _ List.mem_cons_self
  | cons _ hw _ =>
    have hfirst := hne _ List.mem_cons_self
    rw [(Axi.Word.holds_full hw).bytes_eq] at hfirst
    exact List.append_ne_nil_of_left_ne_nil hfirst _

theorem extract_rest (hN : N ≤ 64) (hN' : N % 4 = 0) (h : Packet ws bs) (rest : List (Word N)) :
    ∀ {s : ExtractIcrc N} {p : List (BitVec 8)}, s.eiState = .PKG → s.eiPrevWord.last = false →
      s.eiPrevWord.lanes = p.map Lane.kept → (∀ w ∈ ws, w.bytes ≠ []) → bs.length % 4 = 0 →
      ∃ os t, Runs (extractIcrc crcCheck undef) s (ws ++ rest) os t rest ∧ t.eiState = .FIRST ∧
        Taken crcCheck (p ++ bs) os := by
  induction h with
  | @last w bs hlast hw =>
    intro s p hs hmore hprev hne hfour
    have hbs : bs ≠ [] := hw.bytes_eq ▸ hne w List.mem_cons_self
    have hpos : 0 < bs.length := List.length_pos_of_ne_nil hbs
    have hkeep := hw.keepAt 4
    by_cases halone : bs.length = 4
    · -- the ICRC is alone in the last word
      rw [halone, decide_eq_false (Nat.lt_irrefl 4)] at hkeep
      have hcall : extractIcrc crcCheck undef s (w :: rest) = (⟨.FIRST, w⟩, rest,
          { output := [{ s.eiPrevWord with last := true }], rxCrcFifo := if crcCheck then [icrcOf bs] else [] }) := by
        simp only [extractIcrc, hs, hlast, hkeep, ← data_extract hw (k := 0) (by omega)]
        rfl
      have hnil : withoutIcrc bs = [] := by rw [withoutIcrc, halone, Nat.sub_self, List.take_zero]
      refine ⟨_, _, .one hcall, rfl, ?_, ?_⟩
      · rw [List.flatMap_singleton, withoutIcrc_append p (by omega), hnil, List.append_nil]
        exact .last rfl (Axi.Word.holds_full hprev)
      · rw [List.flatMap_singleton, icrcOf_append p (by omega)]
    · have hlong : 4 < bs.length := by omega
      rw [decide_eq_true hlong] at hkeep
      have hcall : extractIcrc crcCheck undef s (w :: rest) = (⟨.LAST, w⟩, rest, { output := [s.eiPrevWord] }) := by
        simp only [extractIcrc, hs, hlast, hkeep]
        rfl
      obtain ⟨os, t, hrun, ht, htaken⟩ := extract_last crcCheck undef (s := ⟨.LAST, w⟩) rfl hlast hw hlong hfour hN
        rest
      refine ⟨_, t, .call hcall hrun, ht, ?_, ?_⟩
      · rw [List.flatMap_cons, withoutIcrc_append p (by omega)]
        exact .cons hmore hprev htaken.output
      · rw [List.flatMap_cons, icrcOf_append p (by omega)]
        exact htaken.rxCrcFifo
  | @cons w ws q bs' hlast hw hmorewords ih =>
    intro s p hs hmore hprev hne hfour
    have hlen : q.length = N := Axi.Word.length_full hw
    have hcall : extractIcrc crcCheck undef s (w :: (ws ++ rest)) =
        (⟨.PKG, w⟩, ws ++ rest, { output := [s.eiPrevWord] }) := by
      simp only [extractIcrc, hs, hlast]
      rfl
    obtain ⟨-, hne⟩ := List.forall_mem_cons.mp hne
    have hpos := List.length_pos_of_ne_nil (bytes_ne_nil hmorewords hne)
    rw [List.length_append, hlen] at hfour
    have hfour' : bs'.length % 4 = 0 := by omega
    obtain ⟨os, t, hrun, ht, htaken⟩ := ih (s := ⟨.PKG, w⟩) rfl hlast hw hne hfour'
    have hlong : 4 ≤ (q ++ bs').length := by
      rw [List.length_append]
      omega
    refine ⟨_, t, .call hcall hrun, ht, ?_, ?_⟩
    · rw [List.flatMap_cons, withoutIcrc_append p hlong]
      exact .cons hmore hprev htaken.output
    · rw [List.flatMap_cons, icrcOf_append p hlong]
      exact htaken.rxCrcFifo

theorem extract_packet (hN : N ≤ 64) (hN' : N % 4 = 0) (h : Packet ws bs) (hne : ∀ w ∈ ws, w.bytes ≠ [])
    (hlen : 4 < bs.length) (hfour : bs.length % 4 = 0) (hs : s.eiState = .FIRST) (rest : List (Word N)) :
    ∃ os t, Runs (extractIcrc crcCheck undef) s (ws ++ rest) os t rest ∧ t.eiState = .FIRST ∧ Taken crcCheck bs os := by
  cases h with
  | @last w _ hlast hw =>
    have hcall : extractIcrc crcCheck undef s (w :: rest) = (⟨.LAST, w⟩, rest, {}) := by
      simp only [extractIcrc, hs, hlast]
      rfl
    obtain ⟨os, t, hrun, ht, htaken⟩ := extract_last crcCheck undef (s := ⟨.LAST, w⟩) rfl hlast hw hlen hfour hN rest
    exact ⟨_, t, .call hcall hrun, ht, htaken.output, htaken.rxCrcFifo⟩
  | @cons w ws q bs' hlast hw hmore =>
    have hcall : extractIcrc crcCheck undef s (w :: (ws ++ rest)) = (⟨.PKG, w⟩, ws ++ rest, {}) := by
      simp only [extractIcrc, hs, hlast]
      rfl
    have hfull : q.length = N := Axi.Word.length_full hw
    rw [List.length_append, hfull] at hfour
    obtain ⟨os, t, hrun, ht, htaken⟩ := extract_rest crcCheck undef hN hN' hmore rest (s := ⟨.PKG, w⟩) rfl hlast hw
      (List.forall_mem_cons.mp hne).2 (by omega)
    exact ⟨_, t, .call hcall hrun, ht, htaken.output, htaken.rxCrcFifo⟩

end

/-! ## All packets -/

/-- A packet with an ICRC: no word is empty. -/
structure Sealed (p : Framed N) : Prop where
  words : ∀ w ∈ p.words, w.bytes ≠ []
  length : 4 < p.bytes.length
  fours : p.bytes.length % 4 = 0

structure ExtractIcrc.Idle (s : ExtractIcrc N) : Prop where
  eiState : s.eiState = .FIRST

/-- However the words come in, every packet comes out once without its ICRC, and where the check is built in, its ICRC is
reported once. -/
theorem extract_icrc (hN : N ∈ [8, 16, 32, 64]) (crcCheck : Bool) (undef : BitVec 32) (ps : List (Framed N))
    (hps : ∀ p ∈ ps, Sealed p) :
    (∃ out, Completes (extractIcrc crcCheck undef) {} (·.output) ExtractIcrc.Idle {} [] (ps.flatMap (·.words)) out ∧
      Packets out (ps.map fun p => withoutIcrc p.bytes)) ∧
    Completes (extractIcrc crcCheck undef) {} (·.rxCrcFifo) ExtractIcrc.Idle {} [] (ps.flatMap (·.words))
      (if crcCheck then ps.map fun p => icrcOf p.bytes else []) := by
  have hwidth : N = 8 ∨ N = 16 ∨ N = 32 ∨ N = 64 := by simpa using hN
  have hfour : N % 4 = 0 := by rcases hwidth with rfl | rfl | rfl | rfl <;> rfl
  have hle : N ≤ 64 := by omega
  have hidle : ({} : ExtractIcrc N).Idle := ⟨rfl⟩
  have hready (s : ExtractIcrc N) (hs : s.Idle) : extractIcrc crcCheck undef s [] = (s, [], {}) := by
    simp only [extractIcrc, hs.eiState]
  have hone (s : ExtractIcrc N) (p : Framed N) (ps : List (Framed N)) (hs : s.Idle) (hp : Sealed p) :
      ∃ os t, Runs (extractIcrc crcCheck undef) s (p.words ++ ps.flatMap (·.words)) os t (ps.flatMap (·.words)) ∧ t.Idle ∧
        Taken crcCheck p.bytes os := by
    obtain ⟨os, t, hrun, ht, htaken⟩ := extract_packet crcCheck undef hle hfour p.packet hp.words hp.length hp.fours
      hs.eiState (ps.flatMap (·.words))
    exact ⟨os, t, hrun, ⟨ht⟩, htaken⟩
  constructor
  · refine Axi.packets_completes_of (List.flatMap Framed.words) (fun p : Framed N => withoutIcrc p.bytes)
      (extractIcrc_waits crcCheck undef) rfl hready ?_ hidle hps
    intro s p ps hs hp
    obtain ⟨os, t, hrun, ht, htaken⟩ := hone s p ps hs hp
    exact ⟨os, t, hrun, ht, htaken.output⟩
  · have hcompletes := completes_each (Q := Sealed) (g := (·.rxCrcFifo))
      (fun p : Framed N => if crcCheck then [icrcOf p.bytes] else []) (List.flatMap Framed.words)
      (extractIcrc_waits crcCheck undef) rfl rfl hready
      (fun s p ps hs hp => by
        obtain ⟨os, t, hrun, ht, htaken⟩ := hone s p ps hs hp
        exact ⟨os, t, hrun, ht, htaken.rxCrcFifo⟩) ps hidle hps
    cases crcCheck with
    | true =>
      have hmap : ps.flatMap (fun p => if true then [icrcOf p.bytes] else []) = ps.map fun p => icrcOf p.bytes :=
        (List.map_eq_flatMap ..).symm
      rw [hmap] at hcompletes
      exact hcompletes
    | false =>
      have hnil : ps.flatMap (fun p => if false then [icrcOf p.bytes] else []) = [] := List.flatMap_eq_nil_iff.mpr fun _ _ => rfl
      rw [hnil] at hcompletes
      exact hcompletes

/-- Eight bytes at 64 bits: the ICRC is the upper half of the only word. -/
theorem extract_icrc_one :
    (∃ out, Completes (extractIcrc true 0) {} (·.output) ExtractIcrc.Idle ({} : ExtractIcrc 8) []
        [.ofBytes [1, 2, 3, 4, 5, 6, 7, 8] (Nat.le_refl 8) true] out ∧ Packets out [[1, 2, 3, 4]]) ∧
      Completes (extractIcrc true 0) {} (·.rxCrcFifo) ExtractIcrc.Idle ({} : ExtractIcrc 8) []
        [.ofBytes [1, 2, 3, 4, 5, 6, 7, 8] (Nat.le_refl 8) true] [0x08070605] :=
  extract_icrc (N := 8) (by decide) true 0 [.single [1, 2, 3, 4, 5, 6, 7, 8] (Nat.le_refl 8)]
    (List.forall_mem_singleton.mpr ⟨List.forall_mem_singleton.mpr (by decide), by decide, rfl⟩)

end FpgaNetworkStack.Crc
