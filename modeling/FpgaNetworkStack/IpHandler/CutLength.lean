import FpgaNetworkStack.Axi.Keep
import FpgaNetworkStack.IpHandler.Flow

/-!
# Removing the padding of a frame (`ip_handler.cpp`)

The general `cut_length` counts words of eight bytes, whatever the width is, and the one for 512 bits looks at the
first word only.
-/

namespace FpgaNetworkStack.IpHandler

open Lib
open Axi (Word Lane Packet Packets Ends Framed packets_cons_iff laneData laneData_cons length_laneData)

variable {N : Nat} {w : Word N} {ws : List (Word N)} {bytes : List (BitVec 8)}

/-! ## The general `cut_length` -/

inductive ClState where
  | PKG | DROP
  deriving DecidableEq

structure CutLength where
  clState : ClState := .PKG
  clWordCount : BitVec 16 := 0
  clTotalLength : BitVec 16 := 0

/-- The total length in the first word. -/
def lengthField (currWord : Word N) : BitVec 16 := currWord.data.extractLsb' 16 8 ++ currWord.data.extractLsb' 24 8

def cutLengthOf (s : CutLength) (dataIn : List (Word N)) : CutLength × List (Word N) × List (Word N) :=
  match s.clState, dataIn with
  | _, [] => (s, [], [])
  | .PKG, currWord :: rest =>
    let totalLength := if s.clWordCount = 0 then lengthField currWord else s.clTotalLength
    -- the last real word; the first word is never cut
    let cut := decide (s.clWordCount ≠ 0 ∧ totalLength.toNat ≤ (s.clWordCount.toNat + 1) * 8)
    let leftLength := BitVec.ofInt 4 ((totalLength.toNat : Int) - (s.clWordCount.toNat * 8 : Nat))
    let sendWord := if cut then { setKeep (lenToKeep (leftLength.setWidth 6)) currWord with last := true } else currWord
    ({ clState := if cut && !currWord.last then .DROP else .PKG
       clWordCount := if sendWord.last then 0 else s.clWordCount + 1
       clTotalLength := totalLength },
      rest, [sendWord])
  | .DROP, currWord :: rest => ({ s with clState := if currWord.last then .PKG else .DROP }, rest, [])

/-- Between two packets. -/
structure CutLength.Idle (s : CutLength) : Prop where
  clState : s.clState = .PKG
  clWordCount : s.clWordCount = 0

theorem CutLength.idle_init : ({} : CutLength).Idle := ⟨rfl, rfl⟩

theorem cutLengthOf_waits : Waits (cutLengthOf (N := N)) [] := by
  intro s dataIn
  cases dataIn with
  | nil =>
    apply Or.inl
    unfold cutLengthOf
    cases s.clState <;> rfl
  | cons currWord rest =>
    apply Or.inr
    intro more
    unfold cutLengthOf
    cases s.clState <;> rfl

theorem CutLength.idle_rest {s : CutLength} : cutLengthOf (N := N) s [] = (s, [], []) := by
  unfold cutLengthOf
  cases s.clState <;> rfl

/-! ## What is kept of a word -/

theorem setKeep_holds {keep : Nat → Bool} {n : Nat} (hkeep : ∀ k, k < N → keep k = decide (k < n)) (w : Word N) :
    (setKeep keep w).Holds ((w.lanes.map (·.data)).take n) := by
  refine ⟨(setKeep keep w).lanes.drop n, ?_, ?_⟩
  · rw [← List.take_append_drop n (setKeep keep w).lanes]
    congr 1
    · apply List.ext_getElem
      · simp [setKeep]
      · intro k hk hk'
        have hlt : k < n ∧ k < N := by
          simp [setKeep, w.length_eq] at hk
          omega
        simp [setKeep, Lane.kept, hkeep k hlt.2, hlt.1]
    · rw [List.take_append_drop]
  · intro l hl
    obtain ⟨k, hk, rfl⟩ := List.mem_iff_getElem.mp hl
    have hlt : n + k < N := by
      simp [setKeep, w.length_eq] at hk
      omega
    simp [setKeep, hkeep _ hlt]

/-! ## One packet -/

theorem laneData_full (hw : w.lanes = bytes.map Lane.kept) (ws : List (Word N)) (k n : Nat) :
    (laneData (w :: ws)).take ((k + 1) * N + n) = bytes ++ (laneData ws).take (k * N + n) := by
  have hdata : laneData (w :: ws) = bytes ++ laneData ws := by
    rw [laneData_cons, hw, Axi.map_data_kept]
  have hlen : bytes.length = N := Word.length_full hw
  rw [hdata, List.take_append, hlen, List.take_of_length_le (by rw [hlen, Nat.succ_mul]; omega), Nat.succ_mul]
  congr 2
  omega

/-- The number of the word that is cut, for a total length. -/
def cutIndex (length : Nat) : Nat := (length - 1) / 8

def leftBytes (length : Nat) : Nat := length - 8 * cutIndex length

theorem leftBytes_bounds {length : Nat} (h : 0 < length) : 0 < leftBytes length ∧ leftBytes length ≤ 8 := by
  unfold leftBytes cutIndex
  omega

theorem cut_pass {c length : Nat} (hc : 0 < c) (hlt : c < cutIndex length) (hlength : length < 2 ^ 16) (w : Word N)
    (rest : List (Word N)) :
    cutLengthOf ⟨.PKG, BitVec.ofNat 16 c, BitVec.ofNat 16 length⟩ (w :: rest) =
      (⟨.PKG, if w.last then 0 else BitVec.ofNat 16 (c + 1), BitVec.ofNat 16 length⟩, rest, [w]) := by
  have hidx : cutIndex length < 2 ^ 13 := by
    unfold cutIndex
    omega
  have hcount : (BitVec.ofNat 16 c).toNat = c := by
    rw [BitVec.toNat_ofNat]
    exact Nat.mod_eq_of_lt (by omega)
  have htotal : (BitVec.ofNat 16 length).toNat = length := by
    rw [BitVec.toNat_ofNat]
    exact Nat.mod_eq_of_lt hlength
  have hne : BitVec.ofNat 16 c ≠ 0 := by
    intro h
    have := congrArg BitVec.toNat h
    rw [hcount] at this
    exact Nat.ne_of_gt hc this
  have hcut : ¬ (BitVec.ofNat 16 c ≠ 0 ∧ length ≤ (c + 1) * 8) := by
    unfold cutIndex at hlt
    omega
  simp only [cutLengthOf, if_neg hne, hcount, htotal, hcut, decide_false, Bool.false_and, Bool.false_eq_true, if_false,
    BitVec.ofNat_add]
  rfl

theorem cut_cut {length : Nat} (hlow : 9 ≤ length) (hlength : length < 2 ^ 16) (hN : 8 ≤ N) (w : Word N)
    (rest : List (Word N)) :
    ∃ w', cutLengthOf ⟨.PKG, BitVec.ofNat 16 (cutIndex length), BitVec.ofNat 16 length⟩ (w :: rest) =
        (⟨if w.last then .PKG else .DROP, 0, BitVec.ofNat 16 length⟩, rest, [w']) ∧
      Packet [w'] ((laneData [w]).take (leftBytes length)) := by
  have hidx : cutIndex length < 2 ^ 13 ∧ 0 < cutIndex length := by
    unfold cutIndex
    omega
  have hcount : (BitVec.ofNat 16 (cutIndex length)).toNat = cutIndex length := by
    rw [BitVec.toNat_ofNat]
    exact Nat.mod_eq_of_lt (by omega)
  have htotal : (BitVec.ofNat 16 length).toNat = length := by
    rw [BitVec.toNat_ofNat]
    exact Nat.mod_eq_of_lt hlength
  have hne : BitVec.ofNat 16 (cutIndex length) ≠ 0 := by
    intro h
    have := congrArg BitVec.toNat h
    rw [hcount] at this
    exact Nat.ne_of_gt hidx.2 this
  have hcut : decide (BitVec.ofNat 16 (cutIndex length) ≠ 0 ∧ length ≤ (cutIndex length + 1) * 8) = true := by
    apply decide_eq_true
    refine ⟨hne, ?_⟩
    unfold cutIndex
    omega
  have hleft : (length : Int) - (cutIndex length * 8 : Nat) = (leftBytes length : Nat) := by
    unfold leftBytes cutIndex
    omega
  have hkeep : ∀ k, k < N → lenToKeep ((BitVec.ofInt 4 (leftBytes length : Nat)).setWidth 6) k =
      decide (k < leftBytes length) := by
    intro k _
    obtain ⟨hpos, hle⟩ := leftBytes_bounds (Nat.lt_of_lt_of_le (by decide) hlow)
    have hnat : ((BitVec.ofInt 4 (leftBytes length : Nat)).setWidth 6).toNat = leftBytes length := by
      rw [BitVec.ofInt_natCast, BitVec.toNat_setWidth, BitVec.toNat_ofNat]
      omega
    have hnonzero : (BitVec.ofInt 4 (leftBytes length : Nat)).setWidth 6 ≠ 0 := by
      intro h
      have := congrArg BitVec.toNat h
      rw [hnat] at this
      exact Nat.ne_of_gt hpos this
    rw [lenToKeep, hnat, beq_false_of_ne hnonzero, Bool.false_or]
  refine ⟨{ setKeep (lenToKeep ((BitVec.ofInt 4 (leftBytes length : Nat)).setWidth 6)) w with last := true }, ?_, ?_⟩
  · simp only [cutLengthOf, if_neg hne, hcount, htotal, hcut, Bool.true_and, if_true, hleft]
    cases w.last <;> rfl
  · refine .last rfl ?_
    have hholds := setKeep_holds hkeep w
    rw [laneData, List.flatMap_singleton]
    exact hholds

theorem cut_drop (s : CutLength) (w : Word N) (rest : List (Word N)) (hs : s.clState = .DROP ∧ s.clWordCount = 0) :
    ∃ t, cutLengthOf s (w :: rest) = (t, rest, []) ∧ (w.last = false → t.clState = .DROP ∧ t.clWordCount = 0) ∧
      (w.last = true → t.Idle) := by
  obtain ⟨state, count, total⟩ := s
  obtain ⟨rfl, rfl⟩ := hs
  refine ⟨⟨if w.last then .PKG else .DROP, 0, total⟩, rfl, fun hlast => ⟨?_, rfl⟩, fun hlast => ⟨?_, rfl⟩⟩
  · rw [hlast]
    rfl
  · rw [hlast]
    rfl

/-- The words after the first: the last real one is cut, unless the packet ends before it. -/
theorem cut_rest {length : Nat} (hlow : 9 ≤ length) (hlength : length < 2 ^ 16) (hN : 8 ≤ N) (h : Packet ws bytes)
    (rest : List (Word N)) : ∀ {c : Nat}, 0 < c → c ≤ cutIndex length →
      ∃ os t, Runs cutLengthOf ⟨.PKG, BitVec.ofNat 16 c, BitVec.ofNat 16 length⟩ (ws ++ rest) os t rest ∧ t.Idle ∧
        Packet os.flatten (if ws.length ≤ cutIndex length - c then bytes
          else (laneData ws).take ((cutIndex length - c) * N + leftBytes length)) := by
  induction h with
  | @last w bs hlast hw =>
    intro c hc hle
    by_cases hlt : c < cutIndex length
    · refine ⟨[[w]], _, .one (cut_pass hc hlt hlength w rest), ?_, ?_⟩
      · rw [hlast]
        exact ⟨rfl, rfl⟩
      · rw [if_pos (by rw [List.length_singleton]; omega)]
        exact .last hlast hw
    · have hcut : c = cutIndex length := by omega
      subst hcut
      obtain ⟨w', hcall, hpacket⟩ := cut_cut hlow hlength hN w rest
      refine ⟨[[w']], _, .one hcall, ?_, ?_⟩
      · rw [hlast]
        exact ⟨rfl, rfl⟩
      · rw [if_neg (by rw [List.length_singleton]; omega), Nat.sub_self, Nat.zero_mul, Nat.zero_add]
        exact hpacket
  | @cons w ws bs bs' hlast hw hpacket ih =>
    intro c hc hle
    by_cases hlt : c < cutIndex length
    · obtain ⟨os, t, hrun, ht, hout⟩ := ih (Nat.succ_pos c) hlt
      have hcall := cut_pass hc hlt hlength w (ws ++ rest)
      rw [hlast] at hcall
      refine ⟨[w] :: os, t, .call hcall hrun, ht, ?_⟩
      have hall := Packet.cons hlast hw hout
      rw [List.flatten_cons, List.singleton_append]
      by_cases hshort : ws.length ≤ cutIndex length - (c + 1)
      · rw [if_pos hshort] at hall
        rw [if_pos (by rw [List.length_cons]; omega)]
        exact hall
      · rw [if_neg hshort] at hall
        rw [if_neg (by rw [List.length_cons]; omega)]
        have hone : cutIndex length - c = cutIndex length - (c + 1) + 1 := by omega
        rw [hone, laneData_full hw]
        exact hall
    · have hcut : c = cutIndex length := by omega
      subst hcut
      obtain ⟨w', hcall, hfirst⟩ := cut_cut hlow hlength hN w (ws ++ rest)
      rw [hlast] at hcall
      obtain ⟨t, hrun, ht⟩ := hpacket.ends.runs_body (fun ws => ws) (fun s => s.clState = .DROP ∧ s.clWordCount = 0)
        CutLength.Idle (fun _ => []) cut_drop rest
        (s := ⟨if false = true then .PKG else .DROP, 0, BitVec.ofNat 16 length⟩) ⟨rfl, rfl⟩
      refine ⟨_, t, .call hcall hrun, ht, ?_⟩
      have hnone : (ws.map fun _ => ([] : List (Word N))).flatten = [] := by simp
      rw [List.flatten_cons, hnone, List.append_nil, if_neg (by rw [List.length_cons]; omega), Nat.sub_self,
        Nat.zero_mul, Nat.zero_add]
      have hdata : (laneData (w :: ws)).take (leftBytes length) = (laneData [w]).take (leftBytes length) := by
        have hle8 := (leftBytes_bounds (Nat.lt_of_lt_of_le (by decide : 0 < 9) hlow)).2
        have hone : (laneData [w]).length = N := by rw [length_laneData, List.length_singleton, Nat.one_mul]
        have hsplit : laneData (w :: ws) = laneData [w] ++ laneData ws := by
          rw [laneData, laneData, laneData, List.flatMap_cons, List.flatMap_singleton]
        rw [hsplit, List.take_append_of_le_length (by omega)]
      rw [hdata]
      exact hfirst

def totalLength (ip : List (BitVec 8)) : Nat := (ip.getD 2 0 ++ ip.getD 3 0).toNat

theorem lengthField_packet (h : Packet (w :: ws) bytes) (hN : 8 ≤ N) (hlen : 20 ≤ bytes.length) :
    lengthField w = BitVec.ofNat 16 (totalLength bytes) := by
  have h2 : w.data.extractLsb' 16 8 = bytes.getD 2 0 := h.first_octet (k := 2) (by omega) (by omega)
  have h3 : w.data.extractLsb' 24 8 = bytes.getD 3 0 := h.first_octet (k := 3) (by omega) (by omega)
  rw [lengthField, h2, h3, totalLength, BitVec.ofNat_toNat, BitVec.setWidth_eq]

theorem totalLength_lt (ip : List (BitVec 8)) : totalLength ip < 2 ^ 16 := (ip.getD 2 0 ++ ip.getD 3 0).isLt

/-- The bytes that come out of the general `cut_length`. -/
def cutBytes (N : Nat) (ws : List (Word N)) (bytes : List (BitVec 8)) : List (BitVec 8) :=
  if ws.length ≤ cutIndex (totalLength bytes) then bytes
  else (laneData ws).take (cutIndex (totalLength bytes) * N + leftBytes (totalLength bytes))

theorem cutLengthOf_packet {s : CutLength} (hs : s.Idle) (hN : 8 ≤ N) (h : Packet ws bytes) (hlen : 20 ≤ bytes.length)
    (hlow : 20 ≤ totalLength bytes) (rest : List (Word N)) :
    ∃ os t, Runs cutLengthOf s (ws ++ rest) os t rest ∧ t.Idle ∧ Packet os.flatten (cutBytes N ws bytes) := by
  obtain ⟨state, count, total⟩ := s
  obtain ⟨rfl, rfl⟩ := hs
  have hidx : 0 < cutIndex (totalLength bytes) := by
    unfold cutIndex
    omega
  have hfirst (w : Word N) (ws more : List (Word N)) (hp : Packet (w :: ws) bytes) :
      cutLengthOf ⟨.PKG, 0, total⟩ (w :: more) =
        (⟨.PKG, if w.last then 0 else 1, BitVec.ofNat 16 (totalLength bytes)⟩, more, [w]) := by
    rw [← lengthField_packet hp hN hlen]
    rfl
  have hpacket := h
  cases h with
  | @last w bs hlast hw =>
    refine ⟨[[w]], _, .one (hfirst w [] rest hpacket), ?_, ?_⟩
    · rw [hlast]
      exact ⟨rfl, rfl⟩
    · rw [cutBytes, if_pos (by rw [List.length_singleton]; omega)]
      exact hpacket
  | @cons w ws bs bs' hlast hw hmore =>
    have hcall := hfirst w ws (ws ++ rest) hpacket
    rw [hlast] at hcall
    obtain ⟨os, t, hrun, ht, hout⟩ := cut_rest (by omega) (totalLength_lt _) hN hmore rest Nat.one_pos hidx
    refine ⟨[w] :: os, t, .call hcall hrun, ht, ?_⟩
    have hall := Packet.cons hlast hw hout
    rw [List.flatten_cons, List.singleton_append, cutBytes]
    generalize totalLength (bs ++ bs') = length at hidx hall ⊢
    by_cases hshort : ws.length ≤ cutIndex length - 1
    · rw [if_pos hshort] at hall
      rw [if_pos (by rw [List.length_cons]; omega)]
      exact hall
    · rw [if_neg hshort] at hall
      have hone : cutIndex length = cutIndex length - 1 + 1 := by omega
      rw [if_neg (by rw [List.length_cons]; omega), hone, laneData_full hw]
      exact hall

/-! ## Every packet -/

/-- A packet with its header whose total length covers the header. -/
structure HasLength (p : Framed N) : Prop where
  total : 20 ≤ totalLength p.bytes
  bytes : 20 ≤ p.bytes.length

/-- The words carry the packets cut to their total lengths. -/
def Shortened (ps : List (Framed N)) (out : List (Word N)) : Prop :=
  Packets out (ps.map fun p => p.bytes.take (totalLength p.bytes))

/-- However the words come in, each packet is cut to its total length. -/
def Cuts {σ : Type} (cut : σ → List (Word N) → σ × List (Word N) × List (Word N)) (idle : σ → Prop) (s : σ)
    (ps : List (Framed N)) : Prop :=
  ∃ out, Completes cut [] id idle s [] (ps.flatMap Framed.words) out ∧ Shortened ps out

/-- The packet is cut right by the general `cut_length`: with words of eight bytes when it is not truncated in the word
that is cut, and with wider words when there is nothing to cut. -/
def CutsRight (p : Framed N) : Prop :=
  if N = 8 then
    totalLength p.bytes ≤ p.bytes.length ∨ p.words.length ≤ cutIndex (totalLength p.bytes)
  else p.bytes.length ≤ totalLength p.bytes

/-- The packet is cut right by the `cut_length` for 512 bits: a single word keeps as many bytes as the length says
modulo 64, and nothing is cut from a longer packet. -/
def CutsRight512 (p : Framed 64) : Prop :=
  if p.words.length = 1 then
    totalLength p.bytes ≤ p.bytes.length ∨ p.bytes.length % 64 = totalLength p.bytes % 64
  else p.bytes.length ≤ totalLength p.bytes

theorem take_eq_take_iff {β : Type} {as bs cs : List β} {m n : Nat} (h : as = bs ++ cs) (hm : m ≤ as.length) :
    bs.take n = as.take m ↔ min n bs.length = m := by
  constructor
  · intro heq
    have hlen := congrArg List.length heq
    rw [List.length_take, List.length_take, Nat.min_eq_left hm] at hlen
    exact hlen
  · rintro rfl
    rw [h, List.take_append_of_le_length (Nat.min_le_right _ _), ← List.take_take, List.take_length]

theorem cutBytes_iff (hN : N = 8 ∨ N = 16 ∨ N = 32) {p : Framed N} (hp : HasLength p) :
    p.bytes.take (totalLength p.bytes) = cutBytes N p.words p.bytes ↔ CutsRight p := by
  obtain ⟨words, bytes, h⟩ := p
  obtain ⟨htotal, hlen⟩ := hp
  obtain ⟨unkept, hdata⟩ : ∃ unkept, laneData words = bytes ++ unkept := h.lanes
  obtain ⟨hle, hge⟩ := h.length_bytes
  have hlength := length_laneData words
  obtain ⟨hleft, hleft'⟩ := leftBytes_bounds (Nat.lt_of_lt_of_le (by decide) htotal)
  have hsum : 8 * cutIndex (totalLength bytes) + leftBytes (totalLength bytes) = totalLength bytes := by
    unfold leftBytes cutIndex
    omega
  show bytes.take (totalLength bytes) = cutBytes N words bytes ↔ (if N = 8 then
    totalLength bytes ≤ bytes.length ∨ words.length ≤ cutIndex (totalLength bytes) else
    bytes.length ≤ totalLength bytes)
  change 20 ≤ totalLength bytes at htotal
  rw [cutBytes]
  generalize totalLength bytes = length at htotal hleft hleft' hsum ⊢
  by_cases hshort : words.length ≤ cutIndex length
  · rw [if_pos hshort, List.take_eq_self_iff]
    rcases hN with rfl | rfl | rfl
    · rw [if_pos rfl]
      omega
    · rfl
    · rfl
  · have hbound : cutIndex length * N + leftBytes length ≤ (laneData words).length := by
      rw [hlength]
      rcases hN with rfl | rfl | rfl <;> omega
    rw [if_neg hshort, take_eq_take_iff hdata hbound]
    rcases hN with rfl | rfl | rfl
    · rw [if_pos rfl]
      omega
    · rw [if_neg (by decide)]
      omega
    · rw [if_neg (by decide)]
      omega

/-! ## The `cut_length` for 512 bits -/

theorem cutLength_waits : Waits cutLength [] := by
  intro s dataIn
  cases dataIn with
  | nil =>
    apply Or.inl
    cases s <;> rfl
  | cons currWord rest =>
    apply Or.inr
    intro more
    cases s <;> rfl

def keptBytes (length : Nat) : Nat := if length % 64 = 0 then 64 else length % 64

/-- The bytes that come out of the `cut_length` for 512 bits. -/
def cutBytes512 (ws : List (Word 64)) (bytes : List (BitVec 8)) : List (BitVec 8) :=
  if ws.length = 1 then (laneData ws).take (keptBytes (totalLength bytes)) else bytes

theorem lenToKeep_kept (length : Nat) (k : Nat) (hk : k < 64) :
    lenToKeep ((BitVec.ofNat 16 length).setWidth 6) k = decide (k < keptBytes length) := by
  have hnat : ((BitVec.ofNat 16 length).setWidth 6).toNat = length % 64 := by
    rw [BitVec.toNat_setWidth, BitVec.toNat_ofNat]
    omega
  rw [lenToKeep, keptBytes, hnat]
  by_cases hzero : length % 64 = 0
  · have hz : (BitVec.ofNat 16 length).setWidth 6 = 0 := BitVec.eq_of_toNat_eq (hnat.trans hzero)
    rw [if_pos hzero, hz, decide_eq_true hk]
    rfl
  · have hz : (BitVec.ofNat 16 length).setWidth 6 ≠ 0 := by
      intro h
      rw [h] at hnat
      exact hzero hnat.symm
    rw [if_neg hzero, beq_false_of_ne hz, Bool.false_or]

theorem cutWords_packet {ws : List (Word 64)} (h : Packet ws bytes) (hlen : 20 ≤ bytes.length) :
    Packet (cutWords ws) (cutBytes512 ws bytes) := by
  have hpacket := h
  cases h with
  | @last w bs hlast hw =>
    have hfield : lengthField w = BitVec.ofNat 16 (totalLength bytes) := lengthField_packet hpacket (by decide) hlen
    have hcut : cutFirst w = setKeep (lenToKeep ((BitVec.ofNat 16 (totalLength bytes)).setWidth 6)) w := by
      rw [← hfield]
      exact if_pos hlast
    have hholds := setKeep_holds (lenToKeep_kept (totalLength bytes)) w
    rw [← hcut] at hholds
    rw [cutBytes512, if_pos List.length_singleton, laneData, List.flatMap_singleton]
    exact .last ((cutFirst_last w).trans hlast) hholds
  | @cons w ws bs bs' hlast hw hmore =>
    have hcut : cutFirst w = w := by
      rw [cutFirst, hlast]
      rfl
    rw [cutBytes512, if_neg (by simp [hmore.ne_nil]), cutWords, hcut]
    exact hpacket

theorem cutBytes512_iff {p : Framed 64} (hp : HasLength p) :
    p.bytes.take (totalLength p.bytes) = cutBytes512 p.words p.bytes ↔ CutsRight512 p := by
  obtain ⟨words, bytes, h⟩ := p
  obtain ⟨htotal, hlen⟩ := hp
  obtain ⟨unkept, hdata⟩ : ∃ unkept, laneData words = bytes ++ unkept := h.lanes
  obtain ⟨hle, hge⟩ := h.length_bytes
  have hlength := length_laneData words
  show bytes.take (totalLength bytes) = cutBytes512 words bytes ↔ (if words.length = 1 then
    totalLength bytes ≤ bytes.length ∨ bytes.length % 64 = totalLength bytes % 64 else
    bytes.length ≤ totalLength bytes)
  change 20 ≤ totalLength bytes at htotal
  change 20 ≤ bytes.length at hlen
  rw [cutBytes512]
  generalize totalLength bytes = length at htotal ⊢
  by_cases hone : words.length = 1
  · have hbound : keptBytes length ≤ (laneData words).length := by
      rw [hlength, hone, keptBytes]
      split <;> omega
    rw [hone] at hle
    rw [if_pos hone, if_pos hone, take_eq_take_iff hdata hbound, keptBytes]
    split <;> omega
  · rw [if_neg hone, if_neg hone, List.take_eq_self_iff]

/-! ## All widths -/

/-- Each `cut_length` cuts a sequence of packets right exactly when it does so with each of them. -/
theorem cut_length_iff {N : Nat} (hN : N = 8 ∨ N = 16 ∨ N = 32) (ps : List (Framed N)) (hps : ∀ p ∈ ps, HasLength p)
    (qs : List (Framed 64)) (hqs : ∀ p ∈ qs, HasLength p) :
    (Cuts cutLengthOf CutLength.Idle {} ps ↔ ∀ p ∈ ps, CutsRight p) ∧
      (Cuts cutLength (fun s => s = .FIRST) .FIRST qs ↔ ∀ p ∈ qs, CutsRight512 p) := by
  constructor
  · refine completes_iff (List.flatMap Framed.words) cutLengthOf_waits rfl rfl (fun s _ => CutLength.idle_rest) .nil ?_
      ps CutLength.idle_init hps
    intro s p ps hs hp
    have hN8 : 8 ≤ N := by omega
    obtain ⟨os, t, hrun, ht, hpacket⟩ := cutLengthOf_packet hs hN8 p.packet hp.bytes hp.total (ps.flatMap Framed.words)
    refine ⟨os, t, hrun, ht, fun rest => ?_⟩
    rw [Shortened, List.map_cons, List.flatMap_id, packets_cons_iff hpacket.ends, hpacket.bytes_iff, cutBytes_iff hN hp]
    rfl
  · refine completes_iff (List.flatMap Framed.words) cutLength_waits rfl rfl ?_ .nil ?_ qs rfl hqs
    · rintro s rfl
      rfl
    · intro s p ps hs hp
      obtain ⟨t, hrun, ht⟩ := cut_packet s p ps hs trivial
      refine ⟨_, t, hrun, ht, fun rest => ?_⟩
      have hpacket := cutWords_packet p.packet hp.bytes
      rw [Shortened, List.map_cons, List.flatMap_id, Axi.flatten_singletons, packets_cons_iff hpacket.ends, hpacket.bytes_iff,
        cutBytes512_iff hp]
      rfl

/-- Twenty bytes of a header and what stands behind them. -/
def headerAnd (more : List (BitVec 8)) : List (BitVec 8) :=
  [0x45, 0, 0, 20, 0, 0, 0, 0, 0x40, 0x06, 0x9C, 0x12, 0x0A, 0x01, 0xD4, 0xD1, 0xFF, 0xFF, 0xFF, 0xFF] ++ more

/-- A packet of twenty bytes and four bytes of padding, in words of eight bytes. -/
def paddedWords : Framed 8 :=
  .full ((headerAnd []).take 8) (by decide) (.full ((headerAnd []).drop 8 |>.take 8) (by decide)
    (.single ((headerAnd [0, 0, 0, 0]).drop 16) (by decide)))

/-- The same packet in one word of 512 bits. -/
def paddedWord512 : Framed 64 := .single (headerAnd [0, 0, 0, 0]) (by decide)

theorem cut_length_iff_padded :
    Cuts cutLengthOf CutLength.Idle {} [paddedWords] ∧ Cuts cutLength (fun s => s = .FIRST) .FIRST [paddedWord512] := by
  have hlength : ∀ p ∈ [paddedWords], HasLength p := by
    intro p hp
    rw [List.mem_singleton.mp hp]
    constructor <;> decide
  have hlength' : ∀ p ∈ [paddedWord512], HasLength p := by
    intro p hp
    rw [List.mem_singleton.mp hp]
    constructor <;> decide
  have hcuts := cut_length_iff (.inl rfl) _ hlength _ hlength'
  constructor
  · apply hcuts.1.mpr
    intro p hp
    rw [List.mem_singleton.mp hp]
    exact .inl (by decide)
  · apply hcuts.2.mpr
    intro p hp
    rw [List.mem_singleton.mp hp]
    exact .inl (by decide)

/-- A packet of twenty bytes and twelve bytes of padding, in one word of thirty-two bytes. -/
def paddedWord : Framed 32 := .single (headerAnd (List.replicate 12 0)) (by decide)

theorem padding_stays : ¬ ∀ ps : List (Framed 32), (∀ p ∈ ps, HasLength p) → Cuts cutLengthOf CutLength.Idle {} ps := by
  intro h
  have hlength : ∀ p ∈ [paddedWord], HasLength p := by
    intro p hp
    rw [List.mem_singleton.mp hp]
    constructor <;> decide
  obtain ⟨out, hcompletes, hout⟩ := h [paddedWord] hlength
  obtain ⟨os, t, hrun, -, hpacket⟩ := cutLengthOf_packet CutLength.idle_init (by decide) paddedWord.packet (by decide)
    (by decide) []
  obtain ⟨-, -, hos⟩ := hcompletes.of_run rfl ⟨hrun, CutLength.idle_rest⟩
  rw [List.flatMap_id] at hos
  rw [← hos, Shortened, ← List.append_nil os.flatten, List.map_singleton, packets_cons_iff hpacket.ends,
    hpacket.bytes_iff] at hout
  exact absurd hout.1 (by decide)

end FpgaNetworkStack.IpHandler
