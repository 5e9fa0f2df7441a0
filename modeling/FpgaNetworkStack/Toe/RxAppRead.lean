import FpgaNetworkStack.Axi.Keep
import FpgaNetworkStack.Toe.Internals

/-!
# Reading the receive buffer (`toe.cpp`)

`rxAppMemAccessBreakdown` cuts a read command of the application at 64 KiB, and `rxAppMemDataRead` joins what the memory
returns for its two parts.
-/

namespace FpgaNetworkStack.Toe

open Lib
open Axi (Word Lane Packet Packets Unkept)

/-! ## `rxAppMemAccessBreakdown` -/

structure RxAppMemAccessBreakdown where
  rxAppBreakdown : Bool
  rxAppTempCmd : MmCmd
  rxAppAccLength : BitVec 16
  deriving DecidableEq

/-- Static initialisation; what is uninitialised there is zero here. -/
def RxAppMemAccessBreakdown.init : RxAppMemAccessBreakdown := ⟨false, ⟨0, 0⟩, 0⟩

structure RxAppMemAccessBreakdownOut where
  outputMemAccess : List MmCmd := []
  rxAppDoubleAccess : List Bool := []

/-- The command reaches beyond a multiple of 64 KiB. -/
def MmCmd.crosses64K (cmd : MmCmd) : Bool := decide (65536 < (cmd.saddr.setWidth 16).toNat + cmd.bbt.toNat)

/-- `65536 - saddr`, of which 16 bits are kept. -/
def MmCmd.accLength (cmd : MmCmd) : BitVec 16 := BitVec.ofNat 16 65536 - cmd.saddr.setWidth 16

def rxAppMemAccessBreakdown (s : RxAppMemAccessBreakdown) (inputMemAccess : List MmCmd) :
    RxAppMemAccessBreakdown × List MmCmd × RxAppMemAccessBreakdownOut :=
  match s.rxAppBreakdown with
  | false =>
    match inputMemAccess with
    | [] => (s, [], {})
    | cmd :: rest =>
      if cmd.crosses64K then
        (⟨true, cmd, cmd.accLength⟩, rest,
          { outputMemAccess := [.new cmd.saddr cmd.accLength], rxAppDoubleAccess := [true] })
      else
        ({ s with rxAppTempCmd := cmd }, rest, { outputMemAccess := [cmd], rxAppDoubleAccess := [false] })
  | true =>
    let saddr := (s.rxAppTempCmd.saddr >>> 16) <<< 16
    let rxAppAccLength := s.rxAppTempCmd.bbt.setWidth 16 - s.rxAppAccLength
    (⟨false, { s.rxAppTempCmd with saddr }, rxAppAccLength⟩, inputMemAccess,
      { outputMemAccess := [.new saddr rxAppAccLength] })

/-! ## `rxAppMemDataRead` -/

variable {N : Nat}

/-- The bytes of a word, kept or not. -/
def dataBytes (w : Word N) : List (BitVec 8) := w.lanes.map (·.data)

def wordOf (data : List (BitVec 8)) (keep : Nat → Bool) (last : Bool) : Word N where
  lanes := (List.range N).map fun k => ⟨data.getD k 0, keep k⟩
  last := last
  length_eq := by rw [List.length_map, List.length_range]

/-- `word.data.range(8 * hi - 1, 8 * lo)`; bounds that are not in order or outside the word give `outside`. -/
def rangeBytes (outside : List (BitVec 8)) (w : Word N) (lo hi : Int) : List (BitVec 8) :=
  if 0 ≤ lo ∧ lo < hi ∧ hi ≤ N then ((dataBytes w).drop lo.toNat).take (hi - lo).toNat else outside

def assignBytes (n : Nat) (value : List (BitVec 8)) : List (BitVec 8) := (value ++ List.replicate n 0).take n

/-- The enables `lenToKeep(length)`, of a 6-bit length. -/
def lenToKeeps (length : Nat) (k : Nat) : Bool := decide (length % 64 = 0) || decide (k < length % 64)

inductive RAState where
  | RXAPP_IDLE | RXAPP_STREAM | RXAPP_JOIN | RXAPP_STREAMMERGED | RXAPP_STREAMUNMERGED | RXAPP_RESIDUE
  deriving DecidableEq, Repr

structure RxAppMemDataRead (N : Nat) where
  rxAppMemRdRxWord : Word N
  rxAppDoubleAccessFlag : Bool
  rxAppState : RAState
  rxAppMemRdOffset : Nat
  rxAppOffsetBuffer : Nat
  deriving DecidableEq

/-- Static initialisation; what is uninitialised there is zero here. -/
def RxAppMemDataRead.init (N : Nat) : RxAppMemDataRead N := ⟨.zero, false, .RXAPP_IDLE, 0, 0⟩

structure RxAppMemDataReadIn (N : Nat) where
  rxBufferReadData : List (Word N) := []
  rxAppDoubleAccess : List Bool := []

namespace RxAppMemDataRead

/-- A word of the first memory access; the last one is held back where it is not full. -/
def firstPart (s : RxAppMemDataRead N) (rxAppDoubleAccessFlag : Bool) (word : Word N) :
    RxAppMemDataRead N × List (Word N) :=
  let s := { s with rxAppDoubleAccessFlag, rxAppMemRdRxWord := word, rxAppMemRdOffset := word.keepToLen }
  if word.last && rxAppDoubleAccessFlag then
    let word := { word with last := false }
    let s := { s with rxAppMemRdRxWord := word }
    if s.rxAppMemRdOffset = N then ({ s with rxAppState := .RXAPP_STREAMUNMERGED }, [word])
    else if s.rxAppMemRdOffset < N then ({ s with rxAppState := .RXAPP_JOIN }, [])
    else (s, [])
  else if word.last then ({ s with rxAppState := .RXAPP_IDLE }, [word])
  else ({ s with rxAppState := .RXAPP_STREAM }, [word])

/-- The bytes held back: of the first access, or of the word before. -/
def lowBytes (outside : List (BitVec 8)) (s : RxAppMemDataRead N) : List (BitVec 8) :=
  match s.rxAppState with
  | .RXAPP_JOIN => assignBytes s.rxAppMemRdOffset (rangeBytes outside s.rxAppMemRdRxWord 0 s.rxAppMemRdOffset)
  | _ => assignBytes s.rxAppMemRdOffset (rangeBytes outside s.rxAppMemRdRxWord (8 - s.rxAppMemRdOffset) N)

/-- The bytes held back, filled up with those of the next word. -/
def mergedBytes (outside : List (BitVec 8)) (s : RxAppMemDataRead N) (word : Word N) : List (BitVec 8) :=
  s.lowBytes outside ++ assignBytes (N - s.rxAppMemRdOffset) (rangeBytes outside word 0 (8 - s.rxAppMemRdOffset))

/-- A word of the second memory access. -/
def merge (outside : List (BitVec 8)) (s : RxAppMemDataRead N) (word : Word N) : RxAppMemDataRead N × List (Word N) :=
  let tempCounter := word.keepToLen
  let data := s.mergedBytes outside word
  let rxAppOffsetBuffer := (((tempCounter : Int) - (N - s.rxAppMemRdOffset)) % 256).toNat
  let s := { s with rxAppMemRdRxWord := word, rxAppOffsetBuffer }
  if word.last then
    if tempCounter + s.rxAppMemRdOffset ≤ N then
      ({ s with rxAppState := .RXAPP_IDLE }, [wordOf data (lenToKeeps (tempCounter + s.rxAppMemRdOffset)) true])
    else ({ s with rxAppState := .RXAPP_RESIDUE }, [wordOf data (fun _ => true) false])
  else ({ s with rxAppState := .RXAPP_STREAMMERGED }, [wordOf data (fun _ => true) false])

end RxAppMemDataRead

def rxAppMemDataRead (outside : List (BitVec 8)) (s : RxAppMemDataRead N) (i : RxAppMemDataReadIn N) :
    RxAppMemDataRead N × RxAppMemDataReadIn N × List (Word N) :=
  match s.rxAppState with
  | .RXAPP_IDLE =>
    match i.rxAppDoubleAccess, i.rxBufferReadData with
    | flag :: flags, word :: words =>
      let (t, out) := s.firstPart flag word
      (t, ⟨words, flags⟩, out)
    | _, _ => (s, i, [])
  | .RXAPP_STREAM =>
    match i.rxBufferReadData with
    | [] => (s, i, [])
    | word :: words =>
      let (t, out) := s.firstPart s.rxAppDoubleAccessFlag word
      (t, { i with rxBufferReadData := words }, out)
  | .RXAPP_STREAMUNMERGED =>
    match i.rxBufferReadData with
    | [] => (s, i, [])
    | word :: words =>
      (if word.last then { s with rxAppState := .RXAPP_IDLE } else s, { i with rxBufferReadData := words }, [word])
  | .RXAPP_JOIN | .RXAPP_STREAMMERGED =>
    match i.rxBufferReadData with
    | [] => (s, i, [])
    | word :: words =>
      let (t, out) := s.merge outside word
      (t, { i with rxBufferReadData := words }, out)
  | .RXAPP_RESIDUE =>
    ({ s with rxAppState := .RXAPP_IDLE }, i,
      [wordOf (s.lowBytes outside) (lenToKeeps s.rxAppOffsetBuffer) true])

/-! ## Bytes of words -/

variable {z : List (BitVec 8)} {w : Word N} {ws ws' : List (Word N)} {bs bs' : List (BitVec 8)}

theorem dataBytes_length (w : Word N) : (dataBytes w).length = N := by rw [dataBytes, List.length_map, w.length_eq]

theorem assignBytes_length (n : Nat) (value : List (BitVec 8)) : (assignBytes n value).length = n := by
  rw [assignBytes, List.length_take, List.length_append, List.length_replicate]
  omega

variable {value data : List (BitVec 8)}

theorem assignBytes_self {n : Nat} (h : value.length = n) : assignBytes n value = value := by
  rw [assignBytes, List.take_left' h]

theorem assignBytes_getElem {n j : Nat} (hj : j < n) :
    (assignBytes n value)[j]? = if j < value.length then value[j]? else some 0 := by
  rw [assignBytes, List.getElem?_take_of_lt hj]
  split
  · next hlt => rw [List.getElem?_append_left hlt]
  · next hge =>
      rw [List.getElem?_append_right (Nat.le_of_not_lt hge), List.getElem?_replicate, if_pos (by omega)]

theorem dataBytes_take (h : w.Holds bs) : (dataBytes w).take bs.length = bs := by
  obtain ⟨rest, hw, -⟩ := h
  rw [dataBytes, hw, List.map_append, Axi.map_data_kept, List.take_left' rfl]

theorem dataBytes_full (h : w.lanes = bs.map Lane.kept) : dataBytes w = bs := by
  rw [dataBytes, h, Axi.map_data_kept]

theorem packet_head (h : Packet (w :: ws) bs) {k : Nat} (hk : k ≤ N) (hk' : k ≤ bs.length) :
    (dataBytes w).take k = bs.take k := by
  cases h with
  | last _ hw =>
    have htake := congrArg (List.take k) (dataBytes_take hw)
    rwa [List.take_take, Nat.min_eq_left hk'] at htake
  | cons _ hw _ => rw [dataBytes_full hw, List.take_append_of_le_length (by rw [Word.length_full hw]; exact hk)]

theorem wordOf_holds {keep : Nat → Bool} {last : Bool} {n : Nat} (hn : n ≤ data.length)
    (hN : n ≤ N) (hkeep : ∀ k, k < N → keep k = decide (k < n)) : (wordOf data keep last : Word N).Holds (data.take n) := by
  refine ⟨((wordOf data keep last : Word N).lanes).drop n, ?_, ?_⟩
  · have hfront : (wordOf data keep last : Word N).lanes.take n = (data.take n).map Lane.kept := by
      apply List.ext_getElem
      · rw [List.length_take, Word.length_eq, List.length_map, List.length_take]
        omega
      · intro k hk hk'
        rw [List.length_take, Word.length_eq] at hk
        rw [List.getElem_take, List.getElem_map, List.getElem_take]
        simp only [wordOf, List.getElem_map, List.getElem_range]
        rw [hkeep k (by omega), decide_eq_true (by omega), List.getD_eq_getElem?_getD, List.getElem?_eq_getElem (by omega)]
        rfl
    rw [← hfront, List.take_append_drop]
  · intro l hl
    obtain ⟨k, hk, rfl⟩ := List.getElem_of_mem hl
    rw [List.length_drop, Word.length_eq] at hk
    rw [List.getElem_drop]
    simp only [wordOf, List.getElem_map, List.getElem_range]
    rw [hkeep _ (by omega), decide_eq_false (by omega)]

theorem wordOf_full {last : Bool} (h : data.length = N) :
    (wordOf data (fun _ => true) last : Word N).lanes = data.map Lane.kept := by
  have hholds : (wordOf data (fun _ => true) last : Word N).Holds (data.take N) :=
    wordOf_holds (Nat.le_of_eq h.symm) (Nat.le_refl N) fun k hk => (decide_eq_true hk).symm
  rw [List.take_of_length_le (Nat.le_of_eq h)] at hholds
  exact hholds.full h

theorem lenToKeeps_eq {n k : Nat} (hpos : 0 < n) (hn : n ≤ 64) (hk : k < 64) : lenToKeeps n k = decide (k < n) := by
  unfold lenToKeeps
  rcases Nat.lt_or_eq_of_le hn with hlt | rfl
  · rw [Nat.mod_eq_of_lt hlt, decide_eq_false (by omega), Bool.false_or]
  · rw [decide_eq_true (Nat.mod_self 64), decide_eq_true hk]
    rfl

namespace RxAppMemDataRead

theorem lowBytes_length (s : RxAppMemDataRead N) : (s.lowBytes z).length = s.rxAppMemRdOffset := by
  unfold lowBytes
  split <;> exact assignBytes_length _ _

variable {s : RxAppMemDataRead N}

theorem mergedBytes_length (hoff : s.rxAppMemRdOffset ≤ N) (w : Word N) : (s.mergedBytes z w).length = N := by
  rw [mergedBytes, List.length_append, lowBytes_length, assignBytes_length]
  omega

theorem rangeBytes_front {off : Nat} (hoff : off < 8) (hN : 8 ≤ N) (w : Word N) :
    rangeBytes z w 0 (8 - (off : Int)) = (dataBytes w).take (8 - off) := by
  unfold rangeBytes
  rw [if_pos ⟨Int.le_refl 0, by omega, by omega⟩]
  simp only [Int.toNat_zero, List.drop_zero]
  congr 1
  omega

theorem rangeBytes_bad {off : Nat} (hoff : 8 ≤ off) (w : Word N) : rangeBytes z w 0 (8 - (off : Int)) = z := by
  unfold rangeBytes
  rw [if_neg (by omega)]

theorem rangeBytes_tail {off : Nat} (hpos : 0 < off) (hoff : off < 8) (hN : N = 8) (w : Word N) :
    rangeBytes z w (8 - (off : Int)) N = (dataBytes w).drop (8 - off) := by
  unfold rangeBytes
  rw [if_pos ⟨by omega, by omega, Int.le_refl _⟩, List.take_of_length_le]
  · congr 1
    omega
  · rw [List.length_drop, dataBytes_length]
    omega

/-! ## What is made of the second part -/

/-- Between the words of a second part. -/
def Merging (s : RxAppMemDataRead N) : Prop := s.rxAppState = .RXAPP_JOIN ∨ s.rxAppState = .RXAPP_STREAMMERGED

theorem Merging.call (hs : s.Merging) (w : Word N) (words : List (Word N)) (flags : List Bool) :
    rxAppMemDataRead z s ⟨w :: words, flags⟩ = ((s.merge z w).1, ⟨words, flags⟩, (s.merge z w).2) := by
  rcases hs with hs | hs
  · simp [rxAppMemDataRead, hs]
  · simp [rxAppMemDataRead, hs]

/-- The bytes `x` written for the bytes held back and those of a packet: as many, the first of them as merged with the
first word, and all of them right for words of 8 bytes. -/
structure Merged (outside : List (BitVec 8)) (s : RxAppMemDataRead N) (ws : List (Word N)) (bs x : List (BitVec 8)) : Prop where
  length : x.length = s.rxAppMemRdOffset + bs.length
  front : ∀ w ws', ws = w :: ws' → ∀ k, k ≤ N → k ≤ x.length → x.take k = (s.mergedBytes outside w).take k
  exact : N = 8 → x = s.lowBytes outside ++ bs

theorem mergedBytes_exact (hpos : 0 < s.rxAppMemRdOffset) (hoff : s.rxAppMemRdOffset < N)
    (hN : N = 8) (w : Word N) :
    s.mergedBytes z w = s.lowBytes z ++ (dataBytes w).take (8 - s.rxAppMemRdOffset) := by
  rw [mergedBytes, rangeBytes_front (by omega) (by omega), assignBytes_self]
  rw [List.length_take, dataBytes_length]
  omega

theorem lowBytes_exact (hs : s.rxAppState ≠ .RXAPP_JOIN) (hpos : 0 < s.rxAppMemRdOffset)
    (hoff : s.rxAppMemRdOffset < N) (hN : N = 8) :
    s.lowBytes z = (dataBytes s.rxAppMemRdRxWord).drop (8 - s.rxAppMemRdOffset) := by
  have hlow : s.lowBytes z =
      assignBytes s.rxAppMemRdOffset (rangeBytes z s.rxAppMemRdRxWord (8 - s.rxAppMemRdOffset) N) := by
    unfold lowBytes
    split
    · next hjoin => exact absurd hjoin hs
    · rfl
  rw [hlow, rangeBytes_tail hpos (by omega) hN, assignBytes_self]
  rw [List.length_drop, dataBytes_length]
  omega

theorem merges (hN' : N ≤ 64) (h : Packet ws bs) (hne : ∀ w ∈ ws, w.bytes ≠ []) (rest : List (Word N))
    (flags : List Bool) :
    ∀ {s : RxAppMemDataRead N}, s.Merging → 0 < s.rxAppMemRdOffset → s.rxAppMemRdOffset < N →
      ∃ os t x, Runs (rxAppMemDataRead z) s ⟨ws ++ rest, flags⟩ os t ⟨rest, flags⟩ ∧
        t.rxAppState = .RXAPP_IDLE ∧ Packet os.flatten x ∧ Merged z s ws bs x := by
  induction h with
  | @last w bs hlast hw =>
    intro s hs hpos hoff
    have hbs : 0 < bs.length := by
      rw [← hw.bytes_eq]
      exact List.length_pos_iff.mpr (hne w (List.mem_singleton.mpr rfl))
    have hle := hw.length_le
    have hlen := mergedBytes_length (z := z) (Nat.le_of_lt hoff) w
    have hcall := hs.call (z := z) w rest flags
    simp only [merge, hlast, if_true, hw.keepToLen_eq hbs hN'] at hcall
    by_cases hfit : bs.length + s.rxAppMemRdOffset ≤ N
    · -- all bytes fit into the word
      rw [if_pos hfit] at hcall
      have hholds : (wordOf (s.mergedBytes z w) (lenToKeeps (bs.length + s.rxAppMemRdOffset)) true : Word N).Holds
          ((s.mergedBytes z w).take (bs.length + s.rxAppMemRdOffset)) :=
        wordOf_holds (by omega) hfit fun k hk => lenToKeeps_eq (by omega) (by omega) (by omega)
      refine ⟨_, _, _, .one hcall, rfl, .last rfl hholds, ?_, ?_, ?_⟩
      · rw [List.length_take, hlen]
        omega
      · intro v vs hv k hk hk'
        obtain ⟨rfl, -⟩ := List.cons.inj hv
        rw [List.length_take] at hk'
        rw [List.take_take, Nat.min_eq_left (by omega)]
      · intro h8
        have htake := dataBytes_take hw
        rw [mergedBytes_exact hpos hoff h8, List.take_append, List.take_of_length_le (by rw [lowBytes_length]; omega),
          lowBytes_length, List.take_take, Nat.min_eq_left (by omega), Nat.add_sub_cancel, htake]
    · -- the tail of the word goes into another one
      rw [if_neg hfit] at hcall
      obtain ⟨k, hk⟩ := Nat.exists_eq_add_of_le (show N - s.rxAppMemRdOffset ≤ bs.length by omega)
      have hbuffer : (((bs.length : Int) - (N - s.rxAppMemRdOffset)) % 256).toNat = k := by omega
      rw [hbuffer] at hcall
      generalize ht : ({ s with
        rxAppMemRdRxWord := w, rxAppOffsetBuffer := k, rxAppState := .RXAPP_RESIDUE } : RxAppMemDataRead N) = t at hcall
      have hstate : t.rxAppState = .RXAPP_RESIDUE := ht ▸ rfl
      have hoffset : t.rxAppMemRdOffset = s.rxAppMemRdOffset := ht ▸ rfl
      have hword : t.rxAppMemRdRxWord = w := ht ▸ rfl
      have hresidue : rxAppMemDataRead z t ⟨rest, flags⟩ =
          ({ t with rxAppState := .RXAPP_IDLE }, ⟨rest, flags⟩, [wordOf (t.lowBytes z) (lenToKeeps k) true]) := by
        have hk : t.rxAppOffsetBuffer = k := ht ▸ rfl
        simp [rxAppMemDataRead, hstate, hk]
      have hholds : (wordOf (t.lowBytes z) (lenToKeeps k) true : Word N).Holds ((t.lowBytes z).take k) :=
        wordOf_holds (by rw [lowBytes_length]; omega) (by omega) fun k hk => lenToKeeps_eq (by omega) (by omega) (by omega)
      refine ⟨_, _, _, .call hcall (.one hresidue), rfl, .cons rfl (wordOf_full hlen) (.last rfl hholds), ?_, ?_, ?_⟩
      · rw [List.length_append, List.length_take, lowBytes_length, hlen]
        omega
      · intro v vs hv k hk _
        obtain ⟨rfl, -⟩ := List.cons.inj hv
        rw [List.take_append_of_le_length (by omega)]
      · intro h8
        have hlow := lowBytes_exact (z := z) (s := t) (by rw [hstate]; decide) (by omega) (by omega) h8
        have hdrop : bs = (dataBytes w).take (8 - s.rxAppMemRdOffset) ++
            ((dataBytes w).drop (8 - s.rxAppMemRdOffset)).take k := by
          have hall : 8 - s.rxAppMemRdOffset + k = bs.length := by omega
          rw [← List.take_add, hall, dataBytes_take hw]
        rw [mergedBytes_exact hpos hoff h8, hlow, hword, hoffset, List.append_assoc, ← hdrop]
  | @cons w ws bs bs' hlast hw hmore ih =>
    intro s hs hpos hoff
    have hbytes : dataBytes w = bs := dataBytes_full hw
    have hlenw : bs.length = N := Word.length_full hw
    have hlen := mergedBytes_length (z := z) (Nat.le_of_lt hoff) w
    have hcall := hs.call (z := z) w (ws ++ rest) flags
    simp only [merge, hlast, Bool.false_eq_true, if_false] at hcall
    generalize ht : ({ s with
      rxAppMemRdRxWord := w
      rxAppOffsetBuffer := (((w.keepToLen : Int) - (N - s.rxAppMemRdOffset)) % 256).toNat
      rxAppState := .RXAPP_STREAMMERGED } : RxAppMemDataRead N) = t at hcall
    have hstate : t.rxAppState = .RXAPP_STREAMMERGED := ht ▸ rfl
    have hoffset : t.rxAppMemRdOffset = s.rxAppMemRdOffset := ht ▸ rfl
    have hword : t.rxAppMemRdRxWord = w := ht ▸ rfl
    obtain ⟨os, u, x, hrun, hu, hpacket, hmerged⟩ :=
      ih (fun v hv => hne v (List.mem_cons_of_mem w hv)) (.inr hstate) (hoffset ▸ hpos) (hoffset ▸ hoff)
    refine ⟨_, u, _, .call hcall hrun, hu, .cons rfl (wordOf_full hlen) hpacket, ?_, ?_, ?_⟩
    · rw [List.length_append, hlen, hmerged.length, hoffset, List.length_append]
      omega
    · intro v vs hv k hk _
      obtain ⟨rfl, -⟩ := List.cons.inj hv
      rw [List.take_append_of_le_length (by omega)]
    · intro h8
      have hlow := lowBytes_exact (z := z) (s := t) (by rw [hstate]; decide) (by omega) (by omega) h8
      rw [hmerged.exact h8, mergedBytes_exact hpos hoff h8, hlow, hword, hoffset, hbytes, List.append_assoc,
        ← List.append_assoc (bs.take _), List.take_append_drop]

theorem unmerged (h : Packet ws bs) (rest : List (Word N)) (flags : List Bool) {s : RxAppMemDataRead N}
    (hs : s.rxAppState = .RXAPP_STREAMUNMERGED) :
    ∃ os t, Runs (rxAppMemDataRead z) s ⟨ws ++ rest, flags⟩ os t ⟨rest, flags⟩ ∧ t.rxAppState = .RXAPP_IDLE ∧
      os.flatten = ws := by
  refine Axi.forward (fun words => (⟨words, flags⟩ : RxAppMemDataReadIn N))
    (fun s : RxAppMemDataRead N => s.rxAppState = .RXAPP_STREAMUNMERGED) (fun s => s.rxAppState = .RXAPP_IDLE) ?_ ?_ h rest hs
  · intro s w rest hs hlast
    exact ⟨s, by simp [rxAppMemDataRead, hs, hlast], hs⟩
  · intro s w rest hs hlast
    exact ⟨{ s with rxAppState := .RXAPP_IDLE }, by simp [rxAppMemDataRead, hs, hlast], rfl⟩

/-- The next word is one of a first part; a packet begins with its flag. -/
def Takes (double : Bool) (s : RxAppMemDataRead N) (flags flags' : List Bool) : Prop :=
  s.rxAppState = .RXAPP_IDLE ∧ flags = double :: flags' ∨
    s.rxAppState = .RXAPP_STREAM ∧ s.rxAppDoubleAccessFlag = double ∧ flags = flags'

theorem Takes.call {m : Bool} {flags flags' : List Bool} (h : Takes m s flags flags') (w : Word N)
    (words : List (Word N)) :
    rxAppMemDataRead z s ⟨w :: words, flags⟩ = ((s.firstPart m w).1, ⟨words, flags'⟩, (s.firstPart m w).2) := by
  rcases h with ⟨hs, rfl⟩ | ⟨hs, rfl, rfl⟩
  · simp [rxAppMemDataRead, hs]
  · simp [rxAppMemDataRead, hs]

theorem single (h : Packet ws bs) (rest : List (Word N)) :
    ∀ {s : RxAppMemDataRead N} {flags flags' : List Bool}, Takes false s flags flags' →
      ∃ os t, Runs (rxAppMemDataRead z) s ⟨ws ++ rest, flags⟩ os t ⟨rest, flags'⟩ ∧ t.rxAppState = .RXAPP_IDLE ∧
        os.flatten = ws := by
  induction h with
  | @last w bs hlast _ =>
    intro s flags flags' hs
    have hcall := hs.call (z := z) w rest
    simp only [firstPart, hlast, Bool.and_false, Bool.false_eq_true, if_false, if_true] at hcall
    exact ⟨_, _, .one hcall, rfl, rfl⟩
  | @cons w ws bs bs' hlast _ _ ih =>
    intro s flags flags' hs
    have hcall := hs.call (z := z) w (ws ++ rest)
    simp only [firstPart, hlast, Bool.false_and, Bool.false_eq_true, if_false] at hcall
    have htakes : Takes false { s with
        rxAppDoubleAccessFlag := false, rxAppMemRdRxWord := w, rxAppMemRdOffset := w.keepToLen
        rxAppState := .RXAPP_STREAM } flags' flags' := .inr ⟨rfl, rfl, rfl⟩
    obtain ⟨os, t, hrun, ht, hos⟩ := ih htakes
    exact ⟨_, t, .call hcall hrun, ht, by rw [List.flatten_cons, hos]; rfl⟩

/-- A second part of `n` bytes is joined as it should be to a first one of `r` bytes. -/
def joins (N r n : Nat) : Bool := decide (N = 8) || decide (r % N = 0) || decide (r % N + n ≤ 8)

/-- The bytes `x` written for the second part `bs'`. -/
structure Joined (N : Nat) (outside : List (BitVec 8)) (r : Nat) (bs' x : List (BitVec 8)) : Prop where
  length : x.length = bs'.length
  right : joins N r bs'.length = true → x = bs'
  first : outside = [] → x[0]? = bs'[0]? ∨ x[0]? = some 0
  wrong : outside = [] → joins N r bs'.length = false → 0 ∈ x

theorem Joined.congr {r r' : Nat} {x : List (BitVec 8)} (h : Joined N z r bs' x) (hr : r' % N = r % N) :
    Joined N z r' bs' x := by
  have hjoins : joins N r' bs'.length = joins N r bs'.length := by
    unfold joins
    rw [hr]
  obtain ⟨hlen, hright, hfirst, hwrong⟩ := h
  exact ⟨hlen, hjoins ▸ hright, hfirst, hjoins ▸ hwrong⟩

theorem joined_aligned {r : Nat} (h : r % N = 0) (bs' : List (BitVec 8)) : Joined N z r bs' bs' where
  length := rfl
  right _ := rfl
  first _ := .inl rfl
  wrong _ hjoins := by simp [joins, h] at hjoins

/-- The bytes of a second part behind the bytes `q` held back. -/
theorem joined_merged (hN8 : 8 ≤ N) {q x : List (BitVec 8)} (h : Packet ws bs') (hbs' : 0 < bs'.length) (hq : 0 < q.length)
    (hqN : q.length < N) {s : RxAppMemDataRead N} (hlow : s.lowBytes z = q) (hoff : s.rxAppMemRdOffset = q.length)
    (hm : Merged z s ws bs' x) : ∃ y, x = q ++ y ∧ Joined N z q.length bs' y := by
  obtain ⟨w, ws₁, rfl⟩ := List.exists_cons_of_ne_nil h.ne_nil
  have hlen := hm.length
  rw [hoff] at hlen
  have hmod : q.length % N = q.length := Nat.mod_eq_of_lt hqN
  have hfront {k : Nat} (hk : k ≤ N) (hk' : k ≤ x.length) :
      x.take k = (q ++ assignBytes (N - q.length) (rangeBytes z w 0 (8 - (q.length : Int)))).take k := by
    have htake := hm.front w ws₁ rfl k hk hk'
    rwa [mergedBytes, hlow, hoff] at htake
  have hx : x = q ++ x.drop q.length := by
    have htake := hfront (Nat.le_of_lt hqN) (by omega)
    rw [List.take_left' rfl] at htake
    conv_lhs => rw [← List.take_append_drop q.length x, htake]
  -- the byte at lane `j` behind those held back
  have hget {j : Nat} (hj : q.length + j < N) (hj' : q.length + j < x.length) :
      (x.drop q.length)[j]? = (assignBytes (N - q.length) (rangeBytes z w 0 (8 - (q.length : Int))))[j]? := by
    have htake := congrArg (fun l => l[q.length + j]?) (hfront (Nat.succ_le_of_lt hj) (Nat.succ_le_of_lt hj'))
    rw [List.getElem?_take_of_lt (Nat.lt_succ_self _), List.getElem?_take_of_lt (Nat.lt_succ_self _),
      List.getElem?_append_right (Nat.le_add_right _ _), Nat.add_sub_cancel_left] at htake
    rw [List.getElem?_drop, htake]
  refine ⟨x.drop q.length, hx, ?_, ?_, ?_, ?_⟩
  · rw [List.length_drop]
    omega
  · intro hjoins
    simp only [joins, hmod, Bool.or_eq_true, decide_eq_true_eq] at hjoins
    rcases hjoins with (h8 | hzero) | hfits
    · rw [hm.exact h8, hlow, List.drop_left' rfl]
    · omega
    · apply List.ext_getElem?
      intro j
      by_cases hj : j < bs'.length
      · have hhead := congrArg (fun l => l[j]?) (packet_head h (show j + 1 ≤ N by omega) hj)
        rw [List.getElem?_take_of_lt (Nat.lt_succ_self _), List.getElem?_take_of_lt (Nat.lt_succ_self _)] at hhead
        rw [hget (by omega) (by omega), assignBytes_getElem (by omega), rangeBytes_front (by omega) hN8,
          if_pos (by rw [List.length_take, dataBytes_length]; omega), List.getElem?_take_of_lt (by omega), hhead]
      · have hlong : (x.drop q.length)[j]? = none := List.getElem?_eq_none (by rw [List.length_drop]; omega)
        rw [hlong, List.getElem?_eq_none (by omega)]
  · rintro rfl
    rw [hget (by omega) (by omega), assignBytes_getElem (by omega)]
    by_cases h8 : q.length < 8
    · have hhead := congrArg (fun l => l[0]?) (packet_head h (show 1 ≤ N by omega) hbs')
      rw [List.getElem?_take_of_lt Nat.one_pos, List.getElem?_take_of_lt Nat.one_pos] at hhead
      left
      rw [rangeBytes_front h8 hN8, if_pos (by rw [List.length_take, dataBytes_length]; omega),
        List.getElem?_take_of_lt (by omega), hhead]
    · right
      rw [rangeBytes_bad (by omega)]
      rfl
  · rintro rfl hjoins
    simp only [joins, hmod, Bool.or_eq_false_iff, decide_eq_false_iff_not] at hjoins
    by_cases h8 : q.length < 8
    · refine List.mem_of_getElem? (i := 8 - q.length) ?_
      rw [hget (by omega) (by omega), assignBytes_getElem (by omega), rangeBytes_front h8 hN8,
        if_neg (by rw [List.length_take, dataBytes_length]; omega)]
    · refine List.mem_of_getElem? (i := 0) ?_
      rw [hget (by omega) (by omega), assignBytes_getElem (by omega), rangeBytes_bad (by omega)]
      rfl

/-- The two parts of a packet. -/
theorem double (hN8 : 8 ≤ N) (hN' : N ≤ 64) (h : Packet ws bs) (hne : ∀ w ∈ ws, w.bytes ≠ []) (h' : Packet ws' bs')
    (hne' : ∀ w ∈ ws', w.bytes ≠ []) (hbs' : 0 < bs'.length) (rest : List (Word N)) :
    ∀ {s : RxAppMemDataRead N} {flags flags' : List Bool}, Takes true s flags flags' →
      ∃ os t x, Runs (rxAppMemDataRead z) s ⟨ws ++ (ws' ++ rest), flags⟩ os t ⟨rest, flags'⟩ ∧
        t.rxAppState = .RXAPP_IDLE ∧ Packet os.flatten (bs ++ x) ∧ Joined N z bs.length bs' x := by
  induction h with
  | @last w q hlast hw =>
    intro s flags flags' hs
    have hpos : 0 < q.length := by
      rw [← hw.bytes_eq]
      exact List.length_pos_iff.mpr (hne w (List.mem_singleton.mpr rfl))
    have hle := hw.length_le
    have hcall := hs.call (z := z) w (ws' ++ rest)
    simp only [firstPart, hlast, Bool.and_self, if_true, hw.keepToLen_eq hpos hN'] at hcall
    by_cases hfull : q.length = N
    · -- the first part ends with a full word
      rw [if_pos hfull] at hcall
      obtain ⟨os, t, hrun, ht, hos⟩ := unmerged h' rest flags' (z := z) (s := { s with
        rxAppDoubleAccessFlag := true, rxAppMemRdRxWord := { w with last := false }, rxAppMemRdOffset := q.length
        rxAppState := .RXAPP_STREAMUNMERGED }) rfl
      refine ⟨_, t, bs', .call hcall hrun, ht, ?_, joined_aligned (by rw [hfull, Nat.mod_self]) bs'⟩
      rw [List.flatten_cons, hos]
      exact .cons rfl (hw.full hfull) h'
    · rw [if_neg hfull, if_pos (by omega)] at hcall
      generalize ht : ({ s with
        rxAppDoubleAccessFlag := true, rxAppMemRdRxWord := { w with last := false }, rxAppMemRdOffset := q.length
        rxAppState := .RXAPP_JOIN } : RxAppMemDataRead N) = t at hcall
      have hoff : t.rxAppMemRdOffset = q.length := ht ▸ rfl
      have hlow : t.lowBytes z = q := by
        rw [← ht]
        change assignBytes q.length (rangeBytes z { w with last := false } 0 q.length) = q
        have hrange : rangeBytes z ({ w with last := false } : Word N) 0 q.length = q := by
          unfold rangeBytes
          rw [if_pos ⟨Int.le_refl 0, by omega, by omega⟩, Int.sub_zero, Int.toNat_natCast]
          exact dataBytes_take hw
        rw [hrange, assignBytes_self rfl]
      obtain ⟨os, u, x, hrun, hu, hpacket, hmerged⟩ :=
        merges (z := z) hN' h' hne' rest flags' (s := t) (.inl (ht ▸ rfl)) (by omega) (by omega)
      obtain ⟨y, rfl, hjoined⟩ := joined_merged hN8 h' hbs' hpos (by omega) hlow hoff hmerged
      exact ⟨_, u, y, .call hcall hrun, hu, hpacket, hjoined⟩
  | @cons w ws bs bs₁ hlast hw hmore ih =>
    intro s flags flags' hs
    have hcall := hs.call (z := z) w (ws ++ (ws' ++ rest))
    simp only [firstPart, hlast, Bool.false_and, Bool.false_eq_true, if_false] at hcall
    have htakes : Takes true { s with
        rxAppDoubleAccessFlag := true, rxAppMemRdRxWord := w, rxAppMemRdOffset := w.keepToLen
        rxAppState := .RXAPP_STREAM } flags' flags' := .inr ⟨rfl, rfl, rfl⟩
    obtain ⟨os, t, x, hrun, ht, hpacket, hjoined⟩ := ih (fun v hv => hne v (List.mem_cons_of_mem w hv)) htakes
    have hmod : (bs ++ bs₁).length % N = bs₁.length % N := by
      rw [List.length_append, Word.length_full hw, Nat.add_mod_left]
    refine ⟨_, t, x, .call hcall hrun, ht, ?_, ?_⟩
    · rw [List.flatten_cons, List.append_assoc]
      exact .cons hlast hw hpacket
    · exact hjoined.congr hmod

end RxAppMemDataRead

end FpgaNetworkStack.Toe
