import FpgaNetworkStack.Axi.Keep
import FpgaNetworkStack.Toe.TxAppStreamIf

/-!
# Reading the transmit buffer (`tx_engine.cpp`)

`txEngMemAccessBreakdown` cuts a read command at the end of the buffer, and `read_data_stitching` joins what the memory
returns for its two parts.
-/

namespace FpgaNetworkStack.Toe

open Lib
open Axi (Word Lane Packet Packets Unkept)

variable (b : Build) (N : Nat)

/-! ## `txEngMemAccessBreakdown` -/

structure TxEngMemAccessBreakdown where
  txEngBreakdownState : Bool
  cmd : MmCmd
  lengthFirstAccess : BitVec b.windowBits
  deriving DecidableEq

/-- Static initialisation; what is uninitialised there is zero here. -/
def TxEngMemAccessBreakdown.init : TxEngMemAccessBreakdown b := ⟨false, ⟨0, 0⟩, 0⟩

structure TxEngMemAccessBreakdownOut where
  outputMemAccess : List MmCmd := []
  memAccessBreakdown2txPkgStitcher : List Bool := []

variable {b}

def txEngMemAccessBreakdown (s : TxEngMemAccessBreakdown b) (inputMemAccess : List MmCmd) :
    TxEngMemAccessBreakdown b × List MmCmd × TxEngMemAccessBreakdownOut :=
  match s.txEngBreakdownState with
  | false =>
    match inputMemAccess with
    | [] => (s, [], {})
    | cmd :: rest =>
      if cmd.crosses (b := b) then
        (⟨true, cmd, cmd.lengthFirst⟩, rest,
          { memAccessBreakdown2txPkgStitcher := [true]
            outputMemAccess := [.new cmd.saddr ((cmd.lengthFirst (b := b)).setWidth 16)] })
      else
        ({ s with cmd }, rest, { memAccessBreakdown2txPkgStitcher := [false], outputMemAccess := [cmd] })
  | true =>
    ({ s with txEngBreakdownState := false }, inputMemAccess,
      { outputMemAccess := [.new 0 ((s.cmd.bbt - s.lengthFirstAccess.setWidth 23).setWidth 16)] })

/-! ## `read_data_stitching` -/

inductive StitchState where
  | IDLE | FIRST_PART | STITCH | ATTACH_ALIGNED | RESIDUE
  deriving DecidableEq, Repr

structure ReadDataStitching where
  prevWord : Word N
  pkgNeedsMerge : Bool
  state : StitchState
  offset : Nat
  deriving DecidableEq

/-- Static initialisation; what is uninitialised there is zero here. -/
def ReadDataStitching.init : ReadDataStitching N := ⟨.zero, false, .IDLE, 0⟩

structure ReadDataStitchingIn where
  memAccessBreakdown2readPkgStitcher : List Bool := []
  readDataIn : List (Word N) := []

variable {N}

/-- The first `offset` lanes of `prev`, filled up with those of `curr`. -/
def stitchWords (offset : Nat) (prev curr : Word N) (last : Bool) : Word N where
  lanes := prev.lanes.take offset ++ curr.lanes.take (N - offset)
  last := last
  length_eq := by
    rw [List.length_append, List.length_take, List.length_take, prev.length_eq, curr.length_eq]
    omega

/-- `prev` with the last `offset` lanes of `curr` in front. -/
def keepTail (offset : Nat) (prev curr : Word N) : Word N where
  lanes := curr.lanes.drop (N - offset) ++ prev.lanes.drop offset
  last := prev.last
  length_eq := by
    rw [List.length_append, List.length_drop, List.length_drop, prev.length_eq, curr.length_eq]
    omega

/-- A word of the first memory access: its last word is held back when the second access has bytes for it. -/
def ReadDataStitching.firstPart (pkgNeedsMerge : Bool) (currWord : Word N) : ReadDataStitching N × List (Word N) :=
  let offset := currWord.keepToLen
  if currWord.last then
    if pkgNeedsMerge then
      let currWord := { currWord with last := false }
      if currWord.keepAt (N - 1) = false then (⟨currWord, pkgNeedsMerge, .STITCH, offset⟩, [])
      else (⟨currWord, pkgNeedsMerge, .ATTACH_ALIGNED, offset⟩, [currWord])
    else (⟨currWord, pkgNeedsMerge, .IDLE, offset⟩, [currWord])
  else (⟨currWord, pkgNeedsMerge, .FIRST_PART, offset⟩, [currWord])

def readDataStitching (s : ReadDataStitching N) (i : ReadDataStitchingIn N) :
    ReadDataStitching N × ReadDataStitchingIn N × List (Word N) :=
  match s.state with
  | .IDLE =>
    match i.memAccessBreakdown2readPkgStitcher, i.readDataIn with
    | flag :: flags, word :: words =>
      let (t, out) := ReadDataStitching.firstPart flag word
      (t, ⟨flags, words⟩, out)
    | _, _ => (s, i, [])
  | .FIRST_PART =>
    match i.readDataIn with
    | [] => (s, i, [])
    | word :: words =>
      let (t, out) := ReadDataStitching.firstPart s.pkgNeedsMerge word
      (t, { i with readDataIn := words }, out)
  | .ATTACH_ALIGNED =>
    match i.readDataIn with
    | [] => (s, i, [])
    | word :: words =>
      (if word.last then { s with state := .IDLE } else s, { i with readDataIn := words }, [word])
  | .STITCH =>
    match i.readDataIn with
    | [] => (s, i, [])
    | word :: words =>
      let last := !word.keepAt (N - s.offset)
      ({ s with
          prevWord := keepTail s.offset s.prevWord word
          state := if word.last then (if last then .IDLE else .RESIDUE) else .STITCH },
        { i with readDataIn := words }, [stitchWords s.offset s.prevWord word last])
  | .RESIDUE => ({ s with state := .IDLE }, i, [stitchWords s.offset s.prevWord .zero true])

/-! ## What comes out for the two parts -/

variable {ws ws' : List (Word N)} {bs bs' : List (BitVec 8)}

namespace ReadDataStitching

theorem attach (h : Packet ws bs) (flags : List Bool) (rest : List (Word N)) {s : ReadDataStitching N}
    (hs : s.state = .ATTACH_ALIGNED) :
    ∃ os t, Runs readDataStitching s ⟨flags, ws ++ rest⟩ os t ⟨flags, rest⟩ ∧ t.state = .IDLE ∧ os.flatten = ws := by
  refine Axi.forward (fun words => (⟨flags, words⟩ : ReadDataStitchingIn N))
    (fun s : ReadDataStitching N => s.state = .ATTACH_ALIGNED) (fun s => s.state = .IDLE) ?_ ?_ h rest hs
  · intro s w rest hs hlast
    exact ⟨s, by simp [readDataStitching, hs, hlast], hs⟩
  · intro s w rest hs hlast
    exact ⟨{ s with state := .IDLE }, by simp [readDataStitching, hs, hlast], rfl⟩

/-- The bytes `q` are held back for the next word. -/
structure Holds (q : List (BitVec 8)) (s : ReadDataStitching N) : Prop where
  state : s.state = .STITCH
  offset : s.offset = q.length
  lanes : s.prevWord.lanes.take q.length = q.map Lane.kept

/-- The second part behind bytes that are held back: the induction follows the packet. -/
theorem stitch (h : Packet ws bs) (flags : List Bool) (rest : List (Word N)) :
    ∀ {s : ReadDataStitching N} {q : List (BitVec 8)}, s.Holds q → 0 < q.length → q.length < N →
      ∃ os t, Runs readDataStitching s ⟨flags, ws ++ rest⟩ os t ⟨flags, rest⟩ ∧ t.state = .IDLE ∧
        Packet os.flatten (q ++ bs) := by
  induction h with
  | @last w bs hlast hw =>
    intro s q hs hpos hlt
    have hkeep := hw.keepAt_eq (show N - q.length < N by omega)
    have hcall : readDataStitching s ⟨flags, w :: rest⟩ =
        ({ s with
            prevWord := keepTail s.offset s.prevWord w
            state := if bs.length ≤ N - q.length then .IDLE else .RESIDUE }, ⟨flags, rest⟩,
          [stitchWords q.length s.prevWord w (decide (bs.length ≤ N - q.length))]) := by
      by_cases hfit : bs.length ≤ N - q.length
      · simp [readDataStitching, hs.state, hs.offset, hlast, hkeep, hfit, Nat.not_lt_of_le hfit]
      · simp [readDataStitching, hs.state, hs.offset, hlast, hkeep, hfit, Nat.lt_of_not_le hfit]
    obtain ⟨ls, hlanes, hls⟩ := hw
    by_cases hfit : bs.length ≤ N - q.length
    · -- all bytes fit into the word
      rw [if_pos hfit, decide_eq_true hfit] at hcall
      refine ⟨_, _, .one hcall, rfl, .last rfl ⟨ls.take (N - q.length - bs.length), ?_, hls.take _⟩⟩
      change s.prevWord.lanes.take q.length ++ w.lanes.take (N - q.length) = _
      rw [hs.lanes, hlanes, List.take_append, List.take_of_length_le (by rw [List.length_map]; exact hfit),
        List.length_map, List.map_append, List.append_assoc]
    · -- the tail of the word goes into another one
      rw [if_neg hfit, decide_eq_false hfit] at hcall
      have hresidue : readDataStitching
          { s with prevWord := keepTail s.offset s.prevWord w, state := .RESIDUE } ⟨flags, rest⟩ =
            ({ s with prevWord := keepTail s.offset s.prevWord w, state := .IDLE }, ⟨flags, rest⟩,
              [stitchWords q.length (keepTail s.offset s.prevWord w) .zero true]) := by
        simp [readDataStitching, hs.offset]
      have hfull : (stitchWords q.length s.prevWord w false).lanes = (q ++ bs.take (N - q.length)).map Lane.kept := by
        change s.prevWord.lanes.take q.length ++ w.lanes.take (N - q.length) = _
        rw [hs.lanes, hlanes, List.take_append_of_le_length (by rw [List.length_map]; omega), ← List.map_take,
          List.map_append]
      have hheld : (keepTail s.offset s.prevWord w).lanes.take q.length = w.lanes.drop (N - q.length) := by
        change (w.lanes.drop (N - s.offset) ++ s.prevWord.lanes.drop s.offset).take q.length = _
        rw [hs.offset, List.take_left' (by rw [List.length_drop, w.length_eq]; omega)]
      have htail : (stitchWords q.length (keepTail s.offset s.prevWord w) .zero true).Holds (bs.drop (N - q.length)) := by
        refine ⟨ls ++ (Word.zero : Word N).lanes.take (N - q.length), ?_,
          hls.append ((Axi.unkept_replicate N).take _)⟩
        change (keepTail s.offset s.prevWord w).lanes.take q.length ++ _ = _
        rw [hheld, hlanes, List.drop_append_of_le_length (by rw [List.length_map]; omega), List.map_drop,
          List.append_assoc]
      refine ⟨_, _, .call hcall (.one hresidue), rfl, ?_⟩
      have hpacket := Packet.cons rfl hfull (.last rfl htail)
      rw [List.append_assoc, List.take_append_drop] at hpacket
      exact hpacket
  | @cons w ws bs bs' hlast hw _ ih =>
    intro s q hs hpos hlt
    have hlen : bs.length = N := Word.length_full hw
    have hkeep := (Word.holds_full hw).keepAt_eq (show N - q.length < N by omega)
    rw [decide_eq_true (show N - q.length < bs.length by omega)] at hkeep
    have hcall : readDataStitching s ⟨flags, w :: (ws ++ rest)⟩ =
        ({ s with prevWord := keepTail s.offset s.prevWord w }, ⟨flags, ws ++ rest⟩,
          [stitchWords q.length s.prevWord w false]) := by
      obtain ⟨prevWord, pkgNeedsMerge, state, offset⟩ := s
      obtain rfl : state = .STITCH := hs.state
      obtain rfl : offset = q.length := hs.offset
      simp [readDataStitching, hlast, hkeep]
    have hfull : (stitchWords q.length s.prevWord w false).lanes = (q ++ bs.take (N - q.length)).map Lane.kept := by
      change s.prevWord.lanes.take q.length ++ w.lanes.take (N - q.length) = _
      rw [hs.lanes, hw, ← List.map_take, List.map_append]
    have htail : (bs.drop (N - q.length)).length = q.length := by
      rw [List.length_drop]
      omega
    have hholds : Holds (bs.drop (N - q.length)) { s with prevWord := keepTail s.offset s.prevWord w } := by
      refine ⟨hs.state, hs.offset.trans htail.symm, ?_⟩
      change (w.lanes.drop (N - s.offset) ++ s.prevWord.lanes.drop s.offset).take _ = _
      rw [hs.offset, List.take_left' (by rw [List.length_drop, w.length_eq]; omega), hw, List.map_drop]
    obtain ⟨os, t, hrun, ht, hpacket⟩ := ih hholds (by omega) (by omega)
    refine ⟨_, t, .call hcall hrun, ht, ?_⟩
    have hall := Packet.cons rfl hfull hpacket
    rw [List.append_assoc, ← List.append_assoc (bs.take _), List.take_append_drop] at hall
    exact hall

/-- The next word is one of a first part; a packet begins with its flag. -/
def Takes (pkgNeedsMerge : Bool) (s : ReadDataStitching N) (flags flags' : List Bool) : Prop :=
  s.state = .IDLE ∧ flags = pkgNeedsMerge :: flags' ∨
    s.state = .FIRST_PART ∧ s.pkgNeedsMerge = pkgNeedsMerge ∧ flags = flags'

theorem Takes.call {m : Bool} {s : ReadDataStitching N} {flags flags' : List Bool} (h : Takes m s flags flags') (w : Word N)
    (words : List (Word N)) :
    readDataStitching s ⟨flags, w :: words⟩ = ((firstPart m w).1, ⟨flags', words⟩, (firstPart m w).2) := by
  rcases h with ⟨hs, rfl⟩ | ⟨hs, rfl, rfl⟩
  · simp [readDataStitching, hs]
  · simp [readDataStitching, hs]

theorem single (h : Packet ws bs) (rest : List (Word N)) :
    ∀ {s : ReadDataStitching N} {flags flags' : List Bool}, Takes false s flags flags' →
      ∃ os t, Runs readDataStitching s ⟨flags, ws ++ rest⟩ os t ⟨flags', rest⟩ ∧ t.state = .IDLE ∧ os.flatten = ws := by
  induction h with
  | @last w bs hlast _ =>
    intro s flags flags' hs
    have hcall := hs.call w rest
    simp only [firstPart, hlast, if_true, Bool.false_eq_true, if_false] at hcall
    exact ⟨_, _, .one hcall, rfl, rfl⟩
  | @cons w ws bs bs' hlast _ _ ih =>
    intro s flags flags' hs
    have hcall := hs.call w (ws ++ rest)
    simp only [firstPart, hlast, Bool.false_eq_true, if_false] at hcall
    have htakes : Takes false ⟨w, false, .FIRST_PART, w.keepToLen⟩ flags' flags' := .inr ⟨rfl, rfl, rfl⟩
    obtain ⟨os, t, hrun, ht, hos⟩ := ih htakes
    exact ⟨_, t, .call hcall hrun, ht, by rw [List.flatten_cons, hos]; rfl⟩

theorem double (hN : N ≤ 64) (h : Packet ws bs) (hne : ∀ w ∈ ws, w.bytes ≠ []) (h' : Packet ws' bs')
    (rest : List (Word N)) :
    ∀ {s : ReadDataStitching N} {flags flags' : List Bool}, Takes true s flags flags' →
      ∃ os t, Runs readDataStitching s ⟨flags, ws ++ (ws' ++ rest)⟩ os t ⟨flags', rest⟩ ∧ t.state = .IDLE ∧
        Packet os.flatten (bs ++ bs') := by
  induction h with
  | @last w bs hlast hw =>
    intro s flags flags' hs
    have hpos : 0 < bs.length := by
      rw [← hw.bytes_eq]
      exact List.length_pos_iff.mpr (hne w (List.mem_singleton.mpr rfl))
    have hle := hw.length_le
    have hkeep : ({ w with last := false } : Word N).keepAt (N - 1) = decide (N - 1 < bs.length) :=
      hw.keepAt_eq (by omega)
    have hcall := hs.call w (ws' ++ rest)
    simp only [firstPart, hlast, if_true, hkeep, hw.keepToLen_eq hpos hN] at hcall
    by_cases hfull : bs.length = N
    · -- the first part ends with a full word
      rw [decide_eq_true (by omega)] at hcall
      simp only [Bool.true_eq_false, if_false] at hcall
      obtain ⟨os, t, hrun, ht, hos⟩ := attach h' flags' rest
        (s := ⟨{ w with last := false }, true, .ATTACH_ALIGNED, bs.length⟩) rfl
      refine ⟨_, t, .call hcall hrun, ht, ?_⟩
      rw [List.flatten_cons, hos]
      exact .cons rfl (hw.full hfull) h'
    · rw [decide_eq_false (by omega), if_pos rfl] at hcall
      obtain ⟨ls, hlanes, -⟩ := hw
      have hholds : Holds bs ⟨{ w with last := false }, true, .STITCH, bs.length⟩ := by
        refine ⟨rfl, rfl, ?_⟩
        change w.lanes.take bs.length = _
        rw [hlanes, List.take_left' (by rw [List.length_map])]
      obtain ⟨os, t, hrun, ht, hpacket⟩ := stitch h' flags' rest hholds hpos (by omega)
      exact ⟨_, t, .call hcall hrun, ht, hpacket⟩
  | @cons w ws bs bs₁ hlast hw hmore ih =>
    intro s flags flags' hs
    have hcall := hs.call w (ws ++ (ws' ++ rest))
    simp only [firstPart, hlast, Bool.false_eq_true, if_false] at hcall
    have htakes : Takes true ⟨w, true, .FIRST_PART, w.keepToLen⟩ flags' flags' := .inr ⟨rfl, rfl, rfl⟩
    obtain ⟨os, t, hrun, ht, hpacket⟩ := ih (fun v hv => hne v (List.mem_cons_of_mem w hv)) htakes
    refine ⟨_, t, .call hcall hrun, ht, ?_⟩
    rw [List.flatten_cons, List.append_assoc]
    exact .cons hlast hw hpacket

end ReadDataStitching

end FpgaNetworkStack.Toe
