import FpgaNetworkStack.Toe.BufferItems
import FpgaNetworkStack.Toe.TxBufferRead
import Mathlib.Algebra.Order.BigOperators.Group.List
import Mathlib.Algebra.Order.Group.Nat

/-!
# Reading back from the transmit buffer

The memory answers the commands of `txEngMemAccessBreakdown` one after the other, and `read_data_stitching` makes one packet
for every command of the engine.  The second part of a command that is cut comes from the beginning of the memory, not
from that of the session's buffer.
-/

namespace FpgaNetworkStack.Toe

open Lib
open Axi (Word Lane Packet Packets Unkept)

variable {b : Build} {N : Nat}

/-! ## The commands -/

/-- A read command of at least one byte and at most one buffer. -/
structure ReadCommand (b : Build) where
  cmd : MmCmd
  pos : 0 < cmd.bbt.toNat
  le : cmd.bbt.toNat ≤ b.bufferSize

namespace ReadCommand

variable {c : ReadCommand b}

def crosses (c : ReadCommand b) : Bool := c.cmd.crosses (b := b)

/-- The bytes in front of the end of the buffer. -/
def before (c : ReadCommand b) : Nat := (c.cmd.lengthFirst (b := b)).toNat

def parts (c : ReadCommand b) : List MmCmd :=
  if c.crosses then
    [.new c.cmd.saddr ((c.cmd.lengthFirst (b := b)).setWidth 16),
      .new 0 ((c.cmd.bbt - (c.cmd.lengthFirst (b := b)).setWidth 23).setWidth 16)]
  else [c.cmd]

/-- The lengths of both parts are lengths a command can have. -/
def Short (c : ReadCommand b) : Prop :=
  c.crosses = true → c.before < 2 ^ 16 ∧ c.cmd.bbt.toNat - c.before < 2 ^ 16

theorem before_add (h : c.crosses = true) : c.cmd.saddr.toNat % b.bufferSize + c.before = b.bufferSize :=
  MmCmd.lengthFirst_add h c.le

theorem before_pos (h : c.crosses = true) : 0 < c.before := MmCmd.lengthFirst_pos h c.le

theorem before_lt (h : c.crosses = true) : c.before < c.cmd.bbt.toNat := MmCmd.lengthFirst_lt h c.le

theorem parts_crossing (hx : c.crosses = true) :
    ∃ first second : MmCmd, c.parts = [first, second] ∧ first.saddr = c.cmd.saddr ∧ second.saddr = 0 ∧
      first.bbt.toNat = c.before % 2 ^ 16 ∧ second.bbt.toNat = (c.cmd.bbt.toNat - c.before) % 2 ^ 16 := by
  have hlt := before_lt hx
  have hrange := c.cmd.bbt.isLt
  refine ⟨_, _, if_pos hx, rfl, rfl, ?_, ?_⟩
  · change (((c.cmd.lengthFirst (b := b)).setWidth 16).setWidth 23).toNat = _
    rw [BitVec.toNat_setWidth, BitVec.toNat_setWidth]
    change c.before % 2 ^ 16 % 2 ^ 23 = _
    omega
  · change (((c.cmd.bbt - (c.cmd.lengthFirst (b := b)).setWidth 23).setWidth 16).setWidth 23).toNat = _
    rw [BitVec.toNat_setWidth, BitVec.toNat_setWidth, BitVec.toNat_sub, BitVec.toNat_setWidth]
    change (2 ^ 23 - c.before % 2 ^ 23 + c.cmd.bbt.toNat) % 2 ^ 23 % 2 ^ 16 % 2 ^ 23 = _
    omega

/-- The bytes the commands for the memory count. -/
def counted (c : ReadCommand b) : Nat := (c.parts.map (·.bbt.toNat)).sum

theorem counted_le (c : ReadCommand b) : c.counted ≤ c.cmd.bbt.toNat := by
  unfold counted
  by_cases hx : c.crosses = true
  · obtain ⟨first, second, hparts, -, -, hfirst, hsecond⟩ := parts_crossing hx
    have hlt := before_lt hx
    rw [hparts, List.map_cons, List.map_singleton, List.sum_cons, List.sum_singleton, hfirst, hsecond]
    omega
  · rw [parts, if_neg hx, List.map_singleton, List.sum_singleton]

theorem short_of_counted (h : c.counted = c.cmd.bbt.toNat) : c.Short := by
  intro hx
  obtain ⟨first, second, hparts, -, -, hfirst, hsecond⟩ := parts_crossing hx
  have hlt := before_lt hx
  rw [counted, hparts, List.map_cons, List.map_singleton, List.sum_cons, List.sum_singleton, hfirst, hsecond] at h
  omega

/-- The bytes a memory returns for a command. -/
def readBytes (mem : BitVec 32 → BitVec 8) (cmd : MmCmd) : List (BitVec 8) := cmd.addresses.map mem

/-- The bytes of the session's buffer that are asked for. -/
def ringRead (mem : BitVec 32 → BitVec 8) (c : ReadCommand b) : List (BitVec 8) :=
  (List.range c.cmd.bbt.toNat).map fun i => mem (ringAddress b c.cmd.saddr i)

/-- The session's buffer is the first one of the memory, or the command ends inside the buffer. -/
def inFirst (c : ReadCommand b) : Bool :=
  !c.crosses || decide (c.cmd.saddr.toNat / b.bufferSize = 0) &&
    decide (c.before < 2 ^ 16) && decide (c.cmd.bbt.toNat - c.before < 2 ^ 16)

theorem inFirst_iff : c.inFirst = true ↔ c.Short ∧ (c.crosses = true → c.cmd.saddr.toNat / b.bufferSize = 0) := by
  unfold inFirst Short
  cases c.crosses with
  | false => simp
  | true =>
    simp
    tauto

theorem parts_addresses (hshort : c.Short) (hx : c.crosses = true) :
    c.parts.flatMap MmCmd.addresses =
      ((List.range c.before).map fun k => c.cmd.saddr + BitVec.ofNat 32 k) ++
        (List.range (c.cmd.bbt.toNat - c.before)).map fun k => 0 + BitVec.ofNat 32 k := by
  obtain ⟨first, second, hparts, hsaddr, hsaddr', hfirst, hsecond⟩ := parts_crossing hx
  obtain ⟨hlow, hhigh⟩ := hshort hx
  rw [Nat.mod_eq_of_lt hlow] at hfirst
  rw [Nat.mod_eq_of_lt hhigh] at hsecond
  rw [hparts, List.flatMap_cons, List.flatMap_singleton, MmCmd.addresses, MmCmd.addresses, hfirst, hsecond, hsaddr, hsaddr']

theorem inFirst_addresses (h : c.inFirst = true) :
    c.parts.flatMap MmCmd.addresses = (List.range c.cmd.bbt.toNat).map (ringAddress b c.cmd.saddr) := by
  obtain ⟨hshort, hbase⟩ := inFirst_iff.mp h
  by_cases hx : c.crosses = true
  · have hlt := before_lt hx
    have hle := c.le
    have hsplit := ringAddresses_split c.cmd.saddr (before_add hx) (n := c.cmd.bbt.toNat - c.before) (by omega)
    rw [hbase hx, Nat.zero_mul, Nat.add_sub_cancel' (Nat.le_of_lt hlt)] at hsplit
    rw [parts_addresses hshort hx, ← hsplit]
    rfl
  · rw [parts, if_neg hx, List.flatMap_singleton, ringAddresses_inside hx]

/-- Cut in another buffer, the command reads the first byte of the memory. -/
theorem readBytes_ne (hshort : c.Short) (hx : c.crosses = true) (hbase : c.cmd.saddr.toNat / b.bufferSize ≠ 0) :
    c.parts.flatMap (readBytes fun a => if a = 0 then 1 else 0) ≠ c.ringRead fun a => if a = 0 then 1 else 0 := by
  have hadd := before_add hx
  have hlt := before_lt hx
  intro heq
  have hparts := parts_addresses hshort hx
  have hread : c.parts.flatMap (readBytes fun a => if a = 0 then 1 else 0) =
      (c.parts.flatMap MmCmd.addresses).map fun a => if a = 0 then 1 else 0 := by
    rw [List.map_flatMap]
    rfl
  -- the byte behind the end of the buffer
  have hpos := Nat.mul_le_mul_right b.bufferSize (Nat.one_le_iff_ne_zero.mpr hbase)
  have hle := Nat.div_mul_le_self c.cmd.saddr.toNat b.bufferSize
  have hrange := c.cmd.saddr.isLt
  have hsize := b.bufferSize_pos
  have haddr : ringAddress b c.cmd.saddr c.before ≠ 0 := by
    intro hzero
    have hnat := congrArg BitVec.toNat hzero
    rw [ringAddress, hadd, Nat.mod_self, Nat.add_zero, BitVec.toNat_ofNat, Nat.mod_eq_of_lt (by omega)] at hnat
    change _ = 0 at hnat
    omega
  rw [hread, hparts] at heq
  have hbyte := congrArg (fun l => l[c.before]?) heq
  have hfirst : ((List.range c.before).map fun k => c.cmd.saddr + BitVec.ofNat 32 k).length = c.before := by
    rw [List.length_map, List.length_range]
  dsimp only [ringRead] at hbyte
  rw [List.getElem?_map, List.getElem?_append_right (Nat.le_of_eq hfirst), hfirst, Nat.sub_self, List.getElem?_map,
    List.getElem?_map, List.getElem?_range (by omega), List.getElem?_range hlt] at hbyte
  have hone : (1 : BitVec 8) = if ringAddress b c.cmd.saddr c.before = 0 then 1 else 0 := Option.some.inj hbyte
  rw [if_neg haddr] at hone
  exact absurd hone (by decide)

end ReadCommand

/-! ## The two processes -/

instance : Append (ReadDataStitchingIn N) :=
  ⟨fun i j => ⟨i.memAccessBreakdown2readPkgStitcher ++ j.memAccessBreakdown2readPkgStitcher,
    i.readDataIn ++ j.readDataIn⟩⟩

instance : Std.Associative (α := ReadDataStitchingIn N) (· ++ ·) where
  assoc _ _ _ := congrArg₂ ReadDataStitchingIn.mk (List.append_assoc ..) (List.append_assoc ..)

namespace TxEngMemAccessBreakdown

theorem waits : Waits (txEngMemAccessBreakdown (b := b)) {} := by
  rintro ⟨state, cmd, lengthFirstAccess⟩ cmds
  cases state with
  | true => exact .inr fun x => rfl
  | false => cases cmds with
    | nil => exact .inl rfl
    | cons cmd cmds =>
      right
      intro x
      rw [List.cons_append]
      dsimp only [txEngMemAccessBreakdown]
      split <;> rfl

theorem runs_as (cs : List (ReadCommand b)) :
    ∀ {s : TxEngMemAccessBreakdown b}, s.txEngBreakdownState = false →
      ∃ os t, Rests txEngMemAccessBreakdown {} s (cs.map (·.cmd)) os t [] ∧
        os.flatMap (·.outputMemAccess) = cs.flatMap (·.parts) ∧
        os.flatMap (·.memAccessBreakdown2txPkgStitcher) = cs.map (·.crosses) := by
  induction cs with
  | nil =>
    intro s hs
    exact ⟨[], s, ⟨.refl s _, by simp [txEngMemAccessBreakdown, hs]⟩, rfl, rfl⟩
  | cons c cs ih =>
    intro s hs
    by_cases hx : c.crosses = true
    · have hcut : txEngMemAccessBreakdown s (c.cmd :: cs.map (·.cmd)) =
          (⟨true, c.cmd, c.cmd.lengthFirst⟩, cs.map (·.cmd),
            { memAccessBreakdown2txPkgStitcher := [true]
              outputMemAccess := [.new c.cmd.saddr ((c.cmd.lengthFirst (b := b)).setWidth 16)] }) := by
        simp [txEngMemAccessBreakdown, hs, show c.cmd.crosses (b := b) = true from hx]
      have hsecond : txEngMemAccessBreakdown ⟨true, c.cmd, c.cmd.lengthFirst (b := b)⟩ (cs.map (·.cmd)) =
          (⟨false, c.cmd, c.cmd.lengthFirst⟩, cs.map (·.cmd),
            { outputMemAccess := [.new 0 ((c.cmd.bbt - (c.cmd.lengthFirst (b := b)).setWidth 23).setWidth 16)] }) := rfl
      obtain ⟨os, t, hrest, hcmds, hflags⟩ := ih (s := ⟨false, c.cmd, c.cmd.lengthFirst⟩) rfl
      refine ⟨_, t, ⟨.call hcut (.call hsecond hrest.run), hrest.rest⟩, ?_, ?_⟩
      · rw [List.flatMap_cons, List.flatMap_cons, hcmds, List.flatMap_cons, ReadCommand.parts, if_pos hx]
        rfl
      · rw [List.flatMap_cons, List.flatMap_cons, hflags, List.map_cons, hx]
        rfl
    · have hissue : txEngMemAccessBreakdown s (c.cmd :: cs.map (·.cmd)) =
          ({ s with cmd := c.cmd }, cs.map (·.cmd),
            { memAccessBreakdown2txPkgStitcher := [false], outputMemAccess := [c.cmd] }) := by
        simp [txEngMemAccessBreakdown, hs, show ¬c.cmd.crosses (b := b) = true from hx]
      obtain ⟨os, t, hrest, hcmds, hflags⟩ := ih (s := { s with cmd := c.cmd }) hs
      refine ⟨_, t, ⟨.call hissue hrest.run, hrest.rest⟩, ?_, ?_⟩
      · rw [List.flatMap_cons, hcmds, List.flatMap_cons, ReadCommand.parts, if_neg hx]
      · rw [List.flatMap_cons, hflags, List.map_cons, Bool.eq_false_iff.mpr hx]
        rfl

end TxEngMemAccessBreakdown

/-- The memory answers a command: one packet without words that keep nothing, or nothing for no bytes. -/
def Answer (mem : BitVec 32 → BitVec 8) (cmd : MmCmd) (ws : List (Word N)) : Prop :=
  if cmd.bbt.toNat = 0 then ws = [] else Packet ws (ReadCommand.readBytes mem cmd) ∧ ∀ w ∈ ws, w.bytes ≠ []

theorem exists_answers (hN : 0 < N) (mem : BitVec 32 → BitVec 8) (cmds : List MmCmd) :
    ∃ packets : List (List (Word N)), List.Forall₂ (Answer mem) cmds packets := by
  induction cmds with
  | nil => exact ⟨[], .nil⟩
  | cons cmd cmds ih =>
    obtain ⟨packets, hpackets⟩ := ih
    by_cases hzero : cmd.bbt.toNat = 0
    · exact ⟨[] :: packets, .cons (by rw [Answer, if_pos hzero]) hpackets⟩
    · have hne : ReadCommand.readBytes mem cmd ≠ [] := by
        apply List.ne_nil_of_length_pos
        rw [ReadCommand.readBytes, List.length_map, MmCmd.addresses, List.length_map, List.length_range]
        exact Nat.pos_of_ne_zero hzero
      obtain ⟨ws, hws⟩ := Axi.exists_packet hN hne
      exact ⟨ws :: packets, .cons (by rw [Answer, if_neg hzero]; exact hws) hpackets⟩

namespace ReadDataStitching

theorem waits : Waits (readDataStitching (N := N)) [] := by
  rintro ⟨prevWord, pkgNeedsMerge, state, offset⟩ ⟨flags, words⟩
  cases state with
  | IDLE => cases flags with
    | nil => exact .inl rfl
    | cons flag flags => cases words with
      | nil => exact .inl rfl
      | cons word words => exact .inr fun x => rfl
  | RESIDUE => exact .inr fun x => rfl
  | _ => cases words with
    | nil => exact .inl rfl
    | cons word words => exact .inr fun x => rfl

theorem idle_rests {s : ReadDataStitching N} (hs : s.state = .IDLE) : readDataStitching s {} = (s, {}, []) := by
  simp [readDataStitching, hs]

theorem runs_as (hN : 0 < N) (hN' : N ≤ 64) {mem : BitVec 32 → BitVec 8} (cs : List (ReadCommand b))
    (hshort : ∀ c ∈ cs, c.Short) :
    ∀ {packets : List (List (Word N))} {s : ReadDataStitching N}, s.state = .IDLE →
      List.Forall₂ (Answer mem) (cs.flatMap (·.parts)) packets →
      ∃ os t, Rests readDataStitching [] s ⟨cs.map (·.crosses), packets.flatten⟩ os t {} ∧
        Packets os.flatten (cs.map fun c => c.parts.flatMap (ReadCommand.readBytes mem)) := by
  induction cs with
  | nil =>
    intro packets s hs h
    obtain rfl := List.forall₂_nil_left_iff.mp h
    exact ⟨[], s, ⟨.refl s _, idle_rests hs⟩, .nil⟩
  | cons c cs ih =>
    intro packets s hs h
    obtain ⟨hc, hcs⟩ := List.forall_mem_cons.mp hshort
    rw [List.flatMap_cons] at h
    by_cases hx : c.crosses = true
    · obtain ⟨first, second, hparts, -, -, hfirst, hsecond⟩ := ReadCommand.parts_crossing hx
      have hpos := ReadCommand.before_pos hx
      have hlt := ReadCommand.before_lt hx
      obtain ⟨hlow, hhigh⟩ := hc hx
      rw [hparts] at h
      obtain ⟨ws, packets₁, hws, h₁, rfl⟩ := List.forall₂_cons_left_iff.mp h
      obtain ⟨ws', packets₂, hws', h₂, rfl⟩ := List.forall₂_cons_left_iff.mp h₁
      rw [Answer, if_neg (by omega)] at hws hws'
      have htakes : Takes true s (true :: cs.map (·.crosses)) (cs.map (·.crosses)) := .inl ⟨hs, rfl⟩
      obtain ⟨os, t, hrun, ht, hpacket⟩ := double hN' hws.1 hws.2 hws'.1 packets₂.flatten htakes
      obtain ⟨os', u, hrest, hpackets⟩ := ih hcs ht h₂
      refine ⟨os ++ os', u, ⟨?_, hrest.rest⟩, ?_⟩
      · rw [List.map_cons, hx]
        exact hrun.trans hrest.run
      · rw [List.flatten_append, List.map_cons, hparts, List.flatMap_cons, List.flatMap_singleton]
        exact .cons hpacket hpackets
    · have hparts : c.parts = [c.cmd] := if_neg hx
      rw [hparts] at h
      obtain ⟨ws, packets₁, hws, h₁, rfl⟩ := List.forall₂_cons_left_iff.mp h
      rw [Answer, if_neg (Nat.pos_iff_ne_zero.mp c.pos)] at hws
      have htakes : Takes false s (false :: cs.map (·.crosses)) (cs.map (·.crosses)) := .inl ⟨hs, rfl⟩
      obtain ⟨os, t, hrun, ht, hos⟩ := single hws.1 packets₁.flatten htakes
      obtain ⟨os', u, hrest, hpackets⟩ := ih hcs ht h₁
      refine ⟨os ++ os', u, ⟨?_, hrest.rest⟩, ?_⟩
      · rw [List.map_cons, Bool.eq_false_iff.mpr hx]
        exact hrun.trans hrest.run
      · rw [List.flatten_append, hos, List.map_cons, hparts, List.flatMap_singleton]
        exact .cons hws.1 hpackets

/-! No byte comes out that has not come in. -/

def kept (ls : List Lane) : Nat := (ls.filter (·.keep)).length

theorem kept_append (ls ls' : List Lane) : kept (ls ++ ls') = kept ls + kept ls' := by
  unfold kept
  rw [List.filter_append, List.length_append]

theorem kept_split (ls : List Lane) (k : Nat) : kept (ls.take k) + kept (ls.drop k) = kept ls := by
  rw [← kept_append, List.take_append_drop]

def total (ws : List (Word N)) : Nat := (ws.flatMap Word.bytes).length

theorem total_cons (w : Word N) (ws : List (Word N)) : total (w :: ws) = kept w.lanes + total ws := by
  unfold total kept
  rw [List.flatMap_cons, List.length_append, Word.bytes, List.length_map]

theorem total_append (ws ws' : List (Word N)) : total (ws ++ ws') = total ws + total ws' := by
  unfold total
  rw [List.flatMap_append, List.length_append]

theorem total_one (w : Word N) : total [w] = kept w.lanes := total_cons w []

def heldBytes (s : ReadDataStitching N) : Nat :=
  match s.state with
  | .STITCH | .RESIDUE => kept (s.prevWord.lanes.take s.offset)
  | _ => 0

theorem firstPart_total (m : Bool) (w : Word N) :
    total (firstPart m w).2 + heldBytes (firstPart m w).1 ≤ kept w.lanes := by
  unfold firstPart
  have hsplit := kept_split w.lanes w.keepToLen
  cases w.last with
  | false => exact Nat.le_of_eq (total_one w)
  | true => cases m with
    | false => exact Nat.le_of_eq (total_one w)
    | true =>
      dsimp only
      rw [if_pos rfl, if_pos rfl]
      split
      · change 0 + kept (w.lanes.take w.keepToLen) ≤ _
        omega
      · exact Nat.le_of_eq (total_one _)

theorem kept_stitch (offset : Nat) (prev curr : Word N) (last : Bool) :
    kept (stitchWords offset prev curr last).lanes + kept ((keepTail offset prev curr).lanes.take offset) =
      kept (prev.lanes.take offset) + kept curr.lanes := by
  have hheld : (keepTail offset prev curr).lanes.take offset = curr.lanes.drop (N - offset) := by
    change (curr.lanes.drop (N - offset) ++ prev.lanes.drop offset).take offset = _
    rcases Nat.le_total offset N with hle | hge
    · rw [List.take_left' (by rw [List.length_drop, curr.length_eq]; omega)]
    · rw [List.drop_eq_nil_of_le (Nat.le_trans (Nat.le_of_eq prev.length_eq) hge), List.append_nil,
        List.take_of_length_le (by rw [List.length_drop, curr.length_eq]; omega)]
  rw [hheld, stitchWords, kept_append, Nat.add_assoc, kept_split]

theorem total_call (s : ReadDataStitching N) (i : ReadDataStitchingIn N) :
    total (readDataStitching s i).2.2 + heldBytes (readDataStitching s i).1 + total (readDataStitching s i).2.1.readDataIn ≤
      heldBytes s + total i.readDataIn := by
  obtain ⟨prevWord, m, state, offset⟩ := s
  obtain ⟨flags, words⟩ := i
  have hidle (s : ReadDataStitching N) (i : ReadDataStitchingIn N) :
      total ([] : List (Word N)) + heldBytes s + total i.readDataIn ≤ heldBytes s + total i.readDataIn :=
    Nat.le_of_eq (by rw [show total ([] : List (Word N)) = 0 from rfl, Nat.zero_add])
  cases state with
  | IDLE => cases flags with
    | nil => exact hidle _ _
    | cons flag flags => cases words with
      | nil => exact hidle _ _
      | cons word words =>
        have hfirst := firstPart_total flag word
        change total (firstPart flag word).2 + heldBytes (firstPart flag word).1 + total words ≤ 0 + total (word :: words)
        rw [total_cons]
        omega
  | FIRST_PART => cases words with
    | nil => exact hidle _ _
    | cons word words =>
      have hfirst := firstPart_total m word
      change total (firstPart m word).2 + heldBytes (firstPart m word).1 + total words ≤ 0 + total (word :: words)
      rw [total_cons]
      omega
  | ATTACH_ALIGNED => cases words with
    | nil => exact hidle _ _
    | cons word words =>
      have hheld : heldBytes (if word.last then ⟨prevWord, m, .IDLE, offset⟩ else
          (⟨prevWord, m, .ATTACH_ALIGNED, offset⟩ : ReadDataStitching N)) = 0 := by
        split <;> rfl
      change total [word] + heldBytes (if word.last then ⟨prevWord, m, .IDLE, offset⟩ else
        (⟨prevWord, m, .ATTACH_ALIGNED, offset⟩ : ReadDataStitching N)) + total words ≤ 0 + total (word :: words)
      rw [hheld, total_one, total_cons]
      omega
  | STITCH => cases words with
    | nil => exact hidle _ _
    | cons word words =>
      have hstitch := kept_stitch offset prevWord word (!word.keepAt (N - offset))
      have hheld : heldBytes (readDataStitching ⟨prevWord, m, .STITCH, offset⟩ ⟨flags, word :: words⟩).1 ≤
          kept ((keepTail offset prevWord word).lanes.take offset) := by
        dsimp only [readDataStitching]
        cases word.last with
        | false => exact Nat.le_refl _
        | true => cases word.keepAt (N - offset) with
          | false => exact Nat.zero_le _
          | true => exact Nat.le_refl _
      change total [stitchWords offset prevWord word (!word.keepAt (N - offset))] + heldBytes _ + total words ≤
        kept (prevWord.lanes.take offset) + total (word :: words)
      rw [total_one, total_cons]
      omega
  | RESIDUE =>
    have hzero : kept ((Word.zero : Word N).lanes.take (N - offset)) = 0 := by
      have hunkept : Unkept (Word.zero : Word N).lanes := Axi.unkept_replicate N
      unfold kept
      rw [(hunkept.take _).filter_keep, List.length_nil]
    change total [stitchWords offset prevWord .zero true] + 0 + total words ≤
      kept (prevWord.lanes.take offset) + total words
    rw [total_one, stitchWords, kept_append, hzero]
    omega

theorem total_runs {s t : ReadDataStitching N} {i j : ReadDataStitchingIn N} {os : List (List (Word N))}
    (h : Runs readDataStitching s i os t j) :
    total os.flatten + heldBytes t + total j.readDataIn ≤ heldBytes s + total i.readDataIn := by
  induction h with
  | refl s i => exact Nat.le_of_eq (by rw [List.flatten_nil, show total ([] : List (Word N)) = 0 from rfl, Nat.zero_add])
  | @call o os s t' _ i j' _ hcall _ ih =>
    have hone := total_call s i
    rw [hcall] at hone
    rw [List.flatten_cons, total_append]
    dsimp only at hone
    omega

/-- A word is still to be written. -/
def owed (s : ReadDataStitching N) : Nat :=
  match s.state with
  | .RESIDUE => 1
  | _ => 0

theorem owed_le (s : ReadDataStitching N) : s.owed ≤ 1 := by
  unfold owed
  split <;> decide

theorem exists_rests (s : ReadDataStitching N) (i : ReadDataStitchingIn N) :
    ∃ os t j, Rests readDataStitching [] s i os t j := by
  refine Rests.exists (fun s i => 2 * i.readDataIn.length + s.owed) ?_ s i
  rintro ⟨prevWord, m, state, offset⟩ ⟨flags, words⟩
  -- a word is read
  have hread (words : List (Word N)) (s t : ReadDataStitching N) :
      2 * words.length + s.owed < 2 * (words.length + 1) + t.owed := by
    have hs := owed_le s
    omega
  cases state with
  | IDLE => cases flags with
    | nil => exact .inl rfl
    | cons flag flags => cases words with
      | nil => exact .inl rfl
      | cons word words => exact .inr (hread words _ _)
  | RESIDUE => exact .inr (Nat.lt_succ_self _)
  | FIRST_PART | STITCH | ATTACH_ALIGNED => cases words with
    | nil => exact .inl rfl
    | cons word words => exact .inr (hread words _ _)

end ReadDataStitching

/-! ## What is read back -/

/-- One or two commands inside the session's buffer. -/
def ReadCommand.Inside (c : ReadCommand b) (cmds : List MmCmd) : Prop :=
  (cmds.length = 1 ∨ cmds.length = 2) ∧
    ∀ a ∈ cmds.flatMap MmCmd.addresses, a.toNat / b.bufferSize = c.cmd.saddr.toNat / b.bufferSize

/-- Both processes have come to rest, however their input came in, with any memory that answers the commands. -/
def ReadsBack (N : Nat) (cs : List (ReadCommand b)) : Prop :=
  ∀ (mem : BitVec 32 → BitVec 8) (xs : List (List MmCmd)) (packets : List (List (Word N)))
    (ys : List (ReadDataStitchingIn N)) (os s i os' s' i'),
    xs.foldl (· ++ ·) [] = cs.map (·.cmd) →
    Fed txEngMemAccessBreakdown (.init b) [] xs os s i → txEngMemAccessBreakdown s i = (s, i, {}) →
    List.Forall₂ (Answer mem) (os.flatMap (·.outputMemAccess)) packets →
    ys.foldl (· ++ ·) {} =
      (⟨os.flatMap (·.memAccessBreakdown2txPkgStitcher), packets.flatten⟩ : ReadDataStitchingIn N) →
    Fed readDataStitching (.init N) {} ys os' s' i' → readDataStitching s' i' = (s', i', []) →
    (∃ cmds, List.Forall₂ ReadCommand.Inside cs cmds ∧ os.flatMap (·.outputMemAccess) = cmds.flatten) ∧
      Packets os'.flatten (cs.map (·.ringRead mem))

namespace ReadCommand

variable {c : ReadCommand b}

theorem inside_parts (h : c.inFirst = true) : Inside c c.parts := by
  constructor
  · unfold parts
    split
    · exact .inr rfl
    · exact .inl rfl
  · rw [inFirst_addresses h]
    intro a ha
    obtain ⟨i, -, rfl⟩ := List.mem_map.mp ha
    exact ringAddress_div _ _

theorem readBytes_parts (h : c.inFirst = true) (mem : BitVec 32 → BitVec 8) :
    c.parts.flatMap (readBytes mem) = c.ringRead mem := by
  have hread : c.parts.flatMap (readBytes mem) = (c.parts.flatMap MmCmd.addresses).map mem := by
    rw [List.map_flatMap]
    rfl
  rw [hread, inFirst_addresses h, List.map_map]
  rfl

theorem length_readBytes (mem : BitVec 32 → BitVec 8) (cmd : MmCmd) : (readBytes mem cmd).length = cmd.bbt.toNat := by
  rw [readBytes, List.length_map, MmCmd.addresses, List.length_map, List.length_range]

theorem length_ringRead (mem : BitVec 32 → BitVec 8) (c : ReadCommand b) : (c.ringRead mem).length = c.cmd.bbt.toNat := by
  rw [ringRead, List.length_map, List.length_range]

theorem length_parts (mem : BitVec 32 → BitVec 8) (c : ReadCommand b) :
    (c.parts.flatMap (readBytes mem)).length = c.counted := by
  rw [List.length_flatMap, counted]
  simp only [length_readBytes]

theorem counted_eq (h : c.Short) : c.counted = c.cmd.bbt.toNat := by
  unfold counted
  by_cases hx : c.crosses = true
  · obtain ⟨first, second, hparts, -, -, hfirst, hsecond⟩ := parts_crossing hx
    have hlt := before_lt hx
    obtain ⟨hlow, hhigh⟩ := h hx
    rw [hparts, List.map_cons, List.map_singleton, List.sum_cons, List.sum_singleton, hfirst, hsecond,
      Nat.mod_eq_of_lt hlow, Nat.mod_eq_of_lt hhigh]
    omega
  · rw [parts, if_neg hx, List.map_singleton, List.sum_singleton]

end ReadCommand

variable {cs : List (ReadCommand b)}

theorem reads_back (hN : 0 < N) (hN' : N ≤ 64) (h : ∀ c ∈ cs, c.inFirst = true) :
    ReadsBack N cs := by
  intro mem xs packets ys os s i os' s' i' hxs hfed hend hpackets hys hfed' hend'
  obtain ⟨all, t, hrest, hcmds, hflags⟩ := TxEngMemAccessBreakdown.runs_as cs (s := .init b) rfl
  rw [← hxs] at hrest
  rw [← hfed.at_rest TxEngMemAccessBreakdown.waits hend hrest rfl] at hcmds hflags
  rw [hcmds] at hpackets ⊢
  obtain ⟨all', t', hrest', hout⟩ := ReadDataStitching.runs_as hN hN' cs
    (fun c hc => (ReadCommand.inFirst_iff.mp (h c hc)).1) (s := .init N) rfl hpackets
  rw [← hflags, ← hys] at hrest'
  have hwords : os'.flatten = all'.flatten := by
    rw [← List.flatMap_id, ← List.flatMap_id]
    exact hfed'.at_rest ReadDataStitching.waits hend' hrest' rfl
  refine ⟨⟨cs.map (·.parts), ?_, List.flatMap_def⟩, ?_⟩
  · rw [List.forall₂_map_right_iff]
    exact List.forall₂_same.mpr fun c hc => ReadCommand.inside_parts (h c hc)
  · rw [hwords]
    have hbytes : (cs.map fun c => c.parts.flatMap (ReadCommand.readBytes mem)) = cs.map (·.ringRead mem) :=
      List.map_congr_left fun c hc => ReadCommand.readBytes_parts (h c hc) mem
    rw [← hbytes]
    exact hout

theorem ReadsBack.answered (hN : 0 < N) (h : ReadsBack N cs) (mem : BitVec 32 → BitVec 8) :
    ∃ packets : List (List (Word N)), List.Forall₂ (Answer mem) (cs.flatMap (·.parts)) packets ∧
      ∀ os t j, Rests readDataStitching [] (.init N) ⟨cs.map (·.crosses), packets.flatten⟩ os t j →
        Packets os.flatten (cs.map (·.ringRead mem)) := by
  obtain ⟨all, t, hrest, hcmds, hflags⟩ := TxEngMemAccessBreakdown.runs_as cs (s := .init b) rfl
  obtain ⟨packets, hpackets⟩ := exists_answers hN mem (cs.flatMap (·.parts))
  refine ⟨packets, hpackets, fun os t' j hrest' => ?_⟩
  have hfed : Fed txEngMemAccessBreakdown (.init b) [] [cs.map (·.cmd)] all t [] := Runs.fed hrest.run
  have hfed' : Fed readDataStitching (.init N) {} [⟨cs.map (·.crosses), packets.flatten⟩] os t' j := Runs.fed hrest'.run
  refine (h mem _ packets _ all t [] os t' j rfl hfed hrest.rest ?_ ?_ hfed' hrest'.rest).2
  · rw [hcmds]
    exact hpackets
  · rw [hflags]
    rfl

theorem eq_of_sum_le {α : Type} {f g : α → Nat} {l : List α} (hle : ∀ a ∈ l, f a ≤ g a)
    (hsum : (l.map g).sum ≤ (l.map f).sum) : ∀ a ∈ l, f a = g a := by
  induction l with
  | nil => exact fun a ha => (List.not_mem_nil ha).elim
  | cons a l ih =>
    obtain ⟨ha, hl⟩ := List.forall_mem_cons.mp hle
    have hless : (l.map f).sum ≤ (l.map g).sum := List.sum_le_sum hl
    rw [List.map_cons, List.map_cons, List.sum_cons, List.sum_cons] at hsum
    exact List.forall_mem_cons.mpr ⟨by omega, ih hl (by omega)⟩

theorem eq_of_flatMap {α β : Type} {f g : α → List β} {l : List α} (hlen : ∀ a ∈ l, (f a).length = (g a).length)
    (h : l.flatMap f = l.flatMap g) : ∀ a ∈ l, f a = g a := by
  induction l with
  | nil => exact fun a ha => (List.not_mem_nil ha).elim
  | cons a l ih =>
    obtain ⟨ha, hl⟩ := List.forall_mem_cons.mp hlen
    rw [List.flatMap_cons, List.flatMap_cons] at h
    obtain ⟨hfirst, hrest⟩ := List.append_inj h ha
    exact List.forall_mem_cons.mpr ⟨hfirst, ih hl hrest⟩

theorem total_packets {ws : List (Word N)} {bss : List (List (BitVec 8))} (h : Packets ws bss) :
    ws.flatMap Word.bytes = bss.flatten := by
  induction h with
  | nil => rfl
  | cons h _ ih => rw [List.flatMap_append, h.bytes_eq, ih, List.flatten_cons]

theorem total_answers {mem : BitVec 32 → BitVec 8} {cmds : List MmCmd} {packets : List (List (Word N))}
    (h : List.Forall₂ (Answer mem) cmds packets) :
    ReadDataStitching.total packets.flatten = (cmds.map (·.bbt.toNat)).sum := by
  induction h with
  | nil => rfl
  | @cons cmd ws cmds packets hws _ ih =>
    rw [List.flatten_cons, ReadDataStitching.total_append, ih, List.map_cons, List.sum_cons]
    congr 1
    unfold Answer at hws
    split at hws
    · next hzero =>
        rw [hws, hzero]
        rfl
    · rw [ReadDataStitching.total, hws.1.bytes_eq, ReadCommand.length_readBytes]

theorem ReadsBack.short (hN : 0 < N) (h : ReadsBack N cs) : ∀ c ∈ cs, c.Short := by
  obtain ⟨packets, hpackets, hout⟩ := h.answered hN fun _ => 0
  obtain ⟨os, t, j, hrest⟩ := ReadDataStitching.exists_rests (.init N) ⟨cs.map (·.crosses), packets.flatten⟩
  have hbytes := ReadDataStitching.total_runs hrest.run
  have hread : ReadDataStitching.total os.flatten = (cs.map (·.cmd.bbt.toNat)).sum := by
    rw [ReadDataStitching.total, total_packets (hout os t j hrest), ← List.flatMap_def, List.length_flatMap]
    simp only [ReadCommand.length_ringRead]
  have hcounted : (cs.map ReadCommand.counted).sum = ((cs.flatMap (·.parts)).map (·.bbt.toNat)).sum := by
    rw [List.map_flatMap, List.flatMap_def, List.sum_flatten, List.map_map]
    rfl
  have hstart : (ReadDataStitching.init N).heldBytes = 0 := rfl
  dsimp only at hbytes
  rw [hread, hstart, total_answers hpackets, ← hcounted] at hbytes
  intro c hc
  exact ReadCommand.short_of_counted (eq_of_sum_le (fun c _ => c.counted_le) (by omega) c hc)

theorem ReadsBack.base (hN : 0 < N) (hN' : N ≤ 64) (h : ReadsBack N cs) :
    ∀ c ∈ cs, c.crosses = true → c.cmd.saddr.toNat / b.bufferSize = 0 := by
  have hshort := h.short hN
  obtain ⟨packets, hpackets, hout⟩ := h.answered hN fun a => if a = 0 then 1 else 0
  obtain ⟨os, t, hrest, hwords⟩ := ReadDataStitching.runs_as hN hN' cs hshort (s := .init N) rfl hpackets
  have hbytes := (total_packets hwords).symm.trans (total_packets (hout os t {} hrest))
  rw [← List.flatMap_def, ← List.flatMap_def] at hbytes
  intro c hc hx
  by_contra hbase
  refine ReadCommand.readBytes_ne (hshort c hc) hx hbase (eq_of_flatMap (fun c hc => ?_) hbytes c hc)
  rw [ReadCommand.length_parts, ReadCommand.counted_eq (hshort c hc), ReadCommand.length_ringRead]

/-- What is read back is what is in the session's buffer, where the commands that are cut are those of the first buffer. -/
theorem reads_back_iff (hN : N = 8 ∨ N = 16 ∨ N = 32 ∨ N = 64) (cs : List (ReadCommand b)) :
    ReadsBack N cs ↔ ∀ c ∈ cs, c.inFirst = true := by
  constructor
  · intro h c hc
    exact ReadCommand.inFirst_iff.mpr ⟨h.short (by omega) c hc, h.base (by omega) (by omega) c hc⟩
  · exact reads_back (by omega) (by omega)

/-- A command that is cut in the first buffer, and one inside the second. -/
def firstBuffer : List (ReadCommand .sample) :=
  [⟨⟨5, 262141⟩, by decide, by decide⟩, ⟨⟨1460, 300000⟩, by decide, by decide⟩]

theorem reads_back_firstBuffer : ReadsBack 8 firstBuffer := by
  refine (reads_back_iff (.inl rfl) firstBuffer).mpr ?_
  decide

/-- Five bytes at the end of the second buffer. -/
def secondBuffer : ReadCommand .sample := ⟨⟨5, 524285⟩, by decide, by decide⟩

-- The last two bytes come from the first buffer.
theorem read_from_other_buffer :
    secondBuffer.parts.map (·.saddr) = [524285, 0] ∧ ¬ReadsBack 8 [secondBuffer] := by
  refine ⟨by decide, fun h => ?_⟩
  have hbase := h.base (by decide) (by decide) secondBuffer (List.mem_singleton.mpr rfl) (by decide)
  exact absurd hbase (by decide)

end FpgaNetworkStack.Toe
