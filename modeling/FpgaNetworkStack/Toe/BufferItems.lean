import FpgaNetworkStack.Toe.BufferWrite
import Mathlib.Data.List.Forall2

/-!
# Commands and packets for the ring buffers

A write command comes with one packet of its length.  What `tasi_pkg_pusher` makes of it: one command and one packet, or
two of each where the buffer ends inside the packet.
-/

namespace FpgaNetworkStack.Toe

open Lib
open Axi (Word Lane Packet)

variable {b : Build} {W : Nat}

/-! ## Commands and their packets -/

namespace MmCmd

variable {cmd : MmCmd}

theorem low_toNat : (cmd.saddr.setWidth b.windowBits).toNat = cmd.saddr.toNat % b.bufferSize := BitVec.toNat_setWidth _ _

theorem crosses_iff : cmd.crosses (b := b) = true ↔ b.bufferSize < cmd.saddr.toNat % b.bufferSize + cmd.bbt.toNat := by
  unfold crosses
  rw [decide_eq_true_iff, low_toNat]

theorem lengthFirst_eq (h : 0 < cmd.saddr.toNat % b.bufferSize) :
    (cmd.lengthFirst (b := b)).toNat = b.bufferSize - cmd.saddr.toNat % b.bufferSize := by
  have hlow := Nat.mod_lt cmd.saddr.toNat b.bufferSize_pos
  unfold lengthFirst
  rw [BitVec.toNat_sub, BitVec.toNat_ofNat, low_toNat]
  change (b.bufferSize - cmd.saddr.toNat % b.bufferSize + b.bufferSize % b.bufferSize) % b.bufferSize = _
  rw [Nat.mod_self, Nat.add_zero]
  exact Nat.mod_eq_of_lt (by omega)

theorem lengthFirst_add (hx : cmd.crosses (b := b) = true) (hle : cmd.bbt.toNat ≤ b.bufferSize) :
    cmd.saddr.toNat % b.bufferSize + (cmd.lengthFirst (b := b)).toNat = b.bufferSize := by
  have hx := crosses_iff.mp hx
  have hlow := Nat.mod_lt cmd.saddr.toNat b.bufferSize_pos
  rw [lengthFirst_eq (by omega)]
  omega

theorem lengthFirst_pos (hx : cmd.crosses (b := b) = true) (hle : cmd.bbt.toNat ≤ b.bufferSize) :
    0 < (cmd.lengthFirst (b := b)).toNat := by
  have hadd := lengthFirst_add hx hle
  have hlow := Nat.mod_lt cmd.saddr.toNat b.bufferSize_pos
  omega

theorem lengthFirst_lt (hx : cmd.crosses (b := b) = true) (hle : cmd.bbt.toNat ≤ b.bufferSize) :
    (cmd.lengthFirst (b := b)).toNat < cmd.bbt.toNat := by
  have hadd := lengthFirst_add hx hle
  have hx := crosses_iff.mp hx
  omega

theorem second_saddr_toNat (n : BitVec b.windowBits) :
    (cmd.second n).saddr = BitVec.ofNat 32 (cmd.saddr.toNat / b.bufferSize * b.bufferSize) := by
  apply BitVec.eq_of_toNat_eq
  have hlow : ((cmd.saddr.setWidth b.windowBits).setWidth 32).toNat = cmd.saddr.toNat % b.bufferSize := by
    rw [BitVec.toNat_setWidth, low_toNat, Nat.mod_eq_of_lt]
    exact Nat.lt_of_le_of_lt (Nat.mod_le _ _) cmd.saddr.isLt
  have hdiv : cmd.saddr.toNat / b.bufferSize * b.bufferSize = cmd.saddr.toNat - cmd.saddr.toNat % b.bufferSize := by
    have h := Nat.div_add_mod' cmd.saddr.toNat b.bufferSize
    omega
  have hle : cmd.saddr.toNat % b.bufferSize ≤ cmd.saddr.toNat := Nat.mod_le _ _
  change (cmd.saddr - (cmd.saddr.setWidth b.windowBits).setWidth 32).toNat = _
  rw [BitVec.toNat_sub_of_le (by rw [BitVec.le_def, hlow]; exact hle), hlow, hdiv, BitVec.toNat_ofNat,
    Nat.mod_eq_of_lt (Nat.lt_of_le_of_lt (Nat.sub_le _ _) cmd.saddr.isLt)]

end MmCmd

/-- Position `i` behind `addr` in the ring buffer that `addr` belongs to. -/
def ringAddress (b : Build) (addr : BitVec 32) (i : Nat) : BitVec 32 :=
  BitVec.ofNat 32 (addr.toNat / b.bufferSize * b.bufferSize + (addr.toNat % b.bufferSize + i) % b.bufferSize)

theorem ringAddress_before (addr : BitVec 32) {i : Nat} (h : addr.toNat % b.bufferSize + i < b.bufferSize) :
    addr + BitVec.ofNat 32 i = ringAddress b addr i := by
  unfold ringAddress
  rw [Nat.mod_eq_of_lt h, ← Nat.add_assoc, Nat.div_add_mod', BitVec.ofNat_add, BitVec.ofNat_toNat, BitVec.setWidth_eq]

theorem ringAddress_behind {addr : BitVec 32} {i j : Nat} (h : addr.toNat % b.bufferSize + i = b.bufferSize + j)
    (hj : j < b.bufferSize) :
    BitVec.ofNat 32 (addr.toNat / b.bufferSize * b.bufferSize) + BitVec.ofNat 32 j = ringAddress b addr i := by
  unfold ringAddress
  rw [h, Nat.add_mod_left, Nat.mod_eq_of_lt hj, BitVec.ofNat_add]

theorem ringAddress_div (addr : BitVec 32) (i : Nat) :
    (ringAddress b addr i).toNat / b.bufferSize = addr.toNat / b.bufferSize := by
  have hpos := b.bufferSize_pos
  obtain ⟨k, hk⟩ := b.bufferSize_dvd
  have hlow := Nat.mod_lt (addr.toNat % b.bufferSize + i) hpos
  have hdiv : addr.toNat / b.bufferSize < k := Nat.div_lt_of_lt_mul (hk ▸ addr.isLt)
  have hroom := Nat.mul_le_mul_right b.bufferSize (Nat.succ_le_of_lt hdiv)
  rw [Nat.succ_mul, Nat.mul_comm k, ← hk] at hroom
  unfold ringAddress
  rw [BitVec.toNat_ofNat, Nat.mod_eq_of_lt (by omega), Nat.add_comm, Nat.add_mul_div_right _ _ hpos,
    Nat.div_eq_of_lt hlow, Nat.zero_add]

theorem ringAddresses_split (addr : BitVec 32) {r n : Nat} (h : addr.toNat % b.bufferSize + r = b.bufferSize)
    (hn : r + n ≤ b.bufferSize) :
    ((List.range r).map fun k => addr + BitVec.ofNat 32 k) ++
        ((List.range n).map fun k => BitVec.ofNat 32 (addr.toNat / b.bufferSize * b.bufferSize) + BitVec.ofNat 32 k) =
      (List.range (r + n)).map (ringAddress b addr) := by
  have hpos := b.bufferSize_pos
  have hlow := Nat.mod_lt addr.toNat hpos
  rw [List.range_add, List.map_append, List.map_map]
  congr 1
  · apply List.map_congr_left
    intro k hk
    rw [List.mem_range] at hk
    exact ringAddress_before addr (by omega)
  · apply List.map_congr_left
    intro k hk
    rw [List.mem_range] at hk
    exact ringAddress_behind (i := r + k) (by omega) (by omega)

theorem ringAddresses_inside {cmd : MmCmd} (hx : ¬cmd.crosses (b := b) = true) :
    cmd.addresses = (List.range cmd.bbt.toNat).map (ringAddress b cmd.saddr) := by
  rw [MmCmd.crosses_iff] at hx
  apply List.map_congr_left
  intro k hk
  rw [List.mem_range] at hk
  exact ringAddress_before cmd.saddr (by omega)

/-- A write command with the packet of its bytes. -/
structure BufferItem (b : Build) (W : Nat) where
  cmd : MmCmd
  words : List (AxiWord W)
  bytes : List (BitVec 8)
  carries : Carries words bytes
  length_eq : cmd.bbt.toNat = bytes.length
  pos : 0 < bytes.length
  le : bytes.length ≤ b.bufferSize

namespace BufferItem

def crosses (it : BufferItem b W) : Bool := it.cmd.crosses (b := b)

/-- The bytes in front of the end of the buffer. -/
def before (it : BufferItem b W) : Nat := (it.cmd.lengthFirst (b := b)).toNat

/-- The commands with the bytes that are written for each of them. -/
def parts (it : BufferItem b W) : List (MmCmd × List (BitVec 8)) :=
  if it.crosses then
    [(.new it.cmd.saddr ((it.cmd.lengthFirst (b := b)).setWidth 16), it.bytes.take it.before),
      (it.cmd.second (it.cmd.lengthFirst (b := b)), it.bytes.drop it.before)]
  else [(it.cmd, it.bytes)]

/-- No word is needed for the tail of the last one. -/
def fits (it : BufferItem b W) : Bool :=
  !it.crosses || decide (it.before % W = 0) || decide (lastBytes it.words ≤ it.before % W)

variable {it : BufferItem b W}

theorem bbt_le (it : BufferItem b W) : it.cmd.bbt.toNat ≤ b.bufferSize := it.length_eq ▸ it.le

theorem before_eq (h : it.crosses = true) : it.cmd.saddr.toNat % b.bufferSize + it.before = b.bufferSize :=
  MmCmd.lengthFirst_add h it.bbt_le

theorem before_pos (h : it.crosses = true) : 0 < it.before := MmCmd.lengthFirst_pos h it.bbt_le

theorem before_lt (h : it.crosses = true) : it.before < it.bytes.length :=
  it.length_eq ▸ MmCmd.lengthFirst_lt h it.bbt_le

theorem parts_fst : it.parts.map Prod.fst = it.cmd.parts b := by
  unfold parts MmCmd.parts crosses
  split <;> rfl

theorem parts_length : it.parts.length = if it.crosses then 2 else 1 := by
  unfold parts
  split <;> rfl

/-- The first part has a length that a command can have. -/
def Short (it : BufferItem b W) : Prop := it.crosses = true → it.before < 2 ^ 16

theorem parts_length_eq (h : it.Short) : ∀ p ∈ it.parts, p.1.bbt.toNat = p.2.length := by
  have hlen := it.length_eq
  unfold parts
  split
  · next hx =>
      have hlt := before_lt hx
      have hshort := h hx
      have hrange := it.cmd.bbt.isLt
      intro p hp
      rcases List.mem_pair.mp hp with rfl | rfl
      · change (((it.cmd.lengthFirst (b := b)).setWidth 16).setWidth 23).toNat = _
        rw [BitVec.toNat_setWidth, BitVec.toNat_setWidth, List.length_take]
        change it.before % _ % _ = _
        omega
      · change (it.cmd.bbt - (it.cmd.lengthFirst (b := b)).setWidth 23).toNat = _
        rw [BitVec.toNat_sub, BitVec.toNat_setWidth, List.length_drop, hlen]
        change (2 ^ 23 - it.before % _ + _) % _ = _
        omega
  · intro p hp
    rw [List.mem_singleton.mp hp]
    exact hlen

/-! ## Where the bytes go -/

/-- What a command and its packet write: addresses and bytes. -/
def stores (p : MmCmd × List (BitVec 8)) : List (BitVec 32 × BitVec 8) := p.1.addresses.zip p.2

/-- The bytes of the packet from its address on, wrapping at the end of the buffer. -/
def ringStores (it : BufferItem b W) : List (BitVec 32 × BitVec 8) :=
  ((List.range it.bytes.length).map (ringAddress b it.cmd.saddr)).zip it.bytes

theorem parts_stores (h : it.Short) : it.parts.flatMap stores = it.ringStores := by
  have hlens := parts_length_eq h
  have hle := it.le
  unfold ringStores
  unfold parts at hlens ⊢
  split
  · next hx =>
      rw [if_pos hx] at hlens
      have hlt := before_lt hx
      have hb := before_eq hx
      have hfirst := hlens _ (List.mem_cons_self ..)
      have hsecond := hlens _ (List.mem_cons_of_mem _ (List.mem_cons_self ..))
      dsimp only at hfirst hsecond
      rw [List.length_take, Nat.min_eq_left (Nat.le_of_lt hlt)] at hfirst
      rw [List.length_drop] at hsecond
      have htake : (it.bytes.take it.before).length = it.before := by
        rw [List.length_take, Nat.min_eq_left (Nat.le_of_lt hlt)]
      rw [List.flatMap_cons, List.flatMap_singleton, stores, stores, MmCmd.addresses, MmCmd.addresses, hfirst, hsecond,
        ← List.zip_append (by rw [List.length_map, List.length_range, htake]), List.take_append_drop,
        MmCmd.second_saddr_toNat]
      congr 1
      refine (ringAddresses_split it.cmd.saddr hb (by omega)).trans ?_
      rw [Nat.add_sub_cancel' (Nat.le_of_lt hlt)]
  · next hx =>
      rw [List.flatMap_singleton, stores, ringAddresses_inside hx, it.length_eq]

/-! ## What the pusher makes of an item -/

end BufferItem

/-- What the pusher makes of an item: the words, all of them but the residue, and the word it is cut from. -/
structure Made (b : Build) (W : Nat) where
  item : BufferItem b W
  out : List (AxiWord W)
  res : Option (AxiWord W)
  packets : ∃ ps, out ++ res.toList.map (residueWord (item.before % W) ⟨0, 0, false⟩) = ps.flatten ∧
    List.Forall₂ Carries ps (item.parts.map Prod.snd)
  fits : res = none ↔ item.fits = true
  run (ahead : List MmCmd) (rest : List (AxiWord W)) (e : Nat → AxiWord W) (s : TasiPkgPusher b W)
    (hs : s.tasiPkgPushState = .IDLE) :
    ∃ os t, Runs TasiPkgPusher.pushing (s, e) ⟨item.cmd :: ahead, item.words ++ rest⟩ os
        (t, TasiPkgPusher.later e res) ⟨ahead, rest⟩ ∧ t.tasiPkgPushState = .IDLE ∧
      os.flatMap (·.txBufferWriteCmd) = item.cmd.parts b ∧
      os.flatMap (·.txBufferWriteData) = out ++ res.toList.map (residueWord (item.before % W) (e 0))

namespace BufferItem

theorem made (hpos : 0 < W) (hW : W ≤ 64) (it : BufferItem b W) : ∃ m : Made b W, m.item = it := by
  -- the command is read
  have hread (ahead : List MmCmd) (rest : List (AxiWord W)) (e : Nat → AxiWord W) (s : TasiPkgPusher b W)
      (hs : s.tasiPkgPushState = .IDLE) :
      TasiPkgPusher.pushing (s, e) ⟨it.cmd :: ahead, it.words ++ rest⟩ =
        (({ s with tasiPkgPushState := .IMPROVE_TIMING, cmd := it.cmd }, e), ⟨ahead, it.words ++ rest⟩, {}) := by
    apply TasiPkgPusher.pushing_eq
    · simp [hs]
    · simp [tasiPkgPusher, hs]
  by_cases hx : it.crosses = true
  · obtain ⟨first, second, res, hfirst, hsecond, hres, hmakes⟩ :=
      TasiPkgPusher.cut (b := b) hpos hW it.carries (before_pos hx) (before_lt hx)
    refine ⟨⟨it, first ++ second, res, ?_, ?_, ?_⟩, rfl⟩
    · refine ⟨[first, second ++ res.toList.map (residueWord (it.before % W) ⟨0, 0, false⟩)], ?_, ?_⟩
      · rw [List.flatten_cons, List.flatten_cons, List.flatten_nil, List.append_nil, List.append_assoc]
      · rw [parts, if_pos hx]
        exact .cons hfirst (.cons (hsecond.carries (Nat.le_of_lt (Nat.mod_lt _ hpos))) .nil)
    · rw [hres]
      simp [fits, hx]
    · intro ahead rest e s hs
      have hissue : TasiPkgPusher.pushing ({ s with tasiPkgPushState := .IMPROVE_TIMING, cmd := it.cmd }, e)
          ⟨ahead, it.words ++ rest⟩ =
            (({ s with
                tasiPkgPushState := .CUT_FIRST, cmd := it.cmd, lengthFirstPkg := it.cmd.lengthFirst
                remainingLength := it.cmd.lengthFirst, offset := it.before % W }, e), ⟨ahead, it.words ++ rest⟩,
              { txBufferWriteCmd := [.new it.cmd.saddr ((it.cmd.lengthFirst (b := b)).setWidth 16)] }) := by
        apply TasiPkgPusher.pushing_eq
        · simp
        · simp [tasiPkgPusher, show it.cmd.crosses (b := b) = true from hx, before]
      obtain ⟨os, t, hrun, ht, hcmds, hdata⟩ := hmakes ahead rest e
        { s with
          tasiPkgPushState := .CUT_FIRST, cmd := it.cmd, lengthFirstPkg := it.cmd.lengthFirst
          remainingLength := it.cmd.lengthFirst, offset := it.before % W } ⟨rfl, rfl, rfl⟩
      refine ⟨_, t, .call (hread ahead rest e s hs) (.call hissue hrun), ht, ?_, ?_⟩
      · rw [List.flatMap_cons, List.flatMap_cons, hcmds, ← parts_fst, parts, if_pos hx]
        rfl
      · rw [List.flatMap_cons, List.flatMap_cons, hdata]
        rfl
  · refine ⟨⟨it, it.words, none, ⟨[it.words], ?_, ?_⟩, ?_, ?_⟩, rfl⟩
    · rw [Option.toList_none, List.map_nil, List.append_nil, List.flatten_cons, List.flatten_nil, List.append_nil]
    · rw [parts, if_neg hx]
      exact .cons it.carries .nil
    · exact iff_of_true rfl (by simp [fits, hx])
    · intro ahead rest e s hs
      have hissue : TasiPkgPusher.pushing ({ s with tasiPkgPushState := .IMPROVE_TIMING, cmd := it.cmd }, e)
          ⟨ahead, it.words ++ rest⟩ =
            (({ s with tasiPkgPushState := .FWD_ALIGNED, cmd := it.cmd }, e), ⟨ahead, it.words ++ rest⟩,
              { txBufferWriteCmd := [it.cmd] }) := by
        apply TasiPkgPusher.pushing_eq
        · simp
        · simp [tasiPkgPusher, show ¬it.cmd.crosses (b := b) = true from hx]
      have hforward : TasiPkgPusher.Makes (b := b) _ it.words _ it.words (it.before % W) none :=
        TasiPkgPusher.forward it.carries
      obtain ⟨os, t, hrun, ht, hcmds, hdata⟩ := hforward ahead rest e
        { s with tasiPkgPushState := .FWD_ALIGNED, cmd := it.cmd } rfl
      refine ⟨_, t, .call (hread ahead rest e s hs) (.call hissue hrun), ht, ?_, ?_⟩
      · rw [List.flatMap_cons, List.flatMap_cons, hcmds, ← parts_fst, parts, if_neg hx]
        rfl
      · rw [List.flatMap_cons, List.flatMap_cons, hdata]
        rfl

end BufferItem

namespace Made

/-- The words written for an item, when `emptyWord` is found where the residue is filled up. -/
def data (m : Made b W) (emptyWord : AxiWord W) : List (AxiWord W) :=
  m.out ++ m.res.toList.map (residueWord (m.item.before % W) emptyWord)

/-- The words written for items one after the other. -/
def dataOf : List (Made b W) → (Nat → AxiWord W) → List (AxiWord W)
  | [], _ => []
  | m :: ms, e => m.data (e 0) ++ dataOf ms (TasiPkgPusher.later e m.res)

theorem dataOf_const (ms : List (Made b W)) (emptyWord : AxiWord W) :
    dataOf ms (fun _ => emptyWord) = ms.flatMap (·.data emptyWord) := by
  induction ms with
  | nil => rfl
  | cons m ms ih =>
    have hlater : TasiPkgPusher.later (fun _ => emptyWord) m.res = fun _ => emptyWord := ite_self _
    rw [dataOf, hlater, ih, List.flatMap_cons]

theorem dataOf_fits {ms : List (Made b W)} (h : ∀ m ∈ ms, m.item.fits = true) (e : Nat → AxiWord W)
    (emptyWord : AxiWord W) : dataOf ms e = ms.flatMap (·.data emptyWord) := by
  induction ms generalizing e with
  | nil => rfl
  | cons m ms ih =>
    obtain ⟨hm, hms⟩ := List.forall_mem_cons.mp h
    rw [dataOf, ih hms, List.flatMap_cons, data, data, m.fits.mpr hm]
    rfl

theorem packets_flatMap (ms : List (Made b W)) :
    ∃ ps, ms.flatMap (·.data ⟨0, 0, false⟩) = ps.flatten ∧
      List.Forall₂ Carries ps ((ms.flatMap (·.item.parts)).map Prod.snd) := by
  induction ms with
  | nil => exact ⟨[], rfl, .nil⟩
  | cons m ms ih =>
    obtain ⟨ps, hps, hcarries⟩ := ih
    obtain ⟨qs, hqs, hcarries'⟩ := m.packets
    refine ⟨qs ++ ps, ?_, ?_⟩
    · rw [List.flatMap_cons, hps, data, hqs, List.flatten_append]
    · rw [List.flatMap_cons, List.map_append]
      exact List.rel_append hcarries' hcarries

end Made

/-! ## All items -/

namespace TasiPkgPusher

def inputs (its : List (BufferItem b W)) : TasiPkgPusherIn W := ⟨its.map (·.cmd), its.flatMap (·.words)⟩

theorem idle_rests {t : TasiPkgPusher b W} (ht : t.tasiPkgPushState = .IDLE) (e : Nat → AxiWord W) :
    pushing (t, e) {} = ((t, e), {}, {}) := by
  apply pushing_eq
  · simp [ht]
  · simp [tasiPkgPusher, ht]

/-- What comes out for items: the words of `ms`. -/
def RunsAs (ms : List (Made b W)) : Prop :=
  ∀ (e : Nat → AxiWord W) (s : TasiPkgPusher b W), s.tasiPkgPushState = .IDLE →
    ∃ os t, Rests pushing {} (s, e) (inputs (ms.map (·.item))) os t {} ∧ t.1.tasiPkgPushState = .IDLE ∧
      os.flatMap (·.txBufferWriteCmd) = (ms.map (·.item)).flatMap (·.cmd.parts b) ∧
      os.flatMap (·.txBufferWriteData) = Made.dataOf ms e

theorem runs_as (ms : List (Made b W)) : RunsAs ms := by
  induction ms with
  | nil => exact fun e s hs => ⟨[], (s, e), ⟨.refl _ _, idle_rests hs e⟩, hs, rfl, rfl⟩
  | cons m ms ih =>
    intro e s hs
    obtain ⟨os, t, hrun, ht, hcmds, hdata⟩ :=
      m.run ((ms.map (·.item)).map (·.cmd)) ((ms.map (·.item)).flatMap (·.words)) e s hs
    obtain ⟨os', u, hrest, hu, hcmds', hdata'⟩ := ih (later e m.res) t ht
    refine ⟨os ++ os', u, ⟨hrun.trans hrest.run, hrest.rest⟩, hu, ?_, ?_⟩
    · rw [List.flatMap_append, hcmds, hcmds', List.map_cons, List.flatMap_cons]
    · rw [List.flatMap_append, hdata, hdata', Made.dataOf, Made.data]

theorem made_items (hpos : 0 < W) (hW : W ≤ 64) (its : List (BufferItem b W)) :
    ∃ ms : List (Made b W), ms.map (·.item) = its := by
  induction its with
  | nil => exact ⟨[], rfl⟩
  | cons it its ih =>
    obtain ⟨ms, rfl⟩ := ih
    obtain ⟨m, rfl⟩ := it.made hpos hW
    exact ⟨m :: ms, rfl⟩

end TasiPkgPusher

end FpgaNetworkStack.Toe
