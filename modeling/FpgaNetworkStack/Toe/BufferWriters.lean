import FpgaNetworkStack.Toe.BufferItems

/-!
# The two buffer writers

`rxEngMemWrite` makes call by call what `tasi_pkg_pusher` makes where it finds an empty word that keeps nothing.  So both
write the same, unless `tasi_pkg_pusher` looks into a word that nobody has set.
-/

namespace FpgaNetworkStack.Toe

open Lib
open Axi (Word Lane Packet)

variable {b : Build} {W : Nat}

/-! ## One process in terms of the other -/

namespace RxEngMemWrite

def RxMemWrState.pushState : RxMemWrState → TasiPkgPushState
  | .IDLE => .IDLE
  | .IDLE_REG => .IMPROVE_TIMING
  | .CUT_FIRST => .CUT_FIRST
  | .ALIGN_SECOND => .ALIGN_SECOND
  | .FWD_ALIGNED => .FWD_ALIGNED
  | .RESIDUE => .RESIDUE

def pusher (s : RxEngMemWrite b W) : TasiPkgPusher b W × (Nat → AxiWord W) :=
  (⟨RxMemWrState.pushState s.rxMemWrState, s.cmd, s.remainingLength, s.lengthFirstPkg, s.offset, s.prevWord⟩,
    fun _ => ⟨0, 0, false⟩)

end RxEngMemWrite

def RxEngMemWriteIn.pusher (i : RxEngMemWriteIn W) : TasiPkgPusherIn W := ⟨i.cmdIn, i.dataIn⟩

def RxEngMemWriteOut.pusher (o : RxEngMemWriteOut W) : TasiPkgPusherOut W := ⟨o.cmdOut, o.dataOut⟩

theorem lengthFirst_eq_neg (cmd : MmCmd) : cmd.lengthFirst (b := b) = -(cmd.saddr.setWidth b.windowBits) := by
  have hsize : BitVec.ofNat b.windowBits b.bufferSize = 0 := by
    apply BitVec.eq_of_toNat_eq
    rw [BitVec.toNat_ofNat]
    exact Nat.mod_self _
  unfold MmCmd.lengthFirst
  rw [hsize]
  exact BitVec.zero_sub _

theorem secondCmd_eq (cmd : MmCmd) (first : BitVec b.windowBits) : secondCmd b cmd first = cmd.second first := by
  have hsaddr : (cmd.saddr >>> b.windowBits) <<< b.windowBits = (cmd.second first).saddr := by
    rw [MmCmd.second_saddr_toNat]
    apply BitVec.eq_of_toNat_eq
    rw [BitVec.toNat_shiftLeft, BitVec.toNat_ushiftRight, Nat.shiftRight_eq_div_pow, Nat.shiftLeft_eq, BitVec.toNat_ofNat]
    rfl
  unfold secondCmd
  rw [hsaddr]
  rfl

theorem residue_eq (prev : AxiWord W) (offset : Nat) : residueWord offset ⟨0, 0, false⟩ prev = prev.residue offset := by
  simp [residueWord, alignWords, AxiWord.residue]

/-- Each call is that of the pusher. -/
theorem pushing_pusher (s : RxEngMemWrite b W) (i : RxEngMemWriteIn W) :
    TasiPkgPusher.pushing s.pusher i.pusher =
      ((rxEngMemWrite b W s i).1.pusher, (rxEngMemWrite b W s i).2.1.pusher, (rxEngMemWrite b W s i).2.2.pusher) := by
  obtain ⟨state, cmd, remainingLength, lengthFirstPkg, offset, prevWord⟩ := s
  obtain ⟨cmds, words⟩ := i
  cases state with
  | IDLE => cases cmds <;> rfl
  | IDLE_REG =>
    by_cases hx : cmd.crosses (b := b) = true
    · have hx' : crosses b cmd = true := hx
      simp [TasiPkgPusher.pushing, tasiPkgPusher, rxEngMemWrite, RxEngMemWrite.pusher, RxEngMemWriteIn.pusher,
        RxEngMemWriteOut.pusher, RxEngMemWrite.RxMemWrState.pushState, hx, hx', lengthFirst_eq_neg]
    · have hx' : ¬crosses b cmd = true := hx
      simp [TasiPkgPusher.pushing, tasiPkgPusher, rxEngMemWrite, RxEngMemWrite.pusher, RxEngMemWriteIn.pusher,
        RxEngMemWriteOut.pusher, RxEngMemWrite.RxMemWrState.pushState, hx, hx']
  | CUT_FIRST =>
    cases words with
    | nil => rfl
    | cons word words =>
      dsimp only [TasiPkgPusher.pushing, tasiPkgPusher, rxEngMemWrite, RxEngMemWrite.pusher, RxEngMemWriteIn.pusher,
        RxEngMemWrite.RxMemWrState.pushState]
      rw [secondCmd_eq]
      split
      · rfl
      · split
        · rfl
        · cases word.last <;> rfl
  | FWD_ALIGNED =>
    cases words with
    | nil => rfl
    | cons word words => cases hlast : word.last <;>
        simp [TasiPkgPusher.pushing, tasiPkgPusher, rxEngMemWrite, RxEngMemWrite.pusher, RxEngMemWriteIn.pusher,
          RxEngMemWriteOut.pusher, RxEngMemWrite.RxMemWrState.pushState, hlast]
  | ALIGN_SECOND =>
    cases words with
    | nil => rfl
    | cons word words =>
      cases hlast : word.last <;> cases hkeep : word.keep.getLsbD offset <;>
        simp [TasiPkgPusher.pushing, tasiPkgPusher, rxEngMemWrite, RxEngMemWrite.pusher, RxEngMemWriteIn.pusher,
          RxEngMemWriteOut.pusher, RxEngMemWrite.RxMemWrState.pushState, AxiWord.align, alignWords, hlast, hkeep]
  | RESIDUE =>
    simp only [TasiPkgPusher.pushing, tasiPkgPusher, rxEngMemWrite, RxEngMemWrite.pusher, RxEngMemWriteIn.pusher,
      RxEngMemWriteOut.pusher, RxEngMemWrite.RxMemWrState.pushState, ← residue_eq]
    rfl

/-! ## The receive side with all items -/

instance : Append (TasiPkgPusherIn W) :=
  ⟨fun i j => ⟨i.tasiMeta2pkgPushCmd ++ j.tasiMeta2pkgPushCmd, i.appTxDataIn ++ j.appTxDataIn⟩⟩

instance : Std.Associative (α := TasiPkgPusherIn W) (· ++ ·) where
  assoc _ _ _ := congrArg₂ TasiPkgPusherIn.mk (List.append_assoc ..) (List.append_assoc ..)

instance : Append (RxEngMemWriteIn W) := ⟨fun i j => ⟨i.cmdIn ++ j.cmdIn, i.dataIn ++ j.dataIn⟩⟩

instance : Std.Associative (α := RxEngMemWriteIn W) (· ++ ·) where
  assoc _ _ _ := congrArg₂ RxEngMemWriteIn.mk (List.append_assoc ..) (List.append_assoc ..)

theorem TasiPkgPusher.pushing_waits : Waits (pushing (b := b) (W := W)) {} := by
  intro s i
  obtain ⟨⟨state, cmd, remainingLength, lengthFirstPkg, offset, prevWord⟩, e⟩ := s
  obtain ⟨cmds, words⟩ := i
  cases state with
  | IDLE => cases cmds with
    | nil => exact .inl rfl
    | cons cmd cmds => exact .inr fun x => rfl
  | IMPROVE_TIMING =>
    right
    intro x
    dsimp only [pushing, tasiPkgPusher]
    split <;> rfl
  | CUT_FIRST => cases words with
    | nil => exact .inl rfl
    | cons word words =>
      right
      rintro ⟨cmds', words'⟩
      change pushing (_, e) ⟨cmds ++ cmds', word :: (words ++ words')⟩ = _
      dsimp only [pushing, tasiPkgPusher]
      split
      · rfl
      · split <;> rfl
  | ALIGN_SECOND | FWD_ALIGNED => cases words with
    | nil => exact .inl rfl
    | cons word words => exact .inr fun x => rfl
  | RESIDUE => exact .inr fun x => rfl

namespace RxEngMemWrite

theorem waits : Waits (rxEngMemWrite b W) {} := by
  intro s i
  obtain ⟨state, cmd, remainingLength, lengthFirstPkg, offset, prevWord⟩ := s
  obtain ⟨cmds, words⟩ := i
  cases state with
  | IDLE => cases cmds with
    | nil => exact .inl rfl
    | cons cmd cmds => exact .inr fun x => rfl
  | IDLE_REG =>
    right
    intro x
    dsimp only [rxEngMemWrite]
    split <;> rfl
  | CUT_FIRST => cases words with
    | nil => exact .inl rfl
    | cons word words =>
      right
      rintro ⟨cmds', words'⟩
      change rxEngMemWrite b W _ ⟨cmds ++ cmds', word :: (words ++ words')⟩ = _
      dsimp only [rxEngMemWrite]
      split
      · rfl
      · split <;> rfl
  | ALIGN_SECOND | FWD_ALIGNED => cases words with
    | nil => exact .inl rfl
    | cons word words => exact .inr fun x => rfl
  | RESIDUE => exact .inr fun x => rfl

def inputs (its : List (BufferItem b W)) : RxEngMemWriteIn W := ⟨its.map (·.cmd), its.flatMap (·.words)⟩

theorem doubleAccess_call (s : RxEngMemWrite b W) (i : RxEngMemWriteIn W) :
    (rxEngMemWrite b W s i).2.2.doubleAccess ++
        ((rxEngMemWrite b W s i).1.held ++ (rxEngMemWrite b W s i).2.1.cmdIn).map (crosses b) =
      (s.held ++ i.cmdIn).map (crosses b) := by
  have h := memWrote s i
  generalize rxEngMemWrite b W s i = r at h
  cases h with
  | data hcmd hheld _ _ hflag => rw [hcmd, hheld, hflag, List.nil_append]
  | read c hcmd hheld hheld' _ _ _ hflag => rw [hcmd, hheld, hheld', hflag, List.nil_append, List.nil_append, List.singleton_append]
  | issue c c' hcmd hheld hheld' _ _ _ hflag => rw [hcmd, hheld, hheld', hflag, List.nil_append, List.map_append, List.map_singleton]
  | second c' hcmd hheld hheld' _ _ _ hflag => rw [hcmd, hheld, hheld', hflag, List.nil_append]

theorem doubleAccess_runs {s t : RxEngMemWrite b W} {i j : RxEngMemWriteIn W} {os : List (RxEngMemWriteOut W)}
    (h : Runs (rxEngMemWrite b W) s i os t j) :
    os.flatMap (·.doubleAccess) ++ (t.held ++ j.cmdIn).map (crosses b) = (s.held ++ i.cmdIn).map (crosses b) := by
  induction h with
  | refl => rfl
  | @call o os s t' _ i j' _ hcall _ ih =>
    have hone := doubleAccess_call s i
    rw [hcall] at hone
    rw [List.flatMap_cons, List.append_assoc, ih, hone]

theorem idle_of_pusher {t : RxEngMemWrite b W} (h : t.pusher.1.tasiPkgPushState = .IDLE) : t.rxMemWrState = .IDLE := by
  obtain ⟨state, cmd, remainingLength, lengthFirstPkg, offset, prevWord⟩ := t
  cases state with
  | IDLE => rfl
  | _ => cases h

theorem runs_as (ms : List (Made b W)) :
    ∃ os t, Rests (rxEngMemWrite b W) {} (.init b W) (inputs (ms.map (·.item))) os t {} ∧
      os.flatMap (·.cmdOut) = (ms.map (·.item)).flatMap (·.cmd.parts b) ∧
      os.flatMap (·.dataOut) = ms.flatMap (·.data ⟨0, 0, false⟩) ∧
      os.flatMap (·.doubleAccess) = (ms.map (·.item)).map (·.crosses) := by
  obtain ⟨os, t, hrest, hidle, hcmds, hdata⟩ :=
    TasiPkgPusher.runs_as ms (fun _ => ⟨0, 0, false⟩) (RxEngMemWrite.init b W).pusher.1 rfl
  have hrun : Runs TasiPkgPusher.pushing (RxEngMemWrite.init b W).pusher
      (inputs (ms.map (·.item))).pusher os t {} := hrest.run
  obtain ⟨os', t', j, hrun', rfl, hj, rfl⟩ := Runs.lift pushing_pusher hrun
  obtain rfl : j = {} := by
    obtain ⟨cmds, words⟩ := j
    cases hj
    rfl
  have hstate := idle_of_pusher hidle
  have hflags := doubleAccess_runs hrun'
  have hheld : t'.held = [] := by simp [held, hstate]
  rw [hheld, List.append_nil, List.map_nil, List.append_nil] at hflags
  refine ⟨os', t', ⟨hrun', ?_⟩, ?_, ?_, ?_⟩
  · simp [rxEngMemWrite, hstate]
  · rw [← hcmds, List.flatMap_map]
    rfl
  · rw [← Made.dataOf_const, ← hdata, List.flatMap_map]
    rfl
  · rw [hflags]
    change ((ms.map (·.item)).map (·.cmd)).map (crosses b) = _
    rw [List.map_map]
    rfl

end RxEngMemWrite

/-! ## The split write -/

namespace RxEngMemWrite

/-- The packet passes the end of the session's buffer. -/
def wraps (it : BufferItem b W) : Bool :=
  decide (b.bufferSize < it.cmd.saddr.toNat % b.bufferSize + it.bytes.length)

theorem crosses_eq_wraps (it : BufferItem b W) : it.crosses = wraps it := by
  rw [Bool.eq_iff_iff, wraps, decide_eq_true_iff, ← it.length_eq]
  exact MmCmd.crosses_iff

/-- One or two commands for one item: each has the length of its packet, and together they store the packet in the ring. -/
structure Splits (it : BufferItem b W) (writes : List (MmCmd × List (BitVec 8))) : Prop where
  count : writes.length = if wraps it then 2 else 1
  lengths : ∀ p ∈ writes, p.1.bbt.toNat = p.2.length
  stores : writes.flatMap BufferItem.stores = it.ringStores

/-- The commands, the words and the flags written for items. -/
structure SplitWrites (its : List (BufferItem b W)) (cmds : List MmCmd) (words : List (AxiWord W)) (flags : List Bool) :
    Prop where
  flags : flags = its.map wraps
  writes : ∃ writes, List.Forall₂ Splits its writes ∧ cmds = writes.flatten.map Prod.fst ∧
    ∃ packets, words = packets.flatten ∧ List.Forall₂ Carries packets (writes.flatten.map Prod.snd)

theorem splits_parts {it : BufferItem b W} (h : it.Short) : Splits it it.parts := by
  refine ⟨?_, BufferItem.parts_length_eq h, BufferItem.parts_stores h⟩
  rw [BufferItem.parts_length, crosses_eq_wraps]

theorem splitWrites {ms : List (Made b W)} (h : ∀ m ∈ ms, m.item.Short) {cmds : List MmCmd} {words : List (AxiWord W)}
    {flags : List Bool} (hcmds : cmds = (ms.map (·.item)).flatMap (·.cmd.parts b))
    (hwords : words = ms.flatMap (·.data ⟨0, 0, false⟩)) (hflags : flags = (ms.map (·.item)).map (·.crosses)) :
    SplitWrites (ms.map (·.item)) cmds words flags := by
  obtain ⟨packets, hpackets, hcarries⟩ := Made.packets_flatMap ms
  refine ⟨?_, ms.map (·.item.parts), ?_, ?_, packets, hwords.trans hpackets, ?_⟩
  · rw [hflags]
    exact List.map_congr_left fun it _ => crosses_eq_wraps it
  · rw [List.forall₂_map_left_iff, List.forall₂_map_right_iff]
    exact List.forall₂_same.mpr fun m hm => splits_parts (h m hm)
  · rw [hcmds, List.flatMap_map, ← List.flatMap_def, List.map_flatMap]
    simp only [BufferItem.parts_fst]
  · rw [← List.flatMap_def]
    exact hcarries

/-- Commands and packets that come in any way between the calls are split and stored in the ring, where no first part
is longer than a command can say. -/
theorem split_writes (hW : W = 8 ∨ W = 16 ∨ W = 32 ∨ W = 64) (its : List (BufferItem b W)) (hshort : ∀ it ∈ its, it.Short)
    {xs : List (RxEngMemWriteIn W)} {os : List (RxEngMemWriteOut W)} {s : RxEngMemWrite b W} {i : RxEngMemWriteIn W}
    (hxs : xs.foldl (· ++ ·) {} = inputs its) (h : Fed (rxEngMemWrite b W) (.init b W) {} xs os s i) :
    ∃ os' t, Rests (rxEngMemWrite b W) {} s i os' t {} ∧
      SplitWrites its (os.flatMap (·.cmdOut) ++ os'.flatMap (·.cmdOut)) (os.flatMap (·.dataOut) ++ os'.flatMap (·.dataOut))
        (os.flatMap (·.doubleAccess) ++ os'.flatMap (·.doubleAccess)) := by
  obtain ⟨ms, rfl⟩ := TasiPkgPusher.made_items (by omega) (by omega) its
  obtain ⟨all, t, hrest, hcmds, hdata, hflags⟩ := runs_as ms
  rw [← hxs] at hrest
  obtain ⟨os', hrest', hsplit⟩ := h.rests waits hrest
  refine ⟨os', t, hrest', splitWrites ?_ ?_ ?_ ?_⟩
  · exact List.forall_mem_map.mp hshort
  · rw [← hcmds, hsplit rfl]
  · rw [← hdata, hsplit rfl]
  · rw [← hflags, hsplit rfl]

/-- Five bytes, of which three fit in front of the end of the buffer. -/
def wrapping : BufferItem .sample 8 where
  cmd := ⟨5, 262141⟩
  words := [⟨0x0504030201, 0x1F, true⟩]
  bytes := [1, 2, 3, 4, 5]
  carries := .last rfl ⟨List.replicate 3 {}, by decide, Axi.unkept_replicate 3⟩
  length_eq := rfl
  pos := by decide
  le := by decide

theorem split_writes_wrapping :
    ∃ os s i, Fed (rxEngMemWrite .sample 8) (.init .sample 8) {} [inputs [wrapping]] os s i ∧
      os.flatMap (·.doubleAccess) = [true] ∧ ∃ os' t, Rests (rxEngMemWrite .sample 8) {} s i os' t {} ∧
        SplitWrites [wrapping] (os.flatMap (·.cmdOut) ++ os'.flatMap (·.cmdOut))
          (os.flatMap (·.dataOut) ++ os'.flatMap (·.dataOut)) (os.flatMap (·.doubleAccess) ++ os'.flatMap (·.doubleAccess)) := by
  have hshort : ∀ it ∈ [wrapping], it.Short := by
    intro it hit
    rw [List.mem_singleton.mp hit]
    unfold BufferItem.Short
    decide +kernel
  have hfed : Fed (rxEngMemWrite .sample 8) (.init .sample 8) {} [inputs [wrapping]] _ _ _ :=
    .feed _ (.call rfl (.call rfl (.refl _ _)))
  exact ⟨_, _, _, hfed, by decide +kernel, split_writes (.inl rfl) [wrapping] hshort rfl hfed⟩

theorem Splits.sum_bbt {it : BufferItem b W} {writes : List (MmCmd × List (BitVec 8))} (h : Splits it writes) :
    (writes.map (·.1.bbt.toNat)).sum = it.bytes.length := by
  have hlen := congrArg List.length h.stores
  rw [List.length_flatMap, BufferItem.ringStores, List.length_zip, List.length_map, List.length_range, Nat.min_self] at hlen
  rw [← hlen]
  congr 1
  apply List.map_congr_left
  intro p hp
  rw [BufferItem.stores, List.length_zip, MmCmd.addresses, List.length_map, List.length_range, ← h.lengths p hp, Nat.min_self]

theorem fronts_replicate {w : AxiWord W} {bs : List (BitVec 8)} (hlast : w.last = false) (hw : w.Full bs) (n : Nat) :
    Fronts (List.replicate n w) (List.replicate n bs).flatten := by
  induction n with
  | zero => exact .nil
  | succ n ih => exact .cons hlast hw ih

theorem length_zeros (n : Nat) :
    ((List.replicate n (List.replicate 8 (0 : BitVec 8))).flatten ++ [0]).length = n * 8 + 1 := by
  rw [List.length_append, List.length_flatten, List.map_replicate, List.sum_replicate_nat, List.length_replicate]
  rfl

/-- 65537 bytes, of which 65536 fit in front of the end of the buffer. -/
def long : BufferItem .sample 8 where
  cmd := ⟨65537, 196608⟩
  words := List.replicate 8192 ⟨0, 0xFF, false⟩ ++ [⟨0, 1, true⟩]
  bytes := (List.replicate 8192 (List.replicate 8 0)).flatten ++ [0]
  carries := (fronts_replicate rfl (by unfold AxiWord.Full; decide) 8192).carries
    (.last rfl ⟨List.replicate 7 {}, by decide, Axi.unkept_replicate 7⟩)
  length_eq := (length_zeros 8192).symm
  pos := by
    rw [length_zeros]
    decide
  le := by
    rw [length_zeros]
    decide

-- The command for the first part says 0 bytes.
theorem first_part_without_length :
    ∃ os t, Rests (rxEngMemWrite .sample 8) {} (.init .sample 8) (inputs [long]) os t {} ∧
      ¬SplitWrites [long] (os.flatMap (·.cmdOut)) (os.flatMap (·.dataOut)) (os.flatMap (·.doubleAccess)) := by
  obtain ⟨ms, hms⟩ := TasiPkgPusher.made_items (by omega) (by omega) [long]
  obtain ⟨os, t, hrest, hcmds, _, _⟩ := runs_as ms
  rw [hms] at hrest hcmds
  refine ⟨os, t, hrest, ?_⟩
  rintro ⟨_, writes, hwrites, hcmds', _⟩
  obtain ⟨ws, rest, hsplit, hnil, rfl⟩ := List.forall₂_cons_left_iff.mp hwrites
  obtain rfl := List.forall₂_nil_left_iff.mp hnil
  have hsum := hsplit.sum_bbt
  rw [hcmds, List.flatten_cons, List.flatten_nil, List.append_nil] at hcmds'
  have hbbt : ws.map (·.1.bbt.toNat) = [0, 1] := by
    have hmap : ws.map (·.1.bbt.toNat) = (ws.map Prod.fst).map (·.bbt.toNat) := by rw [List.map_map]; rfl
    rw [hmap, ← hcmds']
    rfl
  rw [hbbt] at hsum
  have hlen : long.bytes.length = 65537 := long.length_eq.symm
  rw [hlen] at hsum
  exact absurd hsum (by decide)

end RxEngMemWrite

/-! ## Where they agree -/

def AxiWord.kept (w : AxiWord W) : List (BitVec 8) × Bool := (w.toWord.bytes, w.last)

def keptBytes (ws : List (AxiWord W)) : Nat := (ws.map (·.kept.1.length)).sum

theorem keptBytes_append (ws ws' : List (AxiWord W)) : keptBytes (ws ++ ws') = keptBytes ws + keptBytes ws' := by
  unfold keptBytes
  rw [List.map_append, List.sum_append]

/-- Both have come to rest with the items, however the input came in: the same commands and the same packets. -/
def WritersAgree (its : List (BufferItem b W)) : Prop :=
  ∀ (e : Nat → AxiWord W) (xs : List (TasiPkgPusherIn W)) (ys : List (RxEngMemWriteIn W)) (os s i os' s' i'),
    xs.foldl (· ++ ·) {} = TasiPkgPusher.inputs its → ys.foldl (· ++ ·) {} = RxEngMemWrite.inputs its →
    Fed TasiPkgPusher.pushing (.init b W, e) {} xs os s i → TasiPkgPusher.pushing s i = (s, i, {}) →
    Fed (rxEngMemWrite b W) (.init b W) {} ys os' s' i' → rxEngMemWrite b W s' i' = (s', i', {}) →
    os.flatMap (·.txBufferWriteCmd) = os'.flatMap (·.cmdOut) ∧
      (os.flatMap (·.txBufferWriteData)).map AxiWord.kept = (os'.flatMap (·.dataOut)).map AxiWord.kept

theorem agree_of_fits (hpos : 0 < W) (hW : W ≤ 64) {its : List (BufferItem b W)} (hfits : ∀ it ∈ its, it.fits = true) :
    WritersAgree its := by
  obtain ⟨ms, rfl⟩ := TasiPkgPusher.made_items hpos hW its
  intro e xs ys os s i os' s' i' hxs hys hfed hend hfed' hend'
  obtain ⟨all, t, hrest, -, hcmds, hdata⟩ := TasiPkgPusher.runs_as ms e (.init b W) rfl
  obtain ⟨all', t', hrest', hcmds', hdata', -⟩ := RxEngMemWrite.runs_as ms
  rw [← hxs] at hrest
  rw [← hys] at hrest'
  constructor
  · rw [hfed.at_rest TasiPkgPusher.pushing_waits hend hrest rfl, hfed'.at_rest RxEngMemWrite.waits hend' hrest' rfl,
      hcmds, hcmds']
  · rw [hfed.at_rest TasiPkgPusher.pushing_waits hend hrest rfl, hfed'.at_rest RxEngMemWrite.waits hend' hrest' rfl,
      hdata, hdata', Made.dataOf_fits (List.forall_mem_map.mp hfits) e ⟨0, 0, false⟩]

theorem keptBytes_residueWord {offset : Nat} (hoff : offset ≤ W) (p : AxiWord W) :
    keptBytes [residueWord offset ⟨0, BitVec.allOnes W, false⟩ p] = keptBytes [residueWord offset ⟨0, 0, false⟩ p] + offset := by
  have hbytes (w : AxiWord W) : keptBytes [residueWord offset w p] =
      ((p.toWord.lanes.drop offset).filter (·.keep)).length + ((w.toWord.lanes.take offset).filter (·.keep)).length := by
    change ((residueWord offset w p).toWord.bytes).length + 0 = _
    rw [Nat.add_zero, Word.bytes, List.length_map, residueWord, alignWords_lanes hoff, List.filter_append, List.length_append]
  have hones : ((⟨0, BitVec.allOnes W, false⟩ : AxiWord W).toWord.lanes.take offset).filter (·.keep) =
      (⟨0, BitVec.allOnes W, false⟩ : AxiWord W).toWord.lanes.take offset := by
    rw [List.filter_eq_self]
    intro l hl
    obtain ⟨k, hk, rfl⟩ := List.mem_map.mp (List.mem_of_mem_take hl)
    change (BitVec.allOnes W).getLsbD k = true
    rw [BitVec.getLsbD_allOnes, decide_eq_true (List.mem_range.mp hk)]
  have hzeros : ((⟨0, 0, false⟩ : AxiWord W).toWord.lanes.take offset).filter (·.keep) = [] := by
    rw [List.filter_eq_nil_iff]
    intro l hl
    obtain ⟨k, -, rfl⟩ := List.mem_map.mp (List.mem_of_mem_take hl)
    change ¬(0#W).getLsbD k = true
    rw [BitVec.getLsbD_zero]
    decide
  rw [hbytes, hbytes, hones, hzeros, List.length_take, Word.length_eq, Nat.min_eq_left hoff]
  rfl

theorem keptBytes_data (hpos : 0 < W) (m : Made b W) :
    keptBytes (m.data ⟨0, BitVec.allOnes W, false⟩) =
      keptBytes (m.data ⟨0, 0, false⟩) + if m.item.fits then 0 else m.item.before % W := by
  unfold Made.data
  rw [keptBytes_append, keptBytes_append]
  cases hres : m.res with
  | none =>
    rw [if_pos (m.fits.mp hres)]
    rfl
  | some p =>
    have hfits : ¬m.item.fits = true := fun h => absurd (m.fits.mpr h) (by rw [hres]; simp)
    rw [if_neg hfits, Nat.add_assoc]
    exact congrArg _ (keptBytes_residueWord (Nat.le_of_lt (Nat.mod_lt _ hpos)) p)

theorem keptBytes_flatMap (hpos : 0 < W) (ms : List (Made b W)) :
    keptBytes (ms.flatMap (·.data ⟨0, BitVec.allOnes W, false⟩)) =
      keptBytes (ms.flatMap (·.data ⟨0, 0, false⟩)) +
        (ms.map fun m => if m.item.fits then 0 else m.item.before % W).sum := by
  induction ms with
  | nil => rfl
  | cons m ms ih =>
    rw [List.flatMap_cons, List.flatMap_cons, keptBytes_append, keptBytes_append, ih, keptBytes_data hpos, List.map_cons,
      List.sum_cons]
    omega

theorem fits_of_agree (hpos : 0 < W) (hW : W ≤ 64) {its : List (BufferItem b W)} (h : WritersAgree its) :
    ∀ it ∈ its, it.fits = true := by
  obtain ⟨ms, rfl⟩ := TasiPkgPusher.made_items hpos hW its
  obtain ⟨os, t, hrest, -, -, hdata⟩ :=
    TasiPkgPusher.runs_as ms (fun _ => ⟨0, BitVec.allOnes W, false⟩) (.init b W) rfl
  obtain ⟨os', t', hrest', -, hdata', -⟩ := RxEngMemWrite.runs_as ms
  -- all of the input is there before the first call
  have hfed : Fed TasiPkgPusher.pushing _ {} [TasiPkgPusher.inputs (ms.map (·.item))] os t {} := Runs.fed hrest.run
  have hfed' : Fed (rxEngMemWrite b W) _ {} [RxEngMemWrite.inputs (ms.map (·.item))] os' t' {} := Runs.fed hrest'.run
  have hwords := (h _ _ _ os t {} os' t' {} rfl rfl hfed hrest.rest hfed' hrest'.rest).2
  rw [hdata, hdata', Made.dataOf_const] at hwords
  have hcount := congrArg (fun l : List (List (BitVec 8) × Bool) => (l.map (·.1.length)).sum) hwords
  simp only [List.map_map] at hcount
  have hsum := keptBytes_flatMap hpos ms
  change keptBytes _ = keptBytes _ at hcount
  rw [hcount] at hsum
  have hzero := List.forall_mem_map.mp (List.sum_eq_zero_iff_forall_eq_nat.mp (Nat.left_eq_add.mp hsum))
  rw [List.forall_mem_map]
  intro m hm
  have hm := hzero m hm
  by_contra hfits
  rw [if_neg hfits] at hm
  simp [BufferItem.fits, hm] at hfits

/-- The writers agree where no packet needs a word for the tail of its last one. -/
theorem writers_agree_iff (hW : W = 8 ∨ W = 16 ∨ W = 32 ∨ W = 64) (its : List (BufferItem b W)) :
    WritersAgree its ↔ ∀ it ∈ its, it.fits = true :=
  ⟨fits_of_agree (by omega) (by omega), agree_of_fits (by omega) (by omega)⟩

/-- 13 bytes, of which one word fits in front of the end of the buffer. -/
def cutBetweenWords : BufferItem .sample 8 where
  cmd := ⟨13, 262136⟩
  words := [⟨0x0807060504030201, 0xFF, false⟩, ⟨0x0D0C0B0A09, 0x1F, true⟩]
  bytes := [1, 2, 3, 4, 5, 6, 7, 8] ++ [9, 10, 11, 12, 13]
  carries := .cons rfl (by unfold AxiWord.Full; decide) (.last rfl ⟨List.replicate 3 {}, by decide, Axi.unkept_replicate 3⟩)
  length_eq := rfl
  pos := by decide
  le := by decide

theorem writers_agree_cutBetweenWords : WritersAgree [cutBetweenWords] := by
  refine (writers_agree_iff (.inl rfl) [cutBetweenWords]).mpr ?_
  intro it hit
  rw [List.mem_singleton.mp hit]
  decide +kernel

-- The second packet has three bytes of `emptyWord` behind its two.
theorem uninitialised_bytes_written :
    ∃ e os t, Rests TasiPkgPusher.pushing {} (.init .sample 8, e) (TasiPkgPusher.inputs [RxEngMemWrite.wrapping]) os t {} ∧
      (os.flatMap (·.txBufferWriteData)).map AxiWord.kept = [([1, 2, 3], true), ([4, 5, 0, 0, 0], true)] ∧
      ¬WritersAgree [RxEngMemWrite.wrapping] := by
  refine ⟨fun _ => ⟨0, 0xFF, false⟩, _, _, ⟨.call rfl (.call rfl (.call rfl (.call rfl (.refl _ _)))), rfl⟩, ?_, ?_⟩
  · decide +kernel
  · intro h
    have hfits := fits_of_agree (by decide) (by decide) h _ (List.mem_singleton.mpr rfl)
    exact absurd hfits (by decide +kernel)

end FpgaNetworkStack.Toe
