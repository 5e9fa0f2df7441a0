import FpgaNetworkStack.Toe.AppReads

/-!
# What the application reads

A read is cut where it crosses 64 KiB, also where the buffers are larger; the second part is read from the beginning of the
same 64 KiB, and `rxAppMemDataRead` joins it to the first as if words had 8 bytes.
-/

namespace FpgaNetworkStack.Toe

open Lib
open Axi (Word Lane Packet Packets)
open RxAppMemDataRead (Joined joins)

variable {b : Build} {N : Nat} {z : List (BitVec 8)} {mem : BitVec 32 → BitVec 8}

/-! ## The parts of a read -/

theorem pkgAddr_toNat (sid : SessionID) (off : BitVec b.windowBits) :
    (pkgAddr b sid off).toNat = sid.toNat % 2 ^ (30 - b.windowBits) * b.bufferSize + off.toNat := by
  have hoff : off.toNat < b.bufferSize := off.isLt
  have hsize : 2 ^ (30 - b.windowBits) * b.bufferSize = 2 ^ 30 := by
    unfold Build.bufferSize
    rw [← Nat.pow_add, Nat.sub_add_cancel (by have := b.windowBits_eq; omega)]
  have hsid := Nat.mod_lt sid.toNat (Nat.two_pow_pos (30 - b.windowBits))
  have hroom := Nat.mul_le_mul_right b.bufferSize (Nat.succ_le_of_lt hsid)
  rw [Nat.succ_mul, hsize] at hroom
  unfold pkgAddr
  rw [BitVec.toNat_ofNat, Nat.mod_eq_of_lt (by omega)]

theorem ringAddress_pkgAddr (sid : SessionID) (off : BitVec b.windowBits) (i : Nat) :
    ringAddress b (pkgAddr b sid off) i = pkgAddr b sid (off + BitVec.ofNat _ i) := by
  have hoff : off.toNat < b.bufferSize := off.isLt
  have hpos := b.bufferSize_pos
  unfold ringAddress
  rw [pkgAddr_toNat, Nat.mul_add_mod_of_lt hoff, Nat.add_comm _ off.toNat, Nat.add_mul_div_right _ _ hpos,
    Nat.div_eq_of_lt hoff, Nat.zero_add]
  unfold pkgAddr
  rw [BitVec.toNat_add, BitVec.toNat_ofNat]
  change _ = BitVec.ofNat 32 (_ + (off.toNat + i % b.bufferSize) % b.bufferSize)
  rw [Nat.add_mod_mod]

namespace AppRead

variable {r : AppRead b}

def crosses (r : AppRead b) : Bool := r.cmd.crosses64K

/-- The bytes in front of the multiple of 64 KiB. -/
def before (r : AppRead b) : Nat := r.cmd.accLength.toNat

def parts (r : AppRead b) : List MmCmd :=
  if r.crosses then
    [.new r.cmd.saddr r.cmd.accLength, .new ((r.cmd.saddr >>> 16) <<< 16) (r.cmd.bbt.setWidth 16 - r.cmd.accLength)]
  else [r.cmd]

theorem bbt_toNat (r : AppRead b) : r.cmd.bbt.toNat = r.length.toNat := by
  show (r.length.setWidth 23).toNat = _
  have hlen := r.length.isLt
  rw [BitVec.toNat_setWidth, Nat.mod_eq_of_lt (by omega)]

theorem length_pos (r : AppRead b) : 0 < r.length.toNat := by
  have hne := r.ne
  rw [Ne, ← BitVec.toNat_inj] at hne
  exact Nat.pos_of_ne_zero hne

theorem low_toNat (r : AppRead b) : (r.cmd.saddr.setWidth 16).toNat = r.cmd.saddr.toNat % 65536 :=
  BitVec.toNat_setWidth 16 r.cmd.saddr

theorem crosses_iff : r.crosses = true ↔ 65536 < r.cmd.saddr.toNat % 65536 + r.length.toNat := by
  unfold crosses MmCmd.crosses64K
  rw [decide_eq_true_iff, low_toNat, bbt_toNat]

theorem before_eq (hx : r.crosses = true) : r.cmd.saddr.toNat % 65536 + r.before = 65536 := by
  rw [crosses_iff] at hx
  have hlen := r.length.isLt
  have hlow := r.low_toNat
  unfold before MmCmd.accLength
  rw [BitVec.toNat_sub, BitVec.toNat_ofNat, hlow]
  omega

theorem before_pos (hx : r.crosses = true) : 0 < r.before := by
  have hadd := before_eq hx
  omega

theorem before_lt (hx : r.crosses = true) : r.before < r.length.toNat := by
  have hadd := before_eq hx
  rw [crosses_iff] at hx
  omega

/-- The address of the second part. -/
def base (r : AppRead b) : BitVec 32 := BitVec.ofNat 32 (r.cmd.saddr.toNat / 65536 * 65536)

theorem base_eq (r : AppRead b) : (r.cmd.saddr >>> 16) <<< 16 = r.base := by
  apply BitVec.eq_of_toNat_eq
  rw [BitVec.toNat_shiftLeft, BitVec.toNat_ushiftRight, Nat.shiftLeft_eq, Nat.shiftRight_eq_div_pow, base,
    BitVec.toNat_ofNat]

/-- What the memory returns for the part in front of the multiple of 64 KiB. -/
def firstBytes (mem : BitVec 32 → BitVec 8) (r : AppRead b) : List (BitVec 8) :=
  (List.range r.before).map fun k => mem (r.cmd.saddr + BitVec.ofNat 32 k)

def secondBytes (mem : BitVec 32 → BitVec 8) (r : AppRead b) : List (BitVec 8) :=
  (List.range (r.length.toNat - r.before)).map fun k => mem (r.base + BitVec.ofNat 32 k)

theorem length_firstBytes (mem : BitVec 32 → BitVec 8) (r : AppRead b) : (r.firstBytes mem).length = r.before := by
  rw [firstBytes, List.length_map, List.length_range]

theorem length_secondBytes (mem : BitVec 32 → BitVec 8) (r : AppRead b) :
    (r.secondBytes mem).length = r.length.toNat - r.before := by
  rw [secondBytes, List.length_map, List.length_range]

theorem length_bytes (mem : BitVec 32 → BitVec 8) (r : AppRead b) : (r.bytes mem).length = r.length.toNat := by
  rw [bytes, List.length_map, List.length_range]

theorem parts_crossing (mem : BitVec 32 → BitVec 8) (hx : r.crosses = true) :
    ∃ first second : MmCmd, r.parts = [first, second] ∧ first.bbt.toNat = r.before ∧
      second.bbt.toNat = r.length.toNat - r.before ∧ ReadCommand.readBytes mem first = r.firstBytes mem ∧
      ReadCommand.readBytes mem second = r.secondBytes mem := by
  have hlt := before_lt hx
  have hlen := r.length.isLt
  have hbbt := r.bbt_toNat
  have hfirst : (r.cmd.accLength.setWidth 23).toNat = r.before := by
    rw [BitVec.toNat_setWidth]
    exact Nat.mod_eq_of_lt (show r.before < 2 ^ 23 by omega)
  have hsecond : ((r.cmd.bbt.setWidth 16 - r.cmd.accLength).setWidth 23).toNat = r.length.toNat - r.before := by
    rw [BitVec.toNat_setWidth, BitVec.toNat_sub, BitVec.toNat_setWidth, hbbt]
    change (2 ^ 16 - r.before + r.length.toNat % 2 ^ 16) % 2 ^ 16 % 2 ^ 23 = _
    omega
  refine ⟨_, _, if_pos hx, hfirst, hsecond, ?_, ?_⟩
  · rw [ReadCommand.readBytes, MmCmd.addresses, List.map_map, MmCmd.new, hfirst]
    rfl
  · rw [ReadCommand.readBytes, MmCmd.addresses, List.map_map, MmCmd.new, hsecond, base_eq]
    rfl

theorem saddr_eq (r : AppRead b) : r.cmd.saddr = pkgAddr b r.sessionID r.appd := rfl

theorem bytes_eq (mem : BitVec 32 → BitVec 8) (r : AppRead b) :
    r.bytes mem = (List.range r.length.toNat).map fun i => mem (ringAddress b r.cmd.saddr i) := by
  unfold bytes
  simp only [saddr_eq, ringAddress_pkgAddr]

theorem bytes_inside (hx : ¬r.crosses = true) : ReadCommand.readBytes mem r.cmd = r.bytes mem := by
  have hcross : ¬r.cmd.crosses (b := b) = true := by
    rw [MmCmd.crosses_iff, bbt_toNat]
    rw [crosses_iff] at hx
    have hlen := r.length.isLt
    rcases b.bufferSize_eq with hb | hb <;> rw [hb] <;> omega
  rw [ReadCommand.readBytes, ringAddresses_inside hcross, List.map_map, bbt_toNat, bytes_eq]
  rfl

theorem bytes_crossing (hb : b.windowBits = 16) (hx : r.crosses = true) :
    r.firstBytes mem ++ r.secondBytes mem = r.bytes mem := by
  have hsize : b.bufferSize = 65536 := congrArg (fun n => 2 ^ n) hb
  have hlt := before_lt hx
  have hlen := r.length.isLt
  have hadd := before_eq hx
  rw [← hsize] at hadd
  have hsplit := ringAddresses_split r.cmd.saddr hadd (n := r.length.toNat - r.before) (by omega)
  rw [Nat.add_sub_cancel' (Nat.le_of_lt hlt), hsize] at hsplit
  have hmap := congrArg (List.map mem) hsplit
  rw [List.map_append, List.map_map, List.map_map, List.map_map] at hmap
  rw [bytes_eq]
  exact hmap

theorem ringAddress_ne_base (hb : b.windowBits ≠ 16) (hx : r.crosses = true) :
    ringAddress b r.cmd.saddr r.before ≠ r.base := by
  have hsize : b.bufferSize = 262144 := congrArg (fun n => 2 ^ n) (b.windowBits_eq.resolve_right hb)
  have hadd := before_eq hx
  have hrange := r.cmd.saddr.isLt
  intro heq
  have hnat := congrArg BitVec.toNat heq
  rw [ringAddress, base, BitVec.toNat_ofNat, BitVec.toNat_ofNat, hsize] at hnat
  omega

def Written (N : Nat) (outside : List (BitVec 8)) (mem : BitVec 32 → BitVec 8) (r : AppRead b) (bs : List (BitVec 8)) : Prop :=
  if r.crosses then ∃ x, bs = r.firstBytes mem ++ x ∧ Joined N outside r.before (r.secondBytes mem) x
  else bs = r.bytes mem

theorem Written.length {bs : List (BitVec 8)} (h : Written N z mem r bs) : bs.length = (r.bytes mem).length := by
  unfold Written at h
  split at h
  · next hx =>
      obtain ⟨x, rfl, hjoined⟩ := h
      have hlt := before_lt hx
      rw [List.length_append, hjoined.length, length_firstBytes, length_secondBytes, length_bytes]
      omega
  · rw [h]

/-- The bytes written for the read are right: it is not cut, or it is cut where its buffer ends and its parts are joined
as they should be. -/
def delivered (N : Nat) (r : AppRead b) : Bool :=
  !r.crosses || decide (b.windowBits = 16) && joins N r.before (r.length.toNat - r.before)

theorem Written.right {bs : List (BitVec 8)} (h : Written N z mem r bs) (hr : r.delivered N = true) :
    bs = r.bytes mem := by
  unfold Written at h
  split at h
  · next hx =>
      obtain ⟨x, rfl, hjoined⟩ := h
      simp only [delivered, hx, Bool.not_true, Bool.false_or, Bool.and_eq_true, decide_eq_true_eq] at hr
      rw [hjoined.right (by rw [length_secondBytes]; exact hr.2), bytes_crossing hr.1 hx]
  · exact h

/-- Otherwise a memory tells the difference. -/
theorem delivered_of_written (h : ∀ mem, Written N [] mem r (r.bytes mem)) : r.delivered N = true := by
  by_cases hx : r.crosses = true
  · have hlt := before_lt hx
    have hwritten (mem : BitVec 32 → BitVec 8) :
        ∃ x, r.bytes mem = r.firstBytes mem ++ x ∧ Joined N [] r.before (r.secondBytes mem) x := by
      have hmem := h mem
      rwa [Written, if_pos hx] at hmem
    have hbits : b.windowBits = 16 := by
      -- the byte at `base` is the only zero
      by_contra hne
      obtain ⟨x, hbytes, hjoined⟩ := hwritten fun a => if a = r.base then 0 else 1
      have hsecond : (r.secondBytes fun a => if a = r.base then 0 else 1)[0]? = some 0 := by
        rw [secondBytes, List.getElem?_map, List.getElem?_range (by omega)]
        simp
      have hzero : x[0]? = some 0 := by
        rcases hjoined.first rfl with hfirst | hfirst
        · rw [hfirst, hsecond]
        · exact hfirst
      have hbyte := congrArg (fun l => l[r.before]?) hbytes
      rw [List.getElem?_append_right (Nat.le_of_eq (length_firstBytes ..)), length_firstBytes, Nat.sub_self, hzero, bytes_eq,
        List.getElem?_map, List.getElem?_range hlt] at hbyte
      have hone : (if ringAddress b r.cmd.saddr r.before = r.base then 0 else 1) = (0 : BitVec 8) := Option.some.inj hbyte
      rw [if_neg (ringAddress_ne_base hne hx)] at hone
      exact absurd hone (by decide)
    have hjoins : joins N r.before (r.length.toNat - r.before) = true := by
      by_contra hfalse
      obtain ⟨x, hbytes, hjoined⟩ := hwritten fun _ => 1
      have hzero : 0 ∈ x := hjoined.wrong rfl (by rw [length_secondBytes]; exact Bool.eq_false_iff.mpr hfalse)
      have hmem : 0 ∈ r.bytes fun _ => 1 := by
        rw [hbytes]
        exact List.mem_append_right _ hzero
      obtain ⟨i, -, hone⟩ := List.mem_map.mp hmem
      exact absurd (show (1 : BitVec 8) = 0 from hone) (by decide)
    simp [delivered, hbits, hjoins]
  · simp [delivered, hx]

end AppRead

/-! ## The two processes -/

namespace RxAppMemAccessBreakdown

theorem waits : Waits rxAppMemAccessBreakdown {} := by
  rintro ⟨state, cmd, acc⟩ cmds
  cases state with
  | true => exact .inr fun x => rfl
  | false => cases cmds with
    | nil => exact .inl rfl
    | cons cmd cmds =>
      right
      intro x
      rw [List.cons_append]
      dsimp only [rxAppMemAccessBreakdown]
      split <;> rfl

theorem runs_as (rs : List (AppRead b)) :
    ∀ {s : RxAppMemAccessBreakdown}, s.rxAppBreakdown = false →
      ∃ os t, Rests rxAppMemAccessBreakdown {} s (rs.map (·.cmd)) os t [] ∧
        os.flatMap (·.outputMemAccess) = rs.flatMap (·.parts) ∧ os.flatMap (·.rxAppDoubleAccess) = rs.map (·.crosses) := by
  induction rs with
  | nil =>
    intro s hs
    exact ⟨[], s, ⟨.refl s _, by simp [rxAppMemAccessBreakdown, hs]⟩, rfl, rfl⟩
  | cons r rs ih =>
    intro s hs
    by_cases hx : r.crosses = true
    · have hcut : rxAppMemAccessBreakdown s (r.cmd :: rs.map (·.cmd)) =
          (⟨true, r.cmd, r.cmd.accLength⟩, rs.map (·.cmd),
            { outputMemAccess := [.new r.cmd.saddr r.cmd.accLength], rxAppDoubleAccess := [true] }) := by
        simp [rxAppMemAccessBreakdown, hs, show r.cmd.crosses64K = true from hx]
      obtain ⟨t, hsecond, ht⟩ : ∃ t : RxAppMemAccessBreakdown,
          rxAppMemAccessBreakdown ⟨true, r.cmd, r.cmd.accLength⟩ (rs.map (·.cmd)) = (t, rs.map (·.cmd),
            { outputMemAccess := [.new ((r.cmd.saddr >>> 16) <<< 16) (r.cmd.bbt.setWidth 16 - r.cmd.accLength)] }) ∧
          t.rxAppBreakdown = false := ⟨_, rfl, rfl⟩
      obtain ⟨os, u, hrest, hcmds, hflags⟩ := ih ht
      refine ⟨_, u, ⟨.call hcut (.call hsecond hrest.run), hrest.rest⟩, ?_, ?_⟩
      · rw [List.flatMap_cons, List.flatMap_cons, hcmds, List.flatMap_cons, AppRead.parts, if_pos hx]
        rfl
      · rw [List.flatMap_cons, List.flatMap_cons, hflags, List.map_cons, hx]
        rfl
    · have hissue : rxAppMemAccessBreakdown s (r.cmd :: rs.map (·.cmd)) =
          ({ s with rxAppTempCmd := r.cmd }, rs.map (·.cmd),
            { outputMemAccess := [r.cmd], rxAppDoubleAccess := [false] }) := by
        simp [rxAppMemAccessBreakdown, hs, show ¬r.cmd.crosses64K = true from hx]
      obtain ⟨os, t, hrest, hcmds, hflags⟩ := ih (s := { s with rxAppTempCmd := r.cmd }) hs
      refine ⟨_, t, ⟨.call hissue hrest.run, hrest.rest⟩, ?_, ?_⟩
      · rw [List.flatMap_cons, hcmds, List.flatMap_cons, AppRead.parts, if_neg hx]
      · rw [List.flatMap_cons, hflags, List.map_cons, Bool.eq_false_iff.mpr hx]
        rfl

end RxAppMemAccessBreakdown

instance : Append (RxAppMemDataReadIn N) :=
  ⟨fun i j => ⟨i.rxBufferReadData ++ j.rxBufferReadData, i.rxAppDoubleAccess ++ j.rxAppDoubleAccess⟩⟩

instance : Std.Associative (α := RxAppMemDataReadIn N) (· ++ ·) where
  assoc _ _ _ := congrArg₂ RxAppMemDataReadIn.mk (List.append_assoc ..) (List.append_assoc ..)

namespace RxAppMemDataRead

theorem waits : Waits (rxAppMemDataRead (N := N) z) [] := by
  rintro ⟨word, flag, state, offset, buffer⟩ ⟨words, flags⟩
  cases state with
  | RXAPP_IDLE => cases flags with
    | nil => exact .inl rfl
    | cons flag flags => cases words with
      | nil => exact .inl rfl
      | cons word words => exact .inr fun x => rfl
  | RXAPP_RESIDUE => exact .inr fun x => rfl
  | _ => cases words with
    | nil => exact .inl rfl
    | cons word words => exact .inr fun x => rfl

theorem idle_rests {s : RxAppMemDataRead N} (hs : s.rxAppState = .RXAPP_IDLE) :
    rxAppMemDataRead z s {} = (s, {}, []) := by
  simp [rxAppMemDataRead, hs]

theorem runs_as (hN8 : 8 ≤ N) (hN' : N ≤ 64) (rs : List (AppRead b)) :
    ∀ {packets : List (List (Word N))} {s : RxAppMemDataRead N}, s.rxAppState = .RXAPP_IDLE →
      List.Forall₂ (Answer mem) (rs.flatMap (·.parts)) packets →
      ∃ os t outs, Rests (rxAppMemDataRead z) [] s ⟨packets.flatten, rs.map (·.crosses)⟩ os t {} ∧
        Packets os.flatten outs ∧ List.Forall₂ (AppRead.Written N z mem) rs outs := by
  induction rs with
  | nil =>
    intro packets s hs h
    obtain rfl := List.forall₂_nil_left_iff.mp h
    exact ⟨[], s, [], ⟨.refl s _, idle_rests hs⟩, .nil, .nil⟩
  | cons r rs ih =>
    intro packets s hs h
    have hpos := r.length_pos
    rw [List.flatMap_cons] at h
    by_cases hx : r.crosses = true
    · obtain ⟨first, second, hparts, hfirst, hsecond, hread, hread'⟩ := AppRead.parts_crossing mem hx
      have hbefore := AppRead.before_pos hx
      have hlt := AppRead.before_lt hx
      rw [hparts] at h
      obtain ⟨ws, packets₁, hws, h₁, rfl⟩ := List.forall₂_cons_left_iff.mp h
      obtain ⟨ws', packets₂, hws', h₂, rfl⟩ := List.forall₂_cons_left_iff.mp h₁
      rw [Answer, if_neg (by omega), hread] at hws
      rw [Answer, if_neg (by omega), hread'] at hws'
      have htakes : Takes true s (true :: rs.map (·.crosses)) (rs.map (·.crosses)) := .inl ⟨hs, rfl⟩
      have hsome : 0 < (r.secondBytes mem).length := by
        rw [AppRead.length_secondBytes]
        omega
      obtain ⟨os, t, x, hrun, ht, hpacket, hjoined⟩ :=
        double (z := z) hN8 hN' hws.1 hws.2 hws'.1 hws'.2 hsome packets₂.flatten htakes
      obtain ⟨os', u, outs, hrest, hpackets, hwritten⟩ := ih ht h₂
      refine ⟨os ++ os', u, (r.firstBytes mem ++ x) :: outs, ⟨?_, hrest.rest⟩, ?_, .cons ?_ hwritten⟩
      · rw [List.map_cons, hx]
        exact hrun.trans hrest.run
      · rw [List.flatten_append]
        exact .cons hpacket hpackets
      · rw [AppRead.Written, if_pos hx]
        rw [AppRead.length_firstBytes] at hjoined
        exact ⟨x, rfl, hjoined⟩
    · have hparts : r.parts = [r.cmd] := if_neg hx
      have hbbt := r.bbt_toNat
      rw [hparts] at h
      obtain ⟨ws, packets₁, hws, h₁, rfl⟩ := List.forall₂_cons_left_iff.mp h
      rw [Answer, if_neg (by omega), AppRead.bytes_inside hx] at hws
      have htakes : Takes false s (false :: rs.map (·.crosses)) (rs.map (·.crosses)) := .inl ⟨hs, rfl⟩
      obtain ⟨os, t, hrun, ht, hos⟩ := single (z := z) hws.1 packets₁.flatten htakes
      obtain ⟨os', u, outs, hrest, hpackets, hwritten⟩ := ih ht h₁
      refine ⟨os ++ os', u, r.bytes mem :: outs, ⟨?_, hrest.rest⟩, ?_, .cons ?_ hwritten⟩
      · rw [List.map_cons, Bool.eq_false_iff.mpr hx]
        exact hrun.trans hrest.run
      · rw [List.flatten_append, hos]
        exact .cons hws.1 hpackets
      · rw [AppRead.Written, if_neg hx]

end RxAppMemDataRead

/-! ## What is delivered -/

namespace ReadNet

variable {t : ReadNet b}

/-- The reads of the application at rest: their sessions in order, the pointers behind them, the bytes of each in a packet
of its own, and those of one session a stretch of its buffer.  Commands, flags and data come in between the calls as they
like, from any memory, and a range that is out of bounds gives anything. -/
structure Delivered (N : Nat) (t : ReadNet b) : Prop where
  metas : t.metas = (serve t.opened t.requests).map (·.sessionID)
  pointers : ∀ sid, (t.table sid).appd = pointersAfter t.opened t.requests sid
  packets : ∀ (outside : List (BitVec 8)) (mem : BitVec 32 → BitVec 8) (xs : List (List MmCmd))
    (packets : List (List (Word N))) (ys : List (RxAppMemDataReadIn N)) (os s i os' s' i'),
    xs.foldl (· ++ ·) [] = t.cmds →
    Fed rxAppMemAccessBreakdown .init [] xs os s i → rxAppMemAccessBreakdown s i = (s, i, {}) →
    List.Forall₂ (Answer mem) (os.flatMap (·.outputMemAccess)) packets →
    ys.foldl (· ++ ·) {} = (⟨packets.flatten, os.flatMap (·.rxAppDoubleAccess)⟩ : RxAppMemDataReadIn N) →
    Fed (rxAppMemDataRead outside) (.init N) {} ys os' s' i' → rxAppMemDataRead outside s' i' = (s', i', []) →
    Packets os'.flatten ((serve t.opened t.requests).map (·.bytes mem))
  streams : ∀ (mem : BitVec 32 → BitVec 8) (sid : SessionID),
    ((serve t.opened t.requests).filter fun r => r.sessionID = sid).flatMap (·.bytes mem) =
      (List.range (asked sid t.requests)).map fun i => mem (pkgAddr b sid (t.opened sid + BitVec.ofNat _ i))

theorem written_right {rs : List (AppRead b)} {outs : List (List (BitVec 8))}
    (h : List.Forall₂ (AppRead.Written N z mem) rs outs) (hr : ∀ r ∈ rs, r.delivered N = true) :
    outs = rs.map (·.bytes mem) := by
  induction h with
  | nil => rfl
  | cons hw _ ih =>
    obtain ⟨hone, hmore⟩ := List.forall_mem_cons.mp hr
    rw [hw.right hone, ih hmore, List.map_cons]

theorem written_eq {rs : List (AppRead b)} {outs : List (List (BitVec 8))}
    (h : List.Forall₂ (AppRead.Written N z mem) rs outs) (hall : outs.flatten = (rs.map (·.bytes mem)).flatten) :
    ∀ r ∈ rs, AppRead.Written N z mem r (r.bytes mem) := by
  induction h with
  | nil => exact fun r hr => (List.not_mem_nil hr).elim
  | cons hw _ ih =>
    rw [List.map_cons, List.flatten_cons, List.flatten_cons] at hall
    obtain ⟨hfirst, hrest⟩ := List.append_inj hall hw.length
    exact List.forall_mem_cons.mpr ⟨hfirst ▸ hw, ih hrest⟩

theorem delivers (hN8 : 8 ≤ N) (hN' : N ≤ 64)
    (h : t.cmds = (serve t.opened t.requests).map (·.cmd) ∧ t.metas = (serve t.opened t.requests).map (·.sessionID) ∧
      ∀ sid, (t.table sid).appd = pointersAfter t.opened t.requests sid)
    (hr : ∀ r ∈ serve t.opened t.requests, r.delivered N = true) : t.Delivered N := by
  obtain ⟨hcmds, hmetas, hpointers⟩ := h
  refine ⟨hmetas, hpointers, ?_, fun mem sid => serve_stream mem sid⟩
  intro z mem xs packets ys os s i os' s' i' hxs hfed hend hpackets hys hfed' hend'
  obtain ⟨all, u, hrest, hout, hflags⟩ := RxAppMemAccessBreakdown.runs_as (serve t.opened t.requests) (s := .init) rfl
  rw [← hcmds, ← hxs] at hrest
  rw [← hfed.at_rest RxAppMemAccessBreakdown.waits hend hrest rfl] at hout hflags
  rw [hout] at hpackets
  obtain ⟨all', u', outs, hrest', hpacked, hwritten⟩ := RxAppMemDataRead.runs_as (z := z) hN8 hN'
    (serve t.opened t.requests) (s := .init N) rfl hpackets
  rw [← hflags, ← hys] at hrest'
  have hwords : os'.flatten = all'.flatten := by
    rw [← List.flatMap_id, ← List.flatMap_id]
    exact hfed'.at_rest RxAppMemDataRead.waits hend' hrest' rfl
  rw [hwords, ← written_right hwritten hr]
  exact hpacked

theorem Delivered.written (hN8 : 8 ≤ N) (hN' : N ≤ 64) (h : t.Delivered N)
    (hcmds : t.cmds = (serve t.opened t.requests).map (·.cmd)) (mem : BitVec 32 → BitVec 8) :
    ∀ r ∈ serve t.opened t.requests, AppRead.Written N [] mem r (r.bytes mem) := by
  obtain ⟨all, u, hrest, hout, hflags⟩ := RxAppMemAccessBreakdown.runs_as (serve t.opened t.requests) (s := .init) rfl
  obtain ⟨packets, hpackets⟩ := exists_answers (N := N) (by omega) mem ((serve t.opened t.requests).flatMap (·.parts))
  obtain ⟨all', u', outs, hrest', hpacked, hwritten⟩ := RxAppMemDataRead.runs_as (z := []) hN8 hN'
    (serve t.opened t.requests) (s := .init N) rfl hpackets
  have hfed : Fed rxAppMemAccessBreakdown .init [] [t.cmds] all u [] := Runs.fed (by rw [hcmds]; exact hrest.run)
  have hfed' : Fed (rxAppMemDataRead []) (.init N) {} [⟨packets.flatten, (serve t.opened t.requests).map (·.crosses)⟩]
      all' u' {} := Runs.fed hrest'.run
  have hright := h.packets [] mem _ packets _ all u [] all' u' {} rfl hfed hrest.rest (by rw [hout]; exact hpackets)
    (by rw [hflags]; rfl) hfed' hrest'.rest
  exact written_eq hwritten ((total_packets hpacked).symm.trans (total_packets hright))

/-- The application gets what it has asked for, where no read crosses 64 KiB, or the buffers have 64 KiB and the parts are
joined as they should be. -/
theorem delivered_iff (hN : N = 8 ∨ N = 16 ∨ N = 32 ∨ N = 64) (hb : b.rxDdrBypass = false)
    {table : SessionID → RxSarEntry b} (h : Reach step anyStep (init table) t) (hrest : t.AtRest) :
    t.Delivered N ↔ ∀ r ∈ serve t.opened t.requests, r.delivered N = true := by
  have hserved := served hb h hrest
  constructor
  · intro hall r hr
    exact AppRead.delivered_of_written fun mem => hall.written (by omega) (by omega) hserved.1 mem r hr
  · exact delivers (by omega) (by omega) hserved

/-- Session 1 is opened three bytes in front of a multiple of 64 KiB; 400 bytes arrive, and its application reads twice. -/
def twoReads (first second : BitVec 16) : List Label :=
  [.rxEng { sessionID := 1, recvd := 65533, write := true, init := true }, .table,
    .rxEng { sessionID := 1, recvd := 65933, write := true, init := false }, .table,
    .request ⟨1, first⟩, .rasi, .table, .rasi, .request ⟨1, second⟩, .rasi, .table, .table, .rasi, .table]

/-- What a run leaves behind: whether everything is empty, the reads, and whether they are delivered. -/
def summary (N : Nat) (t : ReadNet b) : Bool × List (Nat × Nat) × List Bool :=
  (!t.rasi.rasiFsmState && t.rasiIn.appRxDataReq.isEmpty && t.sarIn.txEng2rxSarReq.isEmpty &&
      t.sarIn.rxApp2rxSarUpdReq.isEmpty && t.sarIn.rxEng2rxSarUpdReq.isEmpty,
    t.cmds.map (fun c => (c.saddr.toNat, c.bbt.toNat)), (serve t.opened t.requests).map (·.delivered N))

theorem at_rest_of_summary {reads : List (Nat × Nat)} {flags : List Bool} (h : t.summary N = (true, reads, flags)) :
    t.AtRest := by
  have hempty := congrArg Prod.fst h
  simp only [summary, Bool.and_eq_true, Bool.not_eq_true', List.isEmpty_iff] at hempty
  obtain ⟨⟨⟨⟨hfsm, hreqs⟩, htx⟩, happ⟩, hrx⟩ := hempty
  exact at_rest_of hfsm hreqs htx happ hrx

def ringBuild : Build := { Build.sample with windowScale := false }

-- The first read wraps in the buffer of session 1.
theorem delivered_wrapping :
    ∃ t : ReadNet ringBuild, Reach step anyStep (init fun _ => default) t ∧ t.AtRest ∧
      t.cmds.map (fun c => (c.saddr.toNat, c.bbt.toNat)) = [(131069, 5), (65538, 300)] ∧ t.Delivered 8 := by
  have h : (run step (init fun _ => default : ReadNet ringBuild) (twoReads 5 300)).map (summary 8) =
      some (true, [(131069, 5), (65538, 300)], [true, true]) := by
    decide +kernel
  obtain ⟨t, ht, hp⟩ := Option.map_eq_some_iff.mp h
  have hr := reach_of_run ht
  have hrest := at_rest_of_summary hp
  have hflags : (serve t.opened t.requests).map (·.delivered 8) = [true, true] := congrArg (·.2.2) hp
  refine ⟨t, hr, hrest, congrArg (·.2.1) hp, (delivered_iff (.inl rfl) rfl hr hrest).mpr ?_⟩
  intro r hmem
  have hone := List.mem_map_of_mem (f := fun r => r.delivered 8) hmem
  rw [hflags] at hone
  simpa using hone

-- The last two bytes of the first read are those at address 262144 and 262145, not at 327680 and 327681.
theorem read_from_same_64K :
    ∃ t : ReadNet .sample, Reach step anyStep (init fun _ => default) t ∧ t.AtRest ∧
      t.cmds.map (fun c => (c.saddr.toNat, c.bbt.toNat)) = [(327677, 5), (327682, 300)] ∧ ¬t.Delivered 8 := by
  have h : (run step (init fun _ => default : ReadNet .sample) (twoReads 5 300)).map (summary 8) =
      some (true, [(327677, 5), (327682, 300)], [false, true]) := by
    decide +kernel
  obtain ⟨t, ht, hp⟩ := Option.map_eq_some_iff.mp h
  have hr := reach_of_run ht
  have hrest := at_rest_of_summary hp
  have hflags : (serve t.opened t.requests).map (·.delivered 8) = [false, true] := congrArg (·.2.2) hp
  refine ⟨t, hr, hrest, congrArg (·.2.1) hp, fun hall => ?_⟩
  have hfalse : false ∈ (serve t.opened t.requests).map (·.delivered 8) := by
    rw [hflags]
    exact List.mem_cons_self
  obtain ⟨r, hmem, hr'⟩ := List.mem_map.mp hfalse
  have hserved := served rfl hr hrest
  have htrue := AppRead.delivered_of_written fun mem => hall.written (by decide) (by decide) hserved.1 mem r hmem
  rw [htrue] at hr'
  exact nomatch hr'

end ReadNet

end FpgaNetworkStack.Toe
