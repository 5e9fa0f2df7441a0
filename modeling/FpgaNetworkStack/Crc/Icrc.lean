import FpgaNetworkStack.Axi.Headers
import FpgaNetworkStack.Axi.Keep
import FpgaNetworkStack.Lib.CyclicCode

/-!
# The ICRC of a packet (`mask_header_fields`, `compute_crc32`)

The header fields that change on the way are replaced by ones, and the CRC-32 goes over the packet then.  The words of a
packet are counted with eight bits.
-/

namespace FpgaNetworkStack.Crc

open Lib
open Axi (Lane Word Packet Packets Framed Unkept)

variable {N : Nat}

/-! ## `mask_header_fields` -/

def setOnes (mask : BitVec 424) (hi lo : Nat) : BitVec 424 :=
  mask ||| ((BitVec.allOnes (hi + 1 - lo)).setWidth 424 <<< lo)

/-- Traffic class, flow label and hop limit, the UDP checksum, and `Resv8a` of the BTH. -/
def oneMask : BitVec 424 :=
  [(3, 0), (11, 8), (31, 12), (63, 56), (383, 368), (423, 416)].foldl (fun mask f => setOnes mask f.1 f.2) 0

def orData (w : Word N) (bits : BitVec (8 * N)) : Word N where
  lanes := w.lanes.mapIdx fun k l => { l with data := l.data ||| bits.extractLsb' (8 * k) 8 }
  last := w.last
  length_eq := by rw [List.length_mapIdx, w.length_eq]

def headerLength (N : Nat) : BitVec 3 := BitVec.ofNat 3 (424 / (8 * N))

structure MaskHeader where
  aiWordCount : BitVec 8 := 0

@[ext]
structure MaskHeaderOut (N : Nat) where
  dataOut : List (Word N) := []
  maskedDataOut : List (Word N) := []

/-- What is put over the word with this number. -/
def maskBits (N wordCount : Nat) : BitVec (8 * N) :=
  if wordCount < (headerLength N).toNat then oneMask.extractLsb' (wordCount * (8 * N)) (8 * N)
  else if wordCount = (headerLength N).toNat then
    ((oneMask.extractLsb' (wordCount * (8 * N)) (424 - wordCount * (8 * N))).setWidth (424 % (8 * N))).setWidth (8 * N)
  else 0

def maskHeaderFields (s : MaskHeader) (input : List (Word N)) : MaskHeader × List (Word N) × MaskHeaderOut N :=
  match input with
  | [] => (s, [], {})
  | currWord :: rest =>
    (⟨if currWord.last then 0 else s.aiWordCount + 1⟩, rest,
      { dataOut := [currWord], maskedDataOut := [orData currWord (maskBits N s.aiWordCount.toNat)] })

/-! ## `compute_crc32` -/

inductive CrcFsmState where
  | FIRST | SECOND
  deriving DecidableEq, Repr

def polynomial : BitVec 32 := 0xEDB88320

structure ComputeCrc32 (N : Nat) where
  crcState : CrcFsmState := .FIRST
  crc : BitVec 32 := 0xdebb20e3
  currWord : Word N := .zero

def crcBit (crc : BitVec 32) : BitVec 32 :=
  let mask := -(crc &&& 1)
  (crc >>> 1) ^^^ (polynomial &&& mask)

def crcByte (crc : BitVec 32) (byte : BitVec 8) : BitVec 32 :=
  (List.range 8).foldl (fun crc _ => crcBit crc) (crc ^^^ byte.setWidth 32)

/-- The loop over some of the lanes. -/
def crcLanes (crc : BitVec 32) (lanes : List Lane) : BitVec 32 :=
  lanes.foldl (fun crc l => if l.keep then crcByte crc l.data else crc) crc

def computeCrc32 (s : ComputeCrc32 N) (input : List (Word N)) : ComputeCrc32 N × List (Word N) × List (BitVec 32) :=
  match s.crcState with
  | .FIRST =>
    match input with
    | [] => (s, [], [])
    | currWord :: rest => (⟨.SECOND, crcLanes s.crc (currWord.lanes.take (N / 2)), currWord⟩, rest, [])
  | .SECOND =>
    let crc := crcLanes s.crc (s.currWord.lanes.drop (N / 2))
    if s.currWord.last then (⟨.FIRST, 0xdebb20e3, s.currWord⟩, input, [crc]) else (⟨.FIRST, crc, s.currWord⟩, input, [])

theorem computeCrc32_waits : Waits (computeCrc32 (N := N)) [] := by
  intro s input
  obtain ⟨state, crc, currWord⟩ := s
  cases state with
  | FIRST =>
    cases input with
    | nil => exact .inl rfl
    | cons w ws => exact .inr fun _ => rfl
  | SECOND =>
    refine .inr fun more => ?_
    simp only [computeCrc32]
    cases currWord.last <;> rfl

/-! ## The definition bit by bit -/

/-- The bits of a packet, the lowest one of a byte first. -/
def bitsOf (bytes : List (BitVec 8)) : List Bool := bytes.flatMap fun b => (List.range 8).map b.getLsbD

/-- The bit-reflected CRC-32, not yet inverted. -/
def crc32 (bytes : List (BitVec 8)) : BitVec 32 := register polynomial 0xFFFFFFFF (bitsOf bytes)

/-- The bits of byte `i` that are in a variant field: the lower half of the first byte and the next three are traffic
class and flow label, then follow hop limit, UDP checksum and `Resv8a`. -/
def variantByte : Nat → BitVec 8
  | 0 => 0x0F
  | 1 | 2 | 3 | 7 | 46 | 47 | 52 => 0xFF
  | _ => 0

/-- The packet with ones in the variant fields. -/
def masked (bytes : List (BitVec 8)) : List (BitVec 8) := bytes.mapIdx fun i b => b ||| variantByte i

/-- What goes into a packet as its ICRC, not yet inverted: eight bytes of ones come first. -/
def icrc (bytes : List (BitVec 8)) : BitVec 32 := crc32 (List.replicate 8 0xFF ++ masked bytes)

theorem crcBit_eq (crc : BitVec 32) : crcBit crc = bitStep polynomial crc false := by
  have hlow : crc &&& 1 = (BitVec.ofBool (crc.getLsbD 0)).setWidth 32 := BitVec.and_one_eq_setWidth_ofBool_getLsbD
  rw [crcBit, bitStep, Bool.xor_false, hlow]
  cases crc.getLsbD 0
  · simp
  · have hall : polynomial &&& -((BitVec.ofBool true).setWidth 32) = polynomial := by decide
    rw [hall, if_pos rfl]

theorem crcBit_xor (crc d : BitVec 32) : crcBit (crc ^^^ d) = bitStep polynomial crc (d.getLsbD 0) ^^^ (d >>> 1) := by
  have hfirst := bitStep_xor polynomial crc d (d.getLsbD 0) (d.getLsbD 0)
  have hout : bitStep polynomial d (d.getLsbD 0) = d >>> 1 := by
    rw [bitStep, Bool.xor_self, if_neg Bool.false_ne_true]
    exact BitVec.xor_zero
  rw [crcBit_eq, ← hout, ← hfirst, Bool.xor_self]

/-- Induction on the number of bits that have gone in. -/
theorem crcBits_xor (crc d : BitVec 32) (n : Nat) :
    (List.range n).foldl (fun crc _ => crcBit crc) (crc ^^^ d) =
      register polynomial crc ((List.range n).map d.getLsbD) ^^^ (d >>> n) := by
  induction n with
  | zero =>
    show crc ^^^ d = crc ^^^ (d >>> 0)
    rw [BitVec.ushiftRight_zero]
  | succ n ih =>
    have hbit : (d >>> n).getLsbD 0 = d.getLsbD n := by rw [BitVec.getLsbD_ushiftRight, Nat.add_zero]
    rw [List.range_succ, List.foldl_append, ih, List.map_append, register_append, List.foldl_cons, List.foldl_nil,
      crcBit_xor, hbit, BitVec.shiftRight_add]
    rfl

theorem crcByte_eq (crc : BitVec 32) (byte : BitVec 8) :
    crcByte crc byte = register polynomial crc ((List.range 8).map byte.getLsbD) := by
  have hzero : (byte.setWidth 32) >>> 8 = 0#32 := by
    apply BitVec.eq_of_toNat_eq
    have hlt := byte.isLt
    rw [BitVec.toNat_ushiftRight, BitVec.toNat_setWidth, Nat.shiftRight_eq_div_pow, BitVec.toNat_zero]
    omega
  have hbits : (List.range 8).map (byte.setWidth 32).getLsbD = (List.range 8).map byte.getLsbD := by
    refine List.map_congr_left fun i hi => ?_
    have hlt := List.mem_range.mp hi
    rw [BitVec.getLsbD_setWidth, decide_eq_true (by omega), Bool.true_and]
  rw [crcByte, crcBits_xor, hbits, hzero]
  exact BitVec.xor_zero

theorem crcLanes_eq (crc : BitVec 32) (lanes : List Lane) :
    crcLanes crc lanes = register polynomial crc (bitsOf ((lanes.filter (·.keep)).map (·.data))) := by
  induction lanes generalizing crc with
  | nil => rfl
  | cons l lanes ih =>
    rw [crcLanes, List.foldl_cons]
    change crcLanes _ lanes = _
    rw [ih]
    by_cases hkeep : l.keep = true
    · rw [if_pos hkeep, List.filter_cons_of_pos hkeep, List.map_cons, crcByte_eq, ← register_append]
      rfl
    · rw [if_neg hkeep, List.filter_cons_of_neg hkeep]

theorem bitsOf_append (bytes more : List (BitVec 8)) : bitsOf (bytes ++ more) = bitsOf bytes ++ bitsOf more :=
  List.flatMap_append

theorem crc_init : register polynomial 0xFFFFFFFF (bitsOf (List.replicate 8 0xFF)) = 0xdebb20e3 := by decide +kernel

theorem icrc_eq (bytes : List (BitVec 8)) : icrc bytes = register polynomial 0xdebb20e3 (bitsOf (masked bytes)) := by
  rw [icrc, crc32, bitsOf_append, register_append, crc_init]

/-! ## What the mask does to a packet -/

/-- `WIDTH` is 64, 128, 256 or 512. -/
def Supported (N : Nat) : Prop := N = 8 ∨ N = 16 ∨ N = 32 ∨ N = 64

/-- The bytes from number `k` on, with the mask put over them again every 256 words. -/
def maskedFrom (N k : Nat) (bytes : List (BitVec 8)) : List (BitVec 8) :=
  bytes.mapIdx fun i b => b ||| variantByte ((k + i) % (256 * N))

theorem variantByte_zero {i : Nat} (hi : 53 ≤ i) : variantByte i = 0 := by
  unfold variantByte
  split <;> first | rfl | omega

theorem maskBits_byte (hN : Supported N) {c k : Nat} (hk : k < N) :
    (maskBits N c).extractLsb' (8 * k) 8 = variantByte (N * c + k) := by
  by_cases hc : c ≤ (headerLength N).toNat
  · -- the words of the header, at each width
    rcases hN with rfl | rfl | rfl | rfl
    · have hall : ∀ c ≤ 6, ∀ k < 8, (maskBits 8 c).extractLsb' (8 * k) 8 = variantByte (8 * c + k) := by decide +kernel
      exact hall c hc k hk
    · have hall : ∀ c ≤ 3, ∀ k < 16, (maskBits 16 c).extractLsb' (8 * k) 8 = variantByte (16 * c + k) := by
        decide +kernel
      exact hall c hc k hk
    · have hall : ∀ c ≤ 1, ∀ k < 32, (maskBits 32 c).extractLsb' (8 * k) 8 = variantByte (32 * c + k) := by
        decide +kernel
      exact hall c hc k hk
    · have hall : ∀ c ≤ 0, ∀ k < 64, (maskBits 64 c).extractLsb' (8 * k) 8 = variantByte (64 * c + k) := by
        decide +kernel
      exact hall c hc k hk
  · have hhigh : 53 ≤ N * c + k := by
      rcases hN with rfl | rfl | rfl | rfl
      · change ¬c ≤ 6 at hc
        omega
      · change ¬c ≤ 3 at hc
        omega
      · change ¬c ≤ 1 at hc
        omega
      · change ¬c ≤ 0 at hc
        omega
    rw [maskBits, if_neg (by omega), if_neg (by omega), variantByte_zero hhigh]
    exact BitVec.extractLsb'_zero

section

variable {w : Word N} {ws : List (Word N)} {bs : List (BitVec 8)}

theorem orData_lanes (bits : BitVec (8 * N)) {ls : List Lane} (hw : w.lanes = bs.map Lane.kept ++ ls) :
    (orData w bits).lanes = (bs.mapIdx fun k b => b ||| bits.extractLsb' (8 * k) 8).map Lane.kept ++
      ls.mapIdx fun k l => { l with data := l.data ||| bits.extractLsb' (8 * (k + bs.length)) 8 } := by
  show w.lanes.mapIdx _ = _
  rw [hw, List.mapIdx_append, List.length_map]
  congr 1
  apply List.ext_getElem
  · simp
  · intro k hk hk'
    simp [Lane.kept]

theorem orData_holds (h : w.Holds bs) (bits : BitVec (8 * N)) :
    (orData w bits).Holds (bs.mapIdx fun k b => b ||| bits.extractLsb' (8 * k) 8) := by
  obtain ⟨ls, hw, hunkept⟩ := h
  refine ⟨_, orData_lanes bits hw, fun l hl => ?_⟩
  obtain ⟨k, hk, rfl⟩ := List.getElem_of_mem hl
  rw [List.length_mapIdx] at hk
  rw [List.getElem_mapIdx]
  exact hunkept (ls[k]) (List.getElem_mem hk)

theorem word_masked (hN : Supported N) (hlen : bs.length ≤ N) (c : BitVec 8) :
    (bs.mapIdx fun k b => b ||| (maskBits N c.toNat).extractLsb' (8 * k) 8) = maskedFrom N (N * c.toNat) bs := by
  have hpos : 0 < N := by rcases hN with rfl | rfl | rfl | rfl <;> decide
  apply List.ext_getElem
  · simp [maskedFrom]
  · intro k hk hk'
    rw [List.length_mapIdx] at hk
    have hkN : k < N := by omega
    have hle : N * (c.toNat + 1) ≤ N * 256 := Nat.mul_le_mul_left N c.isLt
    have hmod : (N * c.toNat + k) % (256 * N) = N * c.toNat + k := by
      apply Nat.mod_eq_of_lt
      rw [Nat.mul_add_one] at hle
      omega
    simp only [maskedFrom, List.getElem_mapIdx]
    rw [hmod, maskBits_byte hN hkN]

theorem maskedFrom_append (k : Nat) (bytes more : List (BitVec 8)) :
    maskedFrom N k (bytes ++ more) = maskedFrom N k bytes ++ maskedFrom N (k + bytes.length) more := by
  rw [maskedFrom, List.mapIdx_append]
  congr 1
  apply List.ext_getElem
  · simp [maskedFrom]
  · intro i hi hi'
    simp only [maskedFrom, List.getElem_mapIdx]
    rw [Nat.add_assoc, Nat.add_comm bytes.length]

theorem maskedFrom_mod (k : Nat) (bytes : List (BitVec 8)) : maskedFrom N (k % (256 * N)) bytes = maskedFrom N k bytes := by
  rw [maskedFrom, maskedFrom]
  simp only [Nat.mod_add_mod]

theorem maskedFrom_next (c : BitVec 8) (bytes : List (BitVec 8)) :
    maskedFrom N (N * (c + 1).toNat) bytes = maskedFrom N (N * c.toNat + N) bytes := by
  rw [← maskedFrom_mod (N * c.toNat + N)]
  congr 1
  rw [BitVec.toNat_add, Nat.mul_comm 256, ← Nat.mul_add_one, Nat.mul_mod_mul_left]
  rfl

/-- The words of a packet from one of them on.  Induction on the packet. -/
theorem mask_words (hN : Supported N) (h : Packet ws bs) (rest : List (Word N)) :
    ∀ s : MaskHeader, ∃ os t, Runs maskHeaderFields s (ws ++ rest) os t rest ∧ t.aiWordCount = 0 ∧
      os.flatMap (·.dataOut) = ws ∧ Packet (os.flatMap (·.maskedDataOut)) (maskedFrom N (N * s.aiWordCount.toNat) bs) := by
  induction h with
  | @last w bs hlast hw =>
    intro s
    have hholds := orData_holds hw (maskBits N s.aiWordCount.toNat)
    rw [word_masked hN hw.length_le] at hholds
    refine ⟨_, _, .one rfl, if_pos hlast, rfl, ?_⟩
    rw [List.flatMap_singleton]
    exact .last hlast hholds
  | @cons w ws q bs' hlast hw _ ih =>
    intro s
    have hlen : q.length = N := Axi.Word.length_full hw
    have hholds := orData_holds (Axi.Word.holds_full hw) (maskBits N s.aiWordCount.toNat)
    rw [word_masked hN (Nat.le_of_eq hlen)] at hholds
    have hfull := hholds.full (by rw [maskedFrom, List.length_mapIdx, hlen])
    have hcall : maskHeaderFields s (w :: (ws ++ rest)) = (⟨s.aiWordCount + 1⟩, ws ++ rest,
        { dataOut := [w], maskedDataOut := [orData w (maskBits N s.aiWordCount.toNat)] }) := by
      simp only [maskHeaderFields, hlast]
      rfl
    obtain ⟨os, t, hrun, ht, hdata, hmasked⟩ := ih ⟨s.aiWordCount + 1⟩
    rw [maskedFrom_next] at hmasked
    refine ⟨_, t, .call hcall hrun, ht, ?_, ?_⟩
    · rw [List.flatMap_cons, hdata]
      rfl
    · rw [List.flatMap_cons, maskedFrom_append, hlen]
      exact .cons hlast hfull hmasked

/-! ## The register of a packet -/

theorem crcLanes_halves (crc : BitVec 32) (w : Word N) :
    crcLanes (crcLanes crc (w.lanes.take (N / 2))) (w.lanes.drop (N / 2)) = register polynomial crc (bitsOf w.bytes) := by
  have happend : crcLanes (crcLanes crc (w.lanes.take (N / 2))) (w.lanes.drop (N / 2)) = crcLanes crc w.lanes := by
    rw [crcLanes, crcLanes, crcLanes, ← List.foldl_append, List.take_append_drop]
  rw [happend, crcLanes_eq]
  rfl

/-- The words of a packet from one of them on.  Induction on the packet. -/
theorem crc_words (h : Packet ws bs) (rest : List (Word N)) :
    ∀ {s : ComputeCrc32 N}, s.crcState = .FIRST →
      ∃ os t, Runs computeCrc32 s (ws ++ rest) os t rest ∧ t.crcState = .FIRST ∧ t.crc = 0xdebb20e3 ∧
        os.flatten = [register polynomial s.crc (bitsOf bs)] := by
  have hfirst (s : ComputeCrc32 N) (hs : s.crcState = .FIRST) (w : Word N) (more : List (Word N)) :
      computeCrc32 s (w :: more) = (⟨.SECOND, crcLanes s.crc (w.lanes.take (N / 2)), w⟩, more, []) := by
    simp only [computeCrc32, hs]
  induction h with
  | @last w bs hlast hw =>
    intro s hs
    have hsecond : computeCrc32 ⟨.SECOND, crcLanes s.crc (w.lanes.take (N / 2)), w⟩ rest =
        (⟨.FIRST, 0xdebb20e3, w⟩, rest, [register polynomial s.crc (bitsOf bs)]) := by
      simp only [computeCrc32, hlast, if_true]
      rw [crcLanes_halves, hw.bytes_eq]
    exact ⟨_, _, .call (hfirst s hs w rest) (.one hsecond), rfl, rfl, rfl⟩
  | @cons w ws q bs' hlast hw _ ih =>
    intro s hs
    have hsecond : computeCrc32 ⟨.SECOND, crcLanes s.crc (w.lanes.take (N / 2)), w⟩ (ws ++ rest) =
        (⟨.FIRST, register polynomial s.crc (bitsOf q), w⟩, ws ++ rest, []) := by
      simp only [computeCrc32, hlast, Bool.false_eq_true, if_false]
      rw [crcLanes_halves, (Axi.Word.holds_full hw).bytes_eq]
    obtain ⟨os, t, hrun, ht, hcrc, hout⟩ := ih (s := ⟨.FIRST, register polynomial s.crc (bitsOf q), w⟩) rfl
    refine ⟨_, t, .call (hfirst s hs w (ws ++ rest)) (.call hsecond hrun), ht, hcrc, ?_⟩
    rw [List.flatten_cons, List.flatten_cons, List.nil_append, List.nil_append, hout, bitsOf_append, register_append]

end

end FpgaNetworkStack.Crc
