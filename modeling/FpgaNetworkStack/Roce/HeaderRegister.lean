import FpgaNetworkStack.Axi.Headers
import FpgaNetworkStack.Roce.TxHeaders

/-!
# A header goes out in words and comes back (`packet.hpp`)

`consumeWord` writes the next bits of a header into a word, and `parseWord` collects the words of a header.  The two
find the last word in different ways, and what a word holds above the header does not matter.
-/

namespace FpgaNetworkStack.Roce

variable {W size : Nat}

namespace PacketHeader

/-- `consumeWord`: the header, the word and the number of bytes that are left, of which 8 bits are returned. -/
def consumeWord (h : PacketHeader W size) (w : BitVec W) : PacketHeader W size × BitVec W × BitVec 8 :=
  if (h.idx + 1) * W ≤ size then
    ({ h with idx := h.idx + 1 }, h.header.extractLsb' (h.idx * W) W, BitVec.ofNat 8 ((size - (h.idx + 1) * W) / 8))
  else if h.idx * W < size then
    ({ h with idx := h.idx + 1 },
      (w &&& ~~~(BitVec.allOnes (size % W)).setWidth W) ||| (h.header.extractLsb' (h.idx * W) (size % W)).setWidth W, 0)
  else (h, w, 0)

/-- What is written into the words and returned, call by call. -/
def consumeWords : PacketHeader W size → List (BitVec W) → List (BitVec W × BitVec 8)
  | _, [] => []
  | h, w :: ws => (h.consumeWord w).2 :: consumeWords (h.consumeWord w).1 ws

def parseWords (h : PacketHeader W size) (ws : List (BitVec W)) : PacketHeader W size := ws.foldl parseWord h

end PacketHeader

variable {h g : PacketHeader W size} {x : BitVec size}

/-! ## Out -/

/-- The header `x` after `k` calls: `idx` stays where the header ends. -/
structure Consumed (x : BitVec size) (h : PacketHeader W size) (k : Nat) : Prop where
  header : h.header = x
  idx : h.idx = k ∨ size ≤ h.idx * W ∧ h.idx ≤ k

theorem consumed_clear (h : PacketHeader W size) : Consumed h.header h.clear 0 := ⟨rfl, .inl rfl⟩

theorem Consumed.next {k : Nat} (hW : 0 < W) (hk : Consumed x h k) (w : BitVec W) :
    Consumed x (h.consumeWord w).1 (k + 1) := by
  obtain ⟨hheader, hidx⟩ := hk
  unfold PacketHeader.consumeWord
  rcases hidx with hidx | ⟨hend, hle⟩
  · split
    · exact ⟨hheader, .inl (congrArg (· + 1) hidx)⟩
    · split
      · exact ⟨hheader, .inl (congrArg (· + 1) hidx)⟩
      · next hend => exact ⟨hheader, .inr ⟨Nat.le_of_not_lt hend, Nat.le_succ_of_le (Nat.le_of_eq hidx)⟩⟩
  · have hfull : ¬(h.idx + 1) * W ≤ size := by
      rw [Nat.succ_mul]
      omega
    rw [if_neg hfull, if_neg (Nat.not_lt.mpr hend)]
    exact ⟨hheader, .inr ⟨hend, Nat.le_succ_of_le hle⟩⟩

/-- The bits of the header take the place of the low ones, as far as there are any. -/
theorem getLsbD_consumeWord (h : PacketHeader W size) (w : BitVec W) {j : Nat} (hj : j < W) :
    (h.consumeWord w).2.1.getLsbD j =
      if h.idx * W + j < size then h.header.getLsbD (h.idx * W + j) else w.getLsbD j := by
  unfold PacketHeader.consumeWord
  split
  · next hfull =>
      rw [Nat.succ_mul] at hfull
      rw [if_pos (by omega)]
      simp [hj]
  · next hfull =>
      rw [Nat.succ_mul] at hfull
      split
      · next hpart =>
          have hmod : size % W = size - h.idx * W := by
            have hsize : size = (size - h.idx * W) + h.idx * W := by omega
            calc size % W = ((size - h.idx * W) + h.idx * W) % W := by rw [← hsize]
              _ = (size - h.idx * W) % W := Nat.add_mul_mod_self_right _ _ _
              _ = size - h.idx * W := Nat.mod_eq_of_lt (by omega)
          have hiff : h.idx * W + j < size ↔ j < size % W := by omega
          simp only [hiff]
          by_cases hlow : j < size % W
          · simp [hj, hlow]
          · simp [hj, hlow]
      · next hend => rw [if_neg (by omega)]

theorem consumeWord_end (hend : size ≤ h.idx * W) (hW : 0 < W) (w : BitVec W) : h.consumeWord w = (h, w, 0) := by
  have hfull : ¬(h.idx + 1) * W ≤ size := by
    rw [Nat.succ_mul]
    omega
  rw [PacketHeader.consumeWord, if_neg hfull, if_neg (Nat.not_lt.mpr hend)]

theorem consumeWord_length (h : PacketHeader W size) (w : BitVec W) :
    (h.consumeWord w).2.2 = BitVec.ofNat 8 (remainingLength W size h.idx) := by
  unfold PacketHeader.consumeWord remainingLength
  split
  · rfl
  · split <;> rfl

theorem remainingLength_eq_zero (hW : 8 ∣ W) (hsize : 8 ∣ size) (k : Nat) :
    remainingLength W size k = 0 ↔ size ≤ (k + 1) * W := by
  unfold remainingLength
  have hdvd : 8 ∣ size - (k + 1) * W := Nat.dvd_sub hsize (Nat.dvd_mul_left_of_dvd hW _)
  split
  · rw [Nat.div_eq_zero_iff]
    omega
  · exact iff_of_true rfl (by omega)

theorem consumeWord_zero (hW : 8 ∣ W) (hsize : 8 ∣ size) (hrest : (size - W) / 8 ≤ 255) (h : PacketHeader W size)
    (w : BitVec W) : (h.consumeWord w).2.2 = 0 ↔ size ≤ (h.idx + 1) * W := by
  have hlt : remainingLength W size h.idx < 2 ^ 8 := by
    unfold remainingLength
    rw [Nat.succ_mul]
    split <;> omega
  rw [consumeWord_length, ← remainingLength_eq_zero hW hsize]
  constructor
  · intro hzero
    have hnat := congrArg BitVec.toNat hzero
    rw [BitVec.toNat_ofNat, Nat.mod_eq_of_lt hlt] at hnat
    exact hnat
  · intro hzero
    rw [hzero]
    rfl

/-- Call `i` writes the bits from `i * W` on. -/
structure Written (x : BitVec size) (i : Nat) (w w' : BitVec W) (r : BitVec 8) : Prop where
  bits : ∀ j < W, w'.getLsbD j = if i * W + j < size then x.getLsbD (i * W + j) else w.getLsbD j
  after : size ≤ i * W → w' = w
  zero : 8 ∣ W → (r = 0 ↔ size ≤ (i + 1) * W)

theorem Consumed.written {k : Nat} (hW : 0 < W) (hsize : 8 ∣ size) (hrest : (size - W) / 8 ≤ 255) (hk : Consumed x h k)
    (w : BitVec W) : Written x k w (h.consumeWord w).2.1 (h.consumeWord w).2.2 := by
  obtain ⟨rfl, rfl | ⟨hend, hle⟩⟩ := hk
  · refine ⟨fun j hj => getLsbD_consumeWord h w hj, fun hend => ?_, fun h8 => consumeWord_zero h8 hsize hrest h w⟩
    rw [consumeWord_end hend hW]
  · have hend' : size ≤ k * W := Nat.le_trans hend (Nat.mul_le_mul_right W hle)
    rw [consumeWord_end hend hW]
    refine ⟨fun j _ => ?_, fun _ => rfl, fun _ => iff_of_true rfl ?_⟩
    · rw [if_neg (by omega)]
    · rw [Nat.succ_mul]
      omega

theorem Consumed.words (hW : 0 < W) (hsize : 8 ∣ size) (hrest : (size - W) / 8 ≤ 255) (ws : List (BitVec W)) :
    ∀ {h : PacketHeader W size} {k : Nat}, Consumed x h k → ∀ i w, ws[i]? = some w →
      ∃ w' r, (h.consumeWords ws)[i]? = some (w', r) ∧ Written x (k + i) w w' r := by
  induction ws with
  | nil =>
    intro h k _ i w hw
    cases hw
  | cons v ws ih =>
    intro h k hk i w hw
    cases i with
    | zero =>
      cases Option.some.inj hw
      exact ⟨_, _, rfl, hk.written hW hsize hrest v⟩
    | succ i =>
      obtain ⟨w', r, hresult, hwritten⟩ := ih (hk.next hW v) i w hw
      rw [Nat.add_right_comm] at hwritten
      exact ⟨w', r, hresult, hwritten⟩

theorem length_consumeWords (ws : List (BitVec W)) :
    ∀ h : PacketHeader W size, (h.consumeWords ws).length = ws.length := by
  induction ws with
  | nil => exact fun _ => rfl
  | cons w ws ih => exact fun h => congrArg (· + 1) (ih _)

/-! ## In a word of a stream

The stages that write a header over the first lanes of a word take its next bytes.
-/

section

open Axi (Lane Word octets overlay)

variable {N n : Nat}

theorem getD_overlay (bytes : List (BitVec 8)) (w : Word N) {k : Nat} (hk : k < N) :
    ((overlay bytes w).lanes.map (·.data)).getD k 0 =
      if k < bytes.length then bytes.getD k 0 else (w.lanes.map (·.data)).getD k 0 := by
  have hw : k < (w.lanes.map (·.data)).length := by
    rw [List.length_map, w.length_eq]
    exact hk
  have ho : k < ((overlay bytes w).lanes.map (·.data)).length := by
    rw [List.length_map, (overlay bytes w).length_eq]
    exact hk
  rw [List.getD_eq_getElem (w.lanes.map (·.data)) 0 hw, List.getD_eq_getElem _ 0 ho, List.getElem_map, List.getElem_map]
  rw [List.length_map] at hw
  simp only [overlay]
  by_cases hbyte : k < bytes.length
  · rw [if_pos hbyte, List.getD_eq_getElem bytes 0 hbyte, List.getElem_append_left (by rw [List.length_zipWith]; omega),
      List.getElem_zipWith]
  · have hmin : bytes.length ≤ k := Nat.le_of_not_lt hbyte
    rw [if_neg hbyte, List.getElem_append_right (by rw [List.length_zipWith]; omega), List.getElem_drop]
    congr 2
    rw [List.length_zipWith]
    omega

/-- The next bytes of the header over the first lanes of a word are what `consumeWord` writes. -/
theorem data_overlay (h : PacketHeader (8 * N) (8 * n)) (w : Word N) :
    (overlay (((octets n h.header).drop (h.idx * N)).take N) w).data = (h.consumeWord w.data).2.1 := by
  apply BitVec.eq_of_getLsbD_eq
  intro b hb
  have hsplit : b = 8 * (b / 8) + b % 8 := (Nat.div_add_mod b 8).symm
  have hbit : b % 8 < 8 := Nat.mod_lt b (by decide)
  have hlane : b / 8 < N := Nat.div_lt_of_lt_mul hb
  have hidx : h.idx * (8 * N) = 8 * (h.idx * N) := Nat.mul_left_comm _ _ _
  have hlen : (((octets n h.header).drop (h.idx * N)).take N).length = min N (n - h.idx * N) := by
    rw [List.length_take, List.length_drop, Axi.length_octets]
  rw [getLsbD_consumeWord h _ hb, Word.data, Word.data, BitVec.getLsbD_ofNat, BitVec.getLsbD_ofNat, decide_eq_true hb,
    Bool.true_and, Bool.true_and, hsplit, Axi.testBit_packetNat _ _ hbit, Axi.testBit_packetNat _ _ hbit,
    getD_overlay _ w hlane, hlen, hidx]
  by_cases hin : h.idx * N + b / 8 < n
  · have hk : b / 8 < (((octets n h.header).drop (h.idx * N)).take N).length := by omega
    rw [if_pos (by omega), if_pos (by omega), List.getD_eq_getElem _ _ hk, List.getElem_take, List.getElem_drop]
    simp only [octets, List.getElem_map, List.getElem_range, BitVec.getLsbD_extractLsb', hbit, decide_true, Bool.true_and]
    congr 1
    omega
  · rw [if_neg (by omega), if_neg (by omega)]

end

/-! ## And back -/

theorem parsed_words {vs : List (BitVec W)} (hp : Parsed g vs) (ws : List (BitVec W)) :
    Parsed (g.parseWords ws) (vs ++ ws) := by
  induction ws generalizing g vs with
  | nil =>
    rw [List.append_nil]
    exact hp
  | cons w ws ih =>
    have hrest := ih (hp.parseWord w)
    rw [List.append_assoc] at hrest
    exact hrest

theorem parseWords_ready (hg : g.ready = true) (ws : List (BitVec W)) : g.parseWords ws = g := by
  induction ws with
  | nil => rfl
  | cons w ws ih =>
    have hparse : g.parseWord w = g := by rw [PacketHeader.parseWord, if_pos hg]
    rw [PacketHeader.parseWords, List.foldl_cons, hparse]
    exact ih

theorem testBit_packetNat_word (ws : List (BitVec W)) {i j : Nat} {w : BitVec W} (hw : ws[i]? = some w) (hj : j < W) :
    (packetNat ws).testBit (i * W + j) = w.getLsbD j := by
  induction ws generalizing i with
  | nil => cases hw
  | cons v ws ih =>
    rw [testBit_packetNat_cons]
    cases i with
    | zero =>
      cases Option.some.inj hw
      rw [Nat.zero_mul, Nat.zero_add, if_pos hj]
    | succ i =>
      have hge : ¬(i + 1) * W + j < W := by
        rw [Nat.succ_mul]
        omega
      have hsub : (i + 1) * W + j - W = i * W + j := by
        rw [Nat.succ_mul]
        omega
      rw [if_neg hge, hsub]
      exact ih hw

theorem packetNat_of_bits (hW : 0 < W) {ws : List (BitVec W)} (hfull : size ≤ ws.length * W)
    (h : ∀ i w j, ws[i]? = some w → j < W → i * W + j < size → w.getLsbD j = x.getLsbD (i * W + j)) :
    BitVec.ofNat size (packetNat ws) = x := by
  apply BitVec.eq_of_getLsbD_eq
  intro b hb
  have hsplit : b / W * W + b % W = b := by
    rw [Nat.mul_comm]
    exact Nat.div_add_mod b W
  have hword : b / W < ws.length := (Nat.div_lt_iff_lt_mul hW).mpr (Nat.lt_of_lt_of_le hb hfull)
  have hbit := h (b / W) _ (b % W) (List.getElem?_eq_getElem hword) (Nat.mod_lt b hW) (by omega)
  have htest := testBit_packetNat_word ws (List.getElem?_eq_getElem hword) (Nat.mod_lt b hW)
  rw [hsplit] at hbit htest
  rw [BitVec.getLsbD_ofNat, htest, hbit, decide_eq_true hb, Bool.true_and]

/-! ## The round trip -/

theorem words_le_iff (hW : 0 < W) (k : Nat) : (size + W - 1) / W ≤ k ↔ size ≤ k * W := by
  rw [Nat.div_le_iff_le_mul_add_pred hW, Nat.mul_comm k]
  omega

/-- Each call writes its bits of the header and leaves the others; the words make a header again, which is complete with
the last of them and takes no more. -/
theorem header_round_trip (hW : 0 < W) (hsize : 0 < size) (h8 : 8 ∣ size) (hrest : (size - W) / 8 ≤ 255)
    (h g : PacketHeader W size) (ws : List (BitVec W)) :
    (∀ i w, ws[i]? = some w → ∃ w' r, (h.clear.consumeWords ws)[i]? = some (w', r) ∧ Written h.header i w w' r) ∧
      ∀ k ≤ ws.length,
        ((g.clear.parseWords (((h.clear.consumeWords ws).map (·.1)).take k)).ready = true ↔ (size + W - 1) / W ≤ k) ∧
        ((size + W - 1) / W ≤ k →
          (g.clear.parseWords (((h.clear.consumeWords ws).map (·.1)).take k)).header = h.header ∧
          ∀ later, (g.clear.parseWords (((h.clear.consumeWords ws).map (·.1)).take k)).parseWords later =
            g.clear.parseWords (((h.clear.consumeWords ws).map (·.1)).take k)) := by
  have hwritten (i : Nat) (w : BitVec W) (hw : ws[i]? = some w) :
      ∃ w' r, (h.clear.consumeWords ws)[i]? = some (w', r) ∧ Written h.header i w w' r := by
    have hall := (consumed_clear h).words hW h8 hrest ws i w hw
    rw [Nat.zero_add] at hall
    exact hall
  refine ⟨hwritten, fun k hk => ?_⟩
  generalize hvs : ((h.clear.consumeWords ws).map (·.1)).take k = vs
  have hlen : vs.length = k := by
    rw [← hvs, List.length_take, List.length_map, length_consumeWords, Nat.min_eq_left hk]
  have hparsed : Parsed (g.clear.parseWords vs) vs := parsed_words (parsed_clear hsize g) vs
  have hready := hparsed.fed.ready
  rw [hlen] at hready
  rw [words_le_iff hW, hready, decide_eq_true_eq]
  refine ⟨Iff.rfl, fun hfull => ⟨?_, parseWords_ready (hready.trans (decide_eq_true hfull))⟩⟩
  rw [hparsed.header_eq (by rw [hlen]; exact hfull)]
  refine packetNat_of_bits hW (by rw [hlen]; exact hfull) fun i w j hw hj hin => ?_
  -- word `i` was written by call `i`
  have hi : i < k := by
    rw [← hlen]
    exact (List.getElem?_eq_some_iff.mp hw).1
  rw [← hvs, List.getElem?_take_of_lt hi, List.getElem?_map] at hw
  obtain ⟨⟨w', r⟩, hresult, rfl⟩ := Option.map_eq_some_iff.mp hw
  obtain ⟨w'', r', hresult', hbits⟩ := hwritten i _ (List.getElem?_eq_getElem (Nat.lt_of_lt_of_le hi hk))
  rw [hresult] at hresult'
  cases hresult'
  rw [hbits.bits j hj, if_pos hin]

/-- A register for 20 bytes that was used before. -/
def twentyBytes : PacketHeader 128 160 := ⟨true, 7, 0x0123456789#160 <<< 120⟩

/-- In words of 16 bytes the second one keeps its upper bits. -/
theorem header_round_trip_twenty :
    (∃ w' r, (twentyBytes.clear.consumeWords [0, .allOnes 128])[1]? = some (w', r) ∧
      Written twentyBytes.header 1 (.allOnes 128) w' r) ∧
    (twentyBytes.clear.parseWords (((twentyBytes.clear.consumeWords [0, .allOnes 128]).map (·.1)).take 2)).header =
      twentyBytes.header :=
  have hall := header_round_trip (by decide) (by decide) (by decide) (by decide) twentyBytes twentyBytes [0, .allOnes 128]
  ⟨hall.1 1 _ rfl, ((hall.2 2 (by decide)).2 (by decide)).1⟩

end FpgaNetworkStack.Roce
