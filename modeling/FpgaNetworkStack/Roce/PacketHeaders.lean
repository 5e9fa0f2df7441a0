import FpgaNetworkStack.Roce.Internals

/-!
# Words of a header

`packetHeader` keeps the bits of the packet before it: only the words it has been fed with since it was
cleared are those of the packet at hand.
-/

namespace FpgaNetworkStack.Roce

variable {W size : Nat}

/-- The header has been fed with `k` words. -/
structure HeaderAt {size : Nat} (h : PacketHeader W size) (k : Nat) : Prop where
  ready : h.ready = decide (size ≤ k * W)
  idx : h.ready = false → h.idx = k

theorem HeaderAt.parseWord {size k : Nat} {h : PacketHeader W size} (hk : HeaderAt h k) (w : BitVec W) :
    HeaderAt (h.parseWord w) (k + 1) := by
  unfold PacketHeader.parseWord
  cases hr : h.ready with
  | true =>
    have hle : size ≤ k * W := by simpa [hr] using hk.ready.symm
    have hle' : size ≤ (k + 1) * W := Nat.le_trans hle (Nat.mul_le_mul_right W (Nat.le_succ k))
    simp only [if_true]
    exact ⟨by simp [hr, hle'], by simp [hr]⟩
  | false =>
    have hidx := hk.idx hr
    simp only [Bool.false_eq_true, if_false, hidx]
    exact ⟨by rw [Nat.add_mul, Nat.one_mul], fun _ => rfl⟩

theorem headerAt_clear {size : Nat} (hsize : 0 < size) (h : PacketHeader W size) : HeaderAt h.clear 0 := by
  refine ⟨?_, fun _ => rfl⟩
  simp [PacketHeader.clear, Nat.pos_iff_ne_zero.mp hsize]

/-! ## The bits of a packet -/

/-- The words of a packet as one number, the first word in the low bits. -/
def packetNat : List (BitVec W) → Nat
  | [] => 0
  | w :: ws => 2 ^ W * packetNat ws + w.toNat

-- the bits of the words do not overlap
theorem testBit_packetNat_cons (w : BitVec W) (ws : List (BitVec W)) (i : Nat) :
    (packetNat (w :: ws)).testBit i = if i < W then w.getLsbD i else (packetNat ws).testBit (i - W) := by
  rw [packetNat, Nat.testBit_two_pow_mul_add _ w.isLt]
  rfl

theorem testBit_packetNat_append (ws : List (BitVec W)) (w : BitVec W) (i : Nat) :
    (packetNat (ws ++ [w])).testBit i =
      if i < ws.length * W then (packetNat ws).testBit i else w.getLsbD (i - ws.length * W) := by
  induction ws generalizing i with
  | nil =>
    rw [List.nil_append, testBit_packetNat_cons]
    by_cases hi : i < W
    · simp [hi]
    · simp [hi, packetNat, BitVec.getLsbD_of_ge w i (Nat.le_of_not_lt hi)]
  | cons x ws ih =>
    rw [List.cons_append, testBit_packetNat_cons, testBit_packetNat_cons, ih, List.length_cons, Nat.succ_mul]
    by_cases hi : i < W
    · have hi' : i < ws.length * W + W := Nat.lt_add_left _ hi
      simp only [hi, hi', if_true]
    · have hsub : i - W - ws.length * W = i - (ws.length * W + W) := by omega
      have hlt : i - W < ws.length * W ↔ i < ws.length * W + W := by omega
      simp only [hi, if_false, hlt, hsub]

/-- The header holds the bits of the words `ws` of a packet. -/
structure Parsed (h : PacketHeader W size) (ws : List (BitVec W)) : Prop where
  fed : HeaderAt h ws.length
  bits : ∀ i < size, i < ws.length * W → h.header.getLsbD i = (packetNat ws).testBit i

theorem parsed_clear (hsize : 0 < size) (h : PacketHeader W size) : Parsed h.clear [] := by
  refine ⟨headerAt_clear hsize h, ?_⟩
  intro i _ hi
  simp at hi

-- The word goes to its place, and the bits below it stay.
theorem getLsbD_parseWord {h : PacketHeader W size} (hr : h.ready = false) (w : BitVec W) {i : Nat} (hi : i < size) :
    (h.parseWord w).header.getLsbD i =
      if i < h.idx * W then h.header.getLsbD i
      else if i < h.idx * W + W then w.getLsbD (i - h.idx * W) else h.header.getLsbD i := by
  by_cases hlow : i < h.idx * W
  · simp [PacketHeader.parseWord, hr, hi, hlow]
  · by_cases hhigh : i < h.idx * W + W
    · have hlt : i - h.idx * W < W := by omega
      have hlt' : i - h.idx * W < size := by omega
      simp [PacketHeader.parseWord, hr, hi, hlow, hhigh, hlt]
    · have hge : ¬i - h.idx * W < W := by omega
      have hzero : w.getLsbD (i - h.idx * W) = false := BitVec.getLsbD_of_ge w _ (Nat.le_of_not_lt hge)
      simp [PacketHeader.parseWord, hr, hi, hlow, hhigh, hge, hzero]

theorem Parsed.parseWord {h : PacketHeader W size} {ws : List (BitVec W)} (hp : Parsed h ws) (w : BitVec W) :
    Parsed (h.parseWord w) (ws ++ [w]) := by
  refine ⟨by simpa using hp.fed.parseWord w, ?_⟩
  intro i hi hlen
  rw [testBit_packetNat_append]
  cases hr : h.ready with
  | true =>
    -- all bits of the header are those of words before
    have hfull : size ≤ ws.length * W := by simpa [hr] using hp.fed.ready.symm
    have hlt : i < ws.length * W := Nat.lt_of_lt_of_le hi hfull
    rw [if_pos hlt, PacketHeader.parseWord, if_pos hr]
    exact hp.bits i hi hlt
  | false =>
    rw [getLsbD_parseWord hr w hi, hp.fed.idx hr]
    by_cases hlt : i < ws.length * W
    · rw [if_pos hlt, if_pos hlt]
      exact hp.bits i hi hlt
    · have hword : i < ws.length * W + W := by
        rw [List.length_append, List.length_singleton, Nat.succ_mul] at hlen
        exact hlen
      rw [if_neg hlt, if_neg hlt, if_pos hword]

theorem Parsed.header_eq {h : PacketHeader W size} {ws : List (BitVec W)} (hp : Parsed h ws)
    (hfull : size ≤ ws.length * W) : h.header = BitVec.ofNat size (packetNat ws) := by
  apply BitVec.eq_of_getLsbD_eq
  intro i hi
  rw [hp.bits i hi (Nat.lt_of_lt_of_le hi hfull), BitVec.getLsbD_ofNat]
  simp [hi]

end FpgaNetworkStack.Roce
