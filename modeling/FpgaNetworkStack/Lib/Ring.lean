import FpgaNetworkStack.Lib.Serial

/-!
# Ring buffers

A ring of `2 ^ w` cells holds a moving window of an unbounded stream: position `n` of the stream
lives in cell `BitVec.ofNat w n`.
-/

namespace FpgaNetworkStack.Lib

variable {w : Nat} {α : Type*}

/-- Write a block from `addr` on, wrapping at the end of the ring. -/
def ringWrite (mem : BitVec w → α) (addr : BitVec w) : List α → BitVec w → α
  | [] => mem
  | x :: xs => ringWrite (fun a => if a = addr then x else mem a) (addr + 1) xs

/-- The ring holds the stream on positions `lo` to `hi`, excluded. -/
def Holds (mem : BitVec w → α) (stream : Nat → α) (lo hi : Nat) : Prop :=
  ∀ n, lo ≤ n → n < hi → mem (BitVec.ofNat w n) = stream n

/-- `len` elements of the stream from position `p` on. -/
def slice (stream : Nat → α) (p len : Nat) : List α := (List.range len).map fun i => stream (p + i)

@[simp] theorem slice_length (stream : Nat → α) (p len : Nat) : (slice stream p len).length = len := by
  simp [slice]

theorem slice_succ (stream : Nat → α) (p len : Nat) :
    slice stream p (len + 1) = stream p :: slice stream (p + 1) len := by
  simp only [slice, List.range_succ_eq_map, List.map_cons, List.map_map, Nat.add_zero]
  congr 2
  funext i
  simp only [Function.comp_apply]
  congr 1
  omega

/-- A cell outside the block keeps its value. -/
theorem ringWrite_outside (mem : BitVec w → α) (stream : Nat → α) {p len n : Nat}
    (h : n < p ∨ p + len ≤ n) (hlo : p + len ≤ n + 2 ^ w) (hhi : n < p + 2 ^ w) :
    ringWrite mem (BitVec.ofNat w p) (slice stream p len) (BitVec.ofNat w n) =
      mem (BitVec.ofNat w n) := by
  induction len generalizing mem p with
  | zero => rfl
  | succ len ih =>
    rw [slice_succ, ringWrite, show BitVec.ofNat w p + 1 = BitVec.ofNat w (p + 1) from
      (BitVec.ofNat_add p 1).symm, ih _ (by omega) (by omega) (by omega)]
    exact if_neg (ofNat_ne (by omega) (by omega) (by omega))

/-- A cell of the block gets its element of the stream. -/
theorem ringWrite_inside (mem : BitVec w → α) (stream : Nat → α) {p len n : Nat} (hlo : p ≤ n)
    (hhi : n < p + len) (hlen : len ≤ 2 ^ w) :
    ringWrite mem (BitVec.ofNat w p) (slice stream p len) (BitVec.ofNat w n) = stream n := by
  induction len generalizing mem p with
  | zero => omega
  | succ len ih =>
    rw [slice_succ, ringWrite, show BitVec.ofNat w p + 1 = BitVec.ofNat w (p + 1) from
      (BitVec.ofNat_add p 1).symm]
    rcases Nat.eq_or_lt_of_le hlo with rfl | hlt
    · rw [ringWrite_outside _ _ (by omega) (by omega) (by omega)]
      exact if_pos rfl
    · exact ih _ (by omega) (by omega) (by omega)

theorem Holds.empty (mem : BitVec w → α) (stream : Nat → α) {lo hi : Nat} (h : hi ≤ lo) :
    Holds mem stream lo hi := by
  intro n hlo hhi
  omega

theorem Holds.mono {mem : BitVec w → α} {stream : Nat → α} {lo hi lo' hi' : Nat}
    (h : Holds mem stream lo hi) (hlo : lo ≤ lo') (hhi : hi' ≤ hi) : Holds mem stream lo' hi' :=
  fun n h1 h2 => h n (by omega) (by omega)

theorem Holds.append {mem : BitVec w → α} {stream : Nat → α} {lo mid hi : Nat}
    (h : Holds mem stream lo mid) (h' : Holds mem stream mid hi) : Holds mem stream lo hi := by
  intro n hlo hhi
  rcases Nat.lt_or_ge n mid with hn | hn
  · exact h n hlo hn
  · exact h' n hn hhi

theorem Holds.write_self (mem : BitVec w → α) (stream : Nat → α) (p : Nat) {len : Nat}
    (hlen : len ≤ 2 ^ w) :
    Holds (ringWrite mem (BitVec.ofNat w p) (slice stream p len)) stream p (p + len) :=
  fun _ hlo hhi => ringWrite_inside mem stream hlo hhi hlen

/-- Writing a block of the stream keeps what is held of a window of at most `2 ^ w` positions. -/
theorem Holds.write {mem : BitVec w → α} {stream : Nat → α} {lo hi p len : Nat}
    (h : Holds mem stream lo hi) (base : Nat) (hlo : base ≤ lo) (hhi : hi ≤ base + 2 ^ w) (hp : base ≤ p)
    (hlen : p + len ≤ base + 2 ^ w) :
    Holds (ringWrite mem (BitVec.ofNat w p) (slice stream p len)) stream lo hi := by
  intro n h1 h2
  by_cases hin : p ≤ n ∧ n < p + len
  · exact ringWrite_inside mem stream hin.1 hin.2 (by omega)
  · rw [ringWrite_outside mem stream (by omega) (by omega) (by omega)]
    exact h n h1 h2

end FpgaNetworkStack.Lib
