import FpgaNetworkStack.Lib.Ring

/-!
# The receive window with one gap

The abstract receive buffer: the stream is delivered up to `recvd`, and at most one premature block
`[offset, head)` is kept beyond it.  Positions are unbounded; the bounds that make every reachable
window fit a ring of `size` cells are fields of the structure.
-/

namespace FpgaNetworkStack.Toe

open Lib

structure RxWindow (size : Nat) where
  appd : Nat
  recvd : Nat
  offset : Nat
  head : Nat
  gap : Bool
  appd_le : appd ≤ recvd
  closed : gap = false → head = recvd
  opened : gap = true → recvd < offset ∧ offset < head
  bounded : head < appd + size

namespace RxWindow

variable {size : Nat} (w : RxWindow size)

theorem recvd_le_head : w.recvd ≤ w.head := by
  cases h : w.gap with
  | false => exact (w.closed h).ge
  | true => have := w.opened h; omega

def start (n : Nat) (h : 0 < size) : RxWindow size :=
  ⟨n, n, n, n, false, Nat.le_refl n, fun _ => rfl, fun h => (Bool.false_ne_true h).elim, by omega⟩

/-- The application takes `n` delivered bytes. -/
def take (n : Nat) (h : w.appd + n ≤ w.recvd) : RxWindow size :=
  { w with
    appd := w.appd + n
    appd_le := h
    bounded := Nat.lt_of_lt_of_le w.bounded (by omega) }

def extend (len : Nat) (hg : w.gap = false) (h : w.recvd + len < w.appd + size) : RxWindow size :=
  { w with
    recvd := w.recvd + len, head := w.recvd + len
    appd_le := Nat.le_trans w.appd_le (Nat.le_add_right ..)
    closed := fun _ => rfl
    opened := fun ho => (Bool.false_ne_true (hg.symm.trans ho)).elim
    bounded := h }

/-- A first block arrives ahead of the stream. -/
def premature (p len : Nat) (hp : w.recvd < p) (hl : 0 < len) (h : p + len < w.appd + size) :
    RxWindow size :=
  { w with
    offset := p, head := p + len, gap := true
    closed := fun hc => (Bool.false_ne_true hc.symm).elim
    opened := fun _ => ⟨hp, by omega⟩
    bounded := h }

/-- The premature block grows at its end. -/
def extendHead (len : Nat) (hg : w.gap = true) (h : w.head + len < w.appd + size) : RxWindow size :=
  { w with
    head := w.head + len
    closed := fun hc => (Bool.false_ne_true (hc.symm.trans hg)).elim
    opened := fun ho => ⟨(w.opened ho).1, Nat.lt_of_lt_of_le (w.opened ho).2 (Nat.le_add_right ..)⟩
    bounded := h }

/-- The missing bytes arrive and the premature block is delivered with them. -/
def close : RxWindow size :=
  { w with
    recvd := w.head, gap := false
    appd_le := Nat.le_trans w.appd_le w.recvd_le_head
    closed := fun _ => rfl
    opened := fun ho => (Bool.false_ne_true ho).elim }

/-- The first `len` of the missing bytes arrive. -/
def shrink (len : Nat) (hg : w.gap = true) (h : w.recvd + len < w.offset) : RxWindow size :=
  { w with
    recvd := w.recvd + len
    appd_le := Nat.le_trans w.appd_le (Nat.le_add_right ..)
    closed := fun hc => (Bool.false_ne_true (hc.symm.trans hg)).elim
    opened := fun ho => ⟨h, (w.opened ho).2⟩ }

/-- What accepting `len` bytes at position `p` can do to the window. -/
inductive Deliver (p len : Nat) : RxWindow size → Prop
  | extend (hp : p = w.recvd) (hg) (h) : Deliver p len (w.extend len hg h)
  | premature (hg : w.gap = false) (hp) (hl) (h) : Deliver p len (w.premature p len hp hl h)
  | extendHead (hp : p = w.head) (hg) (h) : Deliver p len (w.extendHead len hg h)
  | close (hg : w.gap = true) (hp : p = w.recvd) (hl : w.recvd + len = w.offset) :
      Deliver p len w.close
  | shrink (hp : p = w.recvd) (hg) (h) : Deliver p len (w.shrink len hg h)

variable {w}

theorem Deliver.appd_eq {p len : Nat} {w' : RxWindow size} (h : w.Deliver p len w') :
    w'.appd = w.appd := by
  cases h <;> rfl

theorem Deliver.range {p len : Nat} {w' : RxWindow size} (h : w.Deliver p len w') :
    w.appd ≤ p ∧ p + len ≤ w.appd + size := by
  have h1 := w.appd_le
  have h2 := w.bounded
  have h3 := w.recvd_le_head
  cases h with
  | close hg hp hl =>
    have h4 := w.opened hg
    omega
  | shrink hp hg h =>
    have h4 := w.opened hg
    omega
  | extend | premature | extendHead => omega

variable {n : Nat} {α : Type*} (mem : BitVec n → α) (stream : Nat → α)

/-- The ring holds the bytes the window says it holds. -/
def Stored (w : RxWindow size) : Prop :=
  Holds mem stream w.appd w.recvd ∧ (w.gap = true → Holds mem stream w.offset w.head)

variable {mem stream}

theorem Stored.take {k : Nat} {h : w.appd + k ≤ w.recvd} (hs : w.Stored mem stream) :
    (w.take k h).Stored mem stream :=
  ⟨hs.1.mono (Nat.le_add_right ..) (Nat.le_refl _), hs.2⟩

/-- Writing accepted bytes into the ring keeps what is stored and adds what is promised. -/
theorem Stored.deliver {w w' : RxWindow (2 ^ n)} {p len : Nat} (h : w.Deliver p len w')
    (hs : w.Stored mem stream) :
    w'.Stored (ringWrite mem (BitVec.ofNat n p) (slice stream p len)) stream := by
  obtain ⟨hlo, hhi⟩ := h.range
  obtain ⟨hrecvd, hblock⟩ := hs
  have h1 := w.appd_le
  have h2 := w.bounded
  have h3 := w.recvd_le_head
  -- the old bytes and the new ones, both after the write
  have hold := hrecvd.write w.appd (Nat.le_refl _) (by omega) hlo hhi
  have hlen : len ≤ 2 ^ n := by omega
  have hnew := Holds.write_self mem stream p hlen
  have hpre (hg : w.gap = true) :=
    (hblock hg).write w.appd (by have := w.opened hg; omega) (by omega) hlo hhi
  cases h with
  | extend hp hg h =>
    subst hp
    exact ⟨hold.append hnew, fun ho => (Bool.false_ne_true (hg.symm.trans ho)).elim⟩
  | premature hg hp hl h => exact ⟨hold, fun _ => hnew⟩
  | extendHead hp hg h =>
    subst hp
    exact ⟨hold, fun _ => (hpre hg).append hnew⟩
  | close hg hp hl =>
    subst hp
    rw [hl] at hnew
    exact ⟨(hold.append hnew).append (hpre hg), fun ho => (Bool.false_ne_true ho).elim⟩
  | shrink hp hg h =>
    subst hp
    exact ⟨hold.append hnew, fun _ => hpre hg⟩

end RxWindow

end FpgaNetworkStack.Toe
