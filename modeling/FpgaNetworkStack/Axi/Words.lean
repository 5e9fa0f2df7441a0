import FpgaNetworkStack.Lib.Calls

/-!
# Words of a stream (`axi_utils.hpp`)

A word is `N` lanes of a byte and its enable.  `lshiftWordByOctet` makes room in front of a packet and
`rshiftWordByOctet` cuts off its first bytes; both are used with a constant offset.
-/

namespace FpgaNetworkStack.Axi

open Lib

structure Lane where
  data : BitVec 8 := 0
  keep : Bool := false
  deriving DecidableEq

/-- `net_axis<WIDTH>` of `N = WIDTH / 8` bytes. -/
structure Word (N : Nat) where
  lanes : List Lane
  last : Bool
  length_eq : lanes.length = N
  deriving DecidableEq

variable {N : Nat}

def Lane.kept (b : BitVec 8) : Lane := ⟨b, true⟩

namespace Word

def bytes (w : Word N) : List (BitVec 8) := (w.lanes.filter (·.keep)).map (·.data)

def zero : Word N := ⟨List.replicate N {}, false, List.length_replicate⟩

/-- The lanes of `prev` from `k` on, filled up with those of `curr`. -/
def join (k : Nat) (prev curr : Word N) (last : Bool) : Word N where
  lanes := prev.lanes.drop k ++ curr.lanes.take k
  last := last
  length_eq := by
    rw [List.length_append, List.length_drop, List.length_take, prev.length_eq, curr.length_eq]
    omega

/-- No byte from lane `k` on is kept. -/
def emptyFrom (w : Word N) (k : Nat) : Bool := (w.lanes.drop k).all fun l => !l.keep

end Word

/-! ## `lshiftWordByOctet` -/

structure LShift (N : Nat) where
  firstWord : Bool := true
  writeRemainder : Bool := false
  prevWord : Word N := .zero

/-- The lanes in front of a packet: `keep` is filled from a constant of 32 bits. -/
def filler : Word N where
  lanes := (List.range N).map fun k => ⟨0, decide (k < 32)⟩
  last := false
  length_eq := by rw [List.length_map, List.length_range]

/-- What is sent for a word of the input when the offset is not 0. -/
def LShift.send (offset : Nat) (s : LShift N) (currWord : Word N) : Word N where
  lanes :=
    (if s.firstWord then filler.lanes.take offset else s.prevWord.lanes.drop (N - offset)).take N ++
      currWord.lanes.take (N - min offset N)
  last := currWord.emptyFrom (N - offset)
  length_eq := by
    have hlen := currWord.length_eq
    have hfill := (filler : Word N).length_eq
    have hprev := s.prevWord.length_eq
    split <;> simp only [List.length_append, List.length_take, List.length_drop] <;> omega

def lshiftWordByOctet (offset : Nat) (s : LShift N) (input : List (Word N)) :
    LShift N × List (Word N) × List (Word N) :=
  if s.writeRemainder then
    ({ s with writeRemainder := false }, input, [.join (N - offset) s.prevWord .zero true])
  else
    match input with
    | [] => (s, [], [])
    | currWord :: rest =>
      if offset = 0 then (s, rest, [currWord])
      else
        let sendWord := s.send offset currWord
        ({ prevWord := currWord, firstWord := currWord.last
           writeRemainder := currWord.last && !sendWord.last },
          rest, [sendWord])

/-! ## `rshiftWordByOctet` -/

inductive RsState where
  | PKG | REMAINDER
  deriving DecidableEq, Repr

structure RShift (N : Nat) where
  fsmState : RsState := .PKG
  firstWord : Bool
  prevWord : Word N := .zero

def RShift.init (offset : Nat) : RShift N := { firstWord := decide (offset ≠ 0) }

def rshiftWordByOctet (offset : Nat) (s : RShift N) (input : List (Word N)) :
    RShift N × List (Word N) × List (Word N) :=
  match s.fsmState, input with
  | .PKG, [] => (s, [], [])
  | .PKG, currWord :: rest =>
    let sendWord :=
      if offset = 0 then currWord else .join offset s.prevWord currWord (currWord.emptyFrom offset)
    -- without a word that is sent, `last` is 0
    let last := !s.firstWord && sendWord.last
    ({ prevWord := currWord
       firstWord := currWord.last && decide (offset ≠ 0)
       fsmState := if currWord.last && !last then .REMAINDER else .PKG },
      rest, if s.firstWord then [] else [sendWord])
  | .REMAINDER, _ => ({ s with fsmState := .PKG }, input, [.join offset s.prevWord .zero true])

end FpgaNetworkStack.Axi
