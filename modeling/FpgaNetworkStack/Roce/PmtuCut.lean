import FpgaNetworkStack.Axi.Keep
import FpgaNetworkStack.Roce.Internals
import Mathlib.Algebra.BigOperators.Group.List.Basic

/-!
# Cutting at the PMTU (`tx_pkg_arbiter`)

The memory returns one packet for each command, and the packet goes to the output that the command's info chooses.
A word counter of 8 bits cuts it.
-/

namespace FpgaNetworkStack.Roce

open Lib
open Axi (Word Ends)

variable {N : Nat}

inductive PkgType where
  | AETH | RETH | RAW | IMMED
  deriving DecidableEq, Repr

structure PkgInfo where
  type : PkgType
  words : BitVec 29
  deriving DecidableEq

def PMTU_WORDS (N : Nat) : Nat := PMTU / N

/-! ## `tx_pkg_arbiter` -/

inductive MrpStateType where
  | IDLE | FWD_AETH | FWD_RETH | FWD_RAW
  deriving DecidableEq, Repr

structure TxPkgArbiter where
  state : MrpStateType := .IDLE
  wordCounter : BitVec 8 := 0
  info : PkgInfo := ⟨.AETH, 0⟩

@[ext]
structure TxPkgArbiterIn (N : Nat) where
  txPkgInfoFifo : List PkgInfo := []
  memReadData : List (Word N) := []

@[ext]
structure TxPkgArbiterOut (N : Nat) where
  remoteReadData : List (Word N) := []
  localReadData : List (Word N) := []
  rawPayFifo : List (Word N) := []

/-- The state in which a packet of that type is forwarded. -/
def forwarding : PkgType → MrpStateType
  | .AETH => .FWD_AETH
  | .RETH => .FWD_RETH
  | .RAW | .IMMED => .FWD_RAW

/-- The word counter has reached the limit. -/
def TxPkgArbiter.full (N : Nat) (s : TxPkgArbiter) : Bool := (s.wordCounter + 1).toNat == PMTU_WORDS N

def TxPkgArbiter.send (s : TxPkgArbiter) (currWord : Word N) : Word N :=
  { currWord with last := currWord.last || s.full N }

/-- The three branches that forward a word are the same but for the output. -/
def TxPkgArbiter.fwd (s : TxPkgArbiter) (currWord : Word N) : TxPkgArbiter :=
  { s with
      wordCounter := s.wordCounter + 1
      state := if currWord.last || s.full N then .IDLE else s.state }

def txPkgArbiter (s : TxPkgArbiter) (i : TxPkgArbiterIn N) : TxPkgArbiter × TxPkgArbiterIn N × TxPkgArbiterOut N :=
  match s.state with
  | .IDLE =>
    match i.txPkgInfoFifo with
    | [] => (s, i, {})
    | info :: rest => ({ state := forwarding info.type, wordCounter := 0, info }, { i with txPkgInfoFifo := rest }, {})
  | .FWD_AETH =>
    match i.memReadData with
    | [] => (s, i, {})
    | currWord :: rest => (s.fwd currWord, { i with memReadData := rest }, { remoteReadData := [s.send currWord] })
  | .FWD_RETH =>
    match i.memReadData with
    | [] => (s, i, {})
    | currWord :: rest => (s.fwd currWord, { i with memReadData := rest }, { localReadData := [s.send currWord] })
  | .FWD_RAW =>
    match i.memReadData with
    | [] => (s, i, {})
    | currWord :: rest => (s.fwd currWord, { i with memReadData := rest }, { rawPayFifo := [s.send currWord] })

instance : Append (TxPkgArbiterIn N) := ⟨fun i j => ⟨i.txPkgInfoFifo ++ j.txPkgInfoFifo, i.memReadData ++ j.memReadData⟩⟩

instance : Std.Associative (α := TxPkgArbiterIn N) (· ++ ·) :=
  ⟨fun _ _ _ => congrArg₂ TxPkgArbiterIn.mk (List.append_assoc _ _ _) (List.append_assoc _ _ _)⟩

theorem txPkgArbiter_waits : Waits (txPkgArbiter (N := N)) {} := by
  intro s i
  obtain ⟨infos, data⟩ := i
  obtain ⟨state, wordCounter, info⟩ := s
  cases state with
  | IDLE =>
    cases infos with
    | nil => exact .inl rfl
    | cons info infos => exact .inr fun more => rfl
  | FWD_AETH | FWD_RETH | FWD_RAW =>
    cases data with
    | nil => exact .inl rfl
    | cons currWord data => exact .inr fun more => rfl

/-! ## What the cut is for -/

/-- A packet cut into packets of at most `limit` words. -/
def cut (limit : Nat) (ws : List (Word N)) : List (Word N) :=
  ws.mapIdx fun k w => { w with last := w.last || decide ((k + 1) % limit = 0) }

/-- What goes to an output: the packets of its types, each one cut. -/
def chosen (fwd : MrpStateType) (ds : List (PkgInfo × List (Word N))) : List (Word N) :=
  ds.flatMap fun d => if forwarding d.1.type = fwd then cut (PMTU_WORDS N) d.2 else []

structure TxPkgArbiter.Idle (s : TxPkgArbiter) : Prop where
  state : s.state = .IDLE

/-- However infos and words come in, each word is forwarded once and in order to the output that the info of its packet
chooses, and the packets end where those of the memory end or at the limit. -/
structure Forwards (ds : List (PkgInfo × List (Word N))) : Prop where
  remote : Completes txPkgArbiter {} (·.remoteReadData) TxPkgArbiter.Idle {} ⟨[], []⟩
    ⟨ds.map (·.1), ds.flatMap (·.2)⟩ (chosen .FWD_AETH ds)
  loc : Completes txPkgArbiter {} (·.localReadData) TxPkgArbiter.Idle {} ⟨[], []⟩
    ⟨ds.map (·.1), ds.flatMap (·.2)⟩ (chosen .FWD_RETH ds)
  raw : Completes txPkgArbiter {} (·.rawPayFifo) TxPkgArbiter.Idle {} ⟨[], []⟩
    ⟨ds.map (·.1), ds.flatMap (·.2)⟩ (chosen .FWD_RAW ds)

/-! ## One packet -/

/-- The words written by some calls to the output that belongs to a state. -/
def TxPkgArbiterOut.to (fwd : MrpStateType) (o : TxPkgArbiterOut N) : List (Word N) :=
  match fwd with
  | .IDLE => []
  | .FWD_AETH => o.remoteReadData
  | .FWD_RETH => o.localReadData
  | .FWD_RAW => o.rawPayFifo

section

variable {ws : List (Word N)} {s : TxPkgArbiter}

theorem txPkgArbiter_word (hs : s.state ≠ .IDLE) (infos : List PkgInfo) (w : Word N) (rest : List (Word N)) :
    ∃ o, txPkgArbiter s ⟨infos, w :: rest⟩ = (s.fwd w, ⟨infos, rest⟩, o) ∧
      ∀ fwd, fwd ≠ .IDLE → o.to fwd = if s.state = fwd then [s.send w] else [] := by
  cases hst : s.state with
  | IDLE => exact absurd hst hs
  | FWD_AETH =>
    refine ⟨{ remoteReadData := [s.send w] }, by simp only [txPkgArbiter, hst], fun fwd hfwd => ?_⟩
    cases fwd <;> rfl
  | FWD_RETH =>
    refine ⟨{ localReadData := [s.send w] }, by simp only [txPkgArbiter, hst], fun fwd hfwd => ?_⟩
    cases fwd <;> rfl
  | FWD_RAW =>
    refine ⟨{ rawPayFifo := [s.send w] }, by simp only [txPkgArbiter, hst], fun fwd hfwd => ?_⟩
    cases fwd <;> rfl

/-- A packet that is not longer than the limit is forwarded as it is, whatever the counter can hold. -/
theorem forward_packet (h : Ends ws) (infos : List PkgInfo) (rest : List (Word N)) :
    ∀ {s : TxPkgArbiter} (k : Nat), s.state ≠ .IDLE → s.wordCounter = BitVec.ofNat 8 k →
      k + ws.length ≤ PMTU_WORDS N →
      ∃ os t, Runs txPkgArbiter s ⟨infos, ws ++ rest⟩ os t ⟨infos, rest⟩ ∧ t.Idle ∧
        ∀ fwd, fwd ≠ .IDLE → os.flatMap (·.to fwd) = if s.state = fwd then ws else [] := by
  induction h with
  | @last w hlast =>
    intro s k hs hk hle
    obtain ⟨o, hcall, ho⟩ := txPkgArbiter_word hs infos w rest
    have hsend : s.send w = w := by rw [TxPkgArbiter.send, hlast, Bool.true_or, ← hlast]
    refine ⟨_, _, .one hcall, ⟨?_⟩, fun fwd hfwd => ?_⟩
    · rw [TxPkgArbiter.fwd, hlast, Bool.true_or, if_pos rfl]
    · rw [List.flatMap_singleton, ho fwd hfwd, hsend]
  | @cons w ws hlast hends ih =>
    intro s k hs hk hle
    obtain ⟨o, hcall, ho⟩ := txPkgArbiter_word hs infos w (ws ++ rest)
    have hnext : s.wordCounter + 1 = BitVec.ofNat 8 (k + 1) := by
      rw [hk, BitVec.ofNat_add]
      rfl
    have hpos : 0 < ws.length := by cases hends <;> exact Nat.succ_pos _
    -- one more word has to fit
    have hfull : s.full N = false := by
      rw [TxPkgArbiter.full, hnext, BitVec.toNat_ofNat, beq_eq_false_iff_ne]
      have hmod := Nat.mod_le (k + 1) (2 ^ 8)
      rw [List.length_cons] at hle
      omega
    have hsend : s.send w = w := by rw [TxPkgArbiter.send, hfull, Bool.or_false]
    have hfwd : (s.fwd w).state = s.state := by
      rw [TxPkgArbiter.fwd, hlast, hfull]
      rfl
    obtain ⟨os, t, hrun, ht, hos⟩ := ih (s := s.fwd w) (k + 1) (hfwd ▸ hs) hnext (by
      rw [List.length_cons] at hle
      omega)
    refine ⟨_, t, .call hcall hrun, ht, fun fwd hne => ?_⟩
    rw [List.flatMap_cons, ho fwd hne, hos fwd hne, hsend, hfwd]
    by_cases hst : s.state = fwd
    · rw [if_pos hst, if_pos hst, if_pos hst]
      rfl
    · rw [if_neg hst, if_neg hst, if_neg hst]
      rfl

end

/-! ## The cut -/

section

theorem forwarding_ne (type : PkgType) : forwarding type ≠ .IDLE := by
  cases type <;> decide

theorem last_eq {ws : List (Word N)} (h : Ends ws) {k : Nat} (hk : k < ws.length) :
    (ws[k]).last = decide (k + 1 = ws.length) := by
  induction h generalizing k with
  | @last w hlast =>
    have hzero : k = 0 := by
      rw [List.length_singleton] at hk
      omega
    subst hzero
    exact hlast
  | @cons w ws hlast hends ih =>
    have hpos : 0 < ws.length := by cases hends <;> exact Nat.succ_pos _
    cases k with
    | zero =>
      have hne : ¬0 + 1 = (w :: ws).length := by
        rw [List.length_cons]
        omega
      rw [decide_eq_false hne]
      exact hlast
    | succ k =>
      rw [List.length_cons] at hk
      have hrest := ih (k := k) (by omega)
      simp only [List.getElem_cons_succ, List.length_cons, hrest, Nat.add_right_cancel_iff]

theorem cut_short {limit : Nat} {ws : List (Word N)} (h : Ends ws) (hle : ws.length ≤ limit) : cut limit ws = ws := by
  apply List.ext_getElem
  · rw [cut, List.length_mapIdx]
  · intro k hk hk'
    have hlast := last_eq h hk'
    simp only [cut, List.getElem_mapIdx]
    by_cases hend : k + 1 = ws.length
    · rw [decide_eq_true hend] at hlast
      rw [hlast, Bool.true_or, ← hlast]
    · have hmore : ¬(k + 1) % limit = 0 := by
        rw [Nat.mod_eq_of_lt (by omega)]
        omega
      rw [decide_eq_false hmore, Bool.or_false]

variable {limit : Nat} {ws : List (Word N)}

theorem countP_pos_of_getElem {l : List (Word N)} {k : Nat} (hk : k < l.length) (h : (l[k]).last = true) :
    0 < l.countP (·.last) := List.countP_pos_iff.mpr ⟨_, List.getElem_mem hk, h⟩

theorem one_le_countP_cut (h : Ends ws) : 1 ≤ (cut limit ws).countP (·.last) := by
  have hpos : 0 < ws.length := by cases h <;> exact Nat.succ_pos _
  refine countP_pos_of_getElem (k := ws.length - 1) (by rw [cut, List.length_mapIdx]; omega) ?_
  simp only [cut, List.getElem_mapIdx]
  rw [last_eq h (by omega), decide_eq_true (by omega), Bool.true_or]

/-- A packet that is longer than the limit becomes more than one: one ends at the limit, one at its end. -/
theorem countP_cut_long (h : Ends ws) (hpos : 0 < limit) (hlong : limit < ws.length) :
    1 < (cut limit ws).countP (·.last) := by
  have hlen : (cut limit ws).length = ws.length := by rw [cut, List.length_mapIdx]
  have hfirst : 0 < ((cut limit ws).take limit).countP (·.last) := by
    refine countP_pos_of_getElem (k := limit - 1) (by rw [List.length_take]; omega) ?_
    simp only [cut, List.getElem_take, List.getElem_mapIdx]
    rw [Nat.sub_add_cancel hpos, Nat.mod_self, decide_eq_true rfl, Bool.or_true]
  have hrest : 0 < ((cut limit ws).drop limit).countP (·.last) := by
    refine countP_pos_of_getElem (k := ws.length - 1 - limit) (by rw [List.length_drop]; omega) ?_
    simp only [cut, List.getElem_drop, List.getElem_mapIdx]
    rw [last_eq h (by omega), decide_eq_true (by omega), Bool.true_or]
  rw [← List.take_append_drop limit (cut limit ws), List.countP_append]
  omega

end

/-! ## Counting packets -/

def TxPkgArbiterOut.ends (o : TxPkgArbiterOut N) : Nat :=
  o.remoteReadData.countP (·.last) + o.localReadData.countP (·.last) + o.rawPayFifo.countP (·.last)

def TxPkgArbiter.busy (s : TxPkgArbiter) : Nat := if s.state = .IDLE then 0 else 1

/-- A word ends a packet exactly when the arbiter goes back to where it reads an info. -/
theorem txPkgArbiter_ends (s : TxPkgArbiter) (i : TxPkgArbiterIn N) :
    (txPkgArbiter s i).2.2.ends + (txPkgArbiter s i).1.busy + (txPkgArbiter s i).2.1.txPkgInfoFifo.length =
      s.busy + i.txPkgInfoFifo.length := by
  obtain ⟨infos, data⟩ := i
  have hword (w : Word N) (hs : s.state ≠ .IDLE) : (if (s.send w).last = true then 1 else 0) + (s.fwd w).busy = 1 := by
    rw [TxPkgArbiter.busy, TxPkgArbiter.fwd, TxPkgArbiter.send]
    cases w.last || s.full N with
    | true => rfl
    | false => exact (Nat.zero_add _).trans (if_neg hs)
  cases hst : s.state with
  | IDLE =>
    cases infos with
    | nil => simp [txPkgArbiter, hst, TxPkgArbiterOut.ends, TxPkgArbiter.busy]
    | cons info infos =>
      simp [txPkgArbiter, hst, TxPkgArbiterOut.ends, TxPkgArbiter.busy, forwarding_ne, Nat.add_comm]
  | FWD_AETH | FWD_RETH | FWD_RAW =>
    cases data with
    | nil => simp [txPkgArbiter, hst, TxPkgArbiterOut.ends, TxPkgArbiter.busy]
    | cons w rest =>
      have hone := hword w (by rw [hst]; decide)
      have hbusy : s.busy = 1 := if_neg (by rw [hst]; decide)
      simp only [txPkgArbiter, hst, TxPkgArbiterOut.ends, List.countP_singleton, List.countP_nil, hbusy]
      omega

theorem runs_ends {s t : TxPkgArbiter} {i j : TxPkgArbiterIn N} {os : List (TxPkgArbiterOut N)}
    (h : Runs txPkgArbiter s i os t j) :
    (os.map (·.ends)).sum + t.busy + j.txPkgInfoFifo.length = s.busy + i.txPkgInfoFifo.length := by
  induction h with
  | refl => simp
  | @call o os s t u i j k hcall _ ih =>
    have hone := txPkgArbiter_ends s i
    rw [hcall] at hone
    simp only [List.map_cons, List.sum_cons] at hone ⊢
    omega

theorem sum_ends (os : List (TxPkgArbiterOut N)) :
    (os.map (·.ends)).sum = (os.flatMap (·.remoteReadData)).countP (·.last) +
      (os.flatMap (·.localReadData)).countP (·.last) + (os.flatMap (·.rawPayFifo)).countP (·.last) := by
  induction os with
  | nil => rfl
  | cons o os ih =>
    rw [List.map_cons, List.sum_cons, ih, TxPkgArbiterOut.ends]
    simp only [List.flatMap_cons, List.countP_append]
    omega

theorem countP_chosen (ds : List (PkgInfo × List (Word N))) :
    (chosen .FWD_AETH ds).countP (·.last) + (chosen .FWD_RETH ds).countP (·.last) +
      (chosen .FWD_RAW ds).countP (·.last) = (ds.map fun d => (cut (PMTU_WORDS N) d.2).countP (·.last)).sum := by
  induction ds with
  | nil => rfl
  | cons d ds ih =>
    simp only [chosen, List.flatMap_cons, List.countP_append, List.map_cons, List.sum_cons] at ih ⊢
    rw [← ih]
    cases d.1.type <;> simp [forwarding] <;> omega

theorem eq_one_of_sum {δ : Type} {f : δ → Nat} {ds : List δ} (hpos : ∀ d ∈ ds, 1 ≤ f d) (hsum : (ds.map f).sum = ds.length) :
    ∀ d ∈ ds, f d = 1 := by
  induction ds with
  | nil => exact fun d hd => absurd hd List.not_mem_nil
  | cons d ds ih =>
    obtain ⟨hone, hpos⟩ := List.forall_mem_cons.mp hpos
    have hle := List.length_le_sum_of_one_le (ds.map f) (by simpa using hpos)
    rw [List.length_map] at hle
    rw [List.map_cons, List.sum_cons, List.length_cons] at hsum
    exact List.forall_mem_cons.mpr ⟨by omega, ih hpos (by omega)⟩

/-! ## All packets -/

section

variable {ds : List (PkgInfo × List (Word N))}

theorem output_completes (fwd : MrpStateType) (hfwd : fwd ≠ .IDLE)
    (hds : ∀ d ∈ ds, Ends d.2 ∧ d.2.length ≤ PMTU_WORDS N) :
    Completes txPkgArbiter {} (·.to fwd) TxPkgArbiter.Idle {} ⟨[], []⟩ ⟨ds.map (·.1), ds.flatMap (·.2)⟩
      (chosen fwd ds) := by
  refine completes_each (Q := fun d => Ends d.2 ∧ d.2.length ≤ PMTU_WORDS N) _
    (fun ds : List (PkgInfo × List (Word N)) => (⟨ds.map (·.1), ds.flatMap (·.2)⟩ : TxPkgArbiterIn N))
    txPkgArbiter_waits ?_ rfl ?_ ?_ ds (show TxPkgArbiter.Idle {} from ⟨rfl⟩) hds
  · cases fwd <;> rfl
  · intro s hs
    simp only [txPkgArbiter, hs.state, List.map_nil]
  · intro s d ds hs hd
    have htake : txPkgArbiter s ⟨d.1 :: ds.map (·.1), d.2 ++ ds.flatMap (·.2)⟩ =
        ({ state := forwarding d.1.type, wordCounter := 0, info := d.1 }, ⟨ds.map (·.1), d.2 ++ ds.flatMap (·.2)⟩, {}) := by
      simp only [txPkgArbiter, hs.state]
    obtain ⟨os, t, hrun, ht, hos⟩ := forward_packet hd.1 (ds.map (·.1)) (ds.flatMap (·.2))
      (s := { state := forwarding d.1.type, wordCounter := 0, info := d.1 }) 0 (forwarding_ne _) rfl
      (by rw [Nat.zero_add]; exact hd.2)
    refine ⟨_, t, .call htake hrun, ht, ?_⟩
    have hnone : ({} : TxPkgArbiterOut N).to fwd = [] := by cases fwd <;> rfl
    rw [List.flatMap_cons, hnone, List.nil_append, hos fwd hfwd, cut_short hd.1 hd.2]

theorem Forwards.ends (h : Forwards ds) : (ds.map fun d => (cut (PMTU_WORDS N) d.2).countP (·.last)).sum = ds.length := by
  obtain ⟨os, t, hrest, hdone, hremote⟩ := h.remote.rests
  obtain ⟨-, -, hloc⟩ := h.loc.of_run rfl hrest
  obtain ⟨-, -, hraw⟩ := h.raw.of_run rfl hrest
  have hends := runs_ends hrest.run
  have hidle : t.busy = 0 := if_pos hdone.state
  rw [sum_ends, hremote, hloc, hraw, countP_chosen, hidle] at hends
  rw [Nat.add_zero, List.length_nil, Nat.add_zero] at hends
  rw [hends, List.length_map]
  exact Nat.zero_add _

/-- The arbiter is right for packets that need no cut, and for no others: words of up to 128 bits need a limit that the
counter does not reach, and with wider words what is left behind the cut waits for the next info. -/
theorem forwards_of (hN : N ∈ [8, 16, 32, 64]) (hds : ∀ d ∈ ds, Ends d.2) :
    Forwards ds ↔ ∀ d ∈ ds, d.2.length ≤ PMTU_WORDS N := by
  have hwidth : N = 8 ∨ N = 16 ∨ N = 32 ∨ N = 64 := by simpa using hN
  have hpos : 0 < PMTU_WORDS N := by rcases hwidth with rfl | rfl | rfl | rfl <;> decide
  constructor
  · intro h d hd
    have hone := eq_one_of_sum (fun d hd => one_le_countP_cut (hds d hd)) h.ends d hd
    by_contra hlong
    have hmore := countP_cut_long (hds d hd) hpos (Nat.lt_of_not_le hlong)
    omega
  · intro hshort
    have hboth : ∀ d ∈ ds, Ends d.2 ∧ d.2.length ≤ PMTU_WORDS N := fun d hd => ⟨hds d hd, hshort d hd⟩
    exact ⟨output_completes .FWD_AETH (by decide) hboth, output_completes .FWD_RETH (by decide) hboth,
      output_completes .FWD_RAW (by decide) hboth⟩

theorem forwards_iff (hN : N ∈ [8, 16, 32, 64]) (ds : List (PkgInfo × List (Word N))) (hds : ∀ d ∈ ds, Ends d.2) :
    Forwards ds ↔ ∀ d ∈ ds, d.2.length ≤ PMTU_WORDS N := forwards_of hN hds

end

def wordsOf (N n : Nat) : List (Word N) := List.replicate n .zero ++ [{ (.zero : Word N) with last := true }]

theorem ends_wordsOf (N n : Nat) : Ends (wordsOf N n) := by
  induction n with
  | zero => exact .last rfl
  | succ n ih => exact .cons rfl ih

theorem length_wordsOf (N n : Nat) : (wordsOf N n).length = n + 1 := by
  rw [wordsOf, List.length_append, List.length_replicate, List.length_singleton]

/-- A packet of 4096 bytes at 64 bits. -/
theorem forwards_full : Forwards [(⟨.RETH, 512⟩, wordsOf 8 511)] :=
  (forwards_iff (by decide) _ (List.forall_mem_singleton.mpr (ends_wordsOf 8 511))).mpr
    (List.forall_mem_singleton.mpr (Nat.le_of_eq (length_wordsOf 8 511)))

/-- A packet of one word more is not cut. -/
theorem uncut : ¬Forwards [(⟨.RETH, 513⟩, wordsOf 8 512)] := by
  rw [forwards_of (by decide) (List.forall_mem_singleton.mpr (ends_wordsOf 8 512)), List.forall_mem_singleton,
    length_wordsOf]
  decide

end FpgaNetworkStack.Roce
