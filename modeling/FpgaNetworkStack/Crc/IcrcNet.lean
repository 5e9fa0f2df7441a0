import FpgaNetworkStack.Crc.Icrc

/-!
# Two units for the CRC (`crc`)

Packets go in turn to two `compute_crc32`, and their results are collected in turn.  Each process may be called at any
time; in whatever order they are called, the system comes to rest in one state.
-/

namespace FpgaNetworkStack.Crc

open Lib
open Axi (Word Packet Packets Framed)

variable {N : Nat}

/-! ## `round_robin_arbiter` and `round_robin_merger` -/

@[ext]
structure ArbiterOut (N : Nat) where
  out1 : List (Word N) := []
  out2 : List (Word N) := []

def roundRobinArbiter (one : Bool) (input : List (Word N)) : Bool × List (Word N) × ArbiterOut N :=
  match input with
  | [] => (one, [], {})
  | currWord :: rest =>
    (if currWord.last then !one else one, rest, if one then { out1 := [currWord] } else { out2 := [currWord] })

@[ext]
structure MergerIn where
  in1 : List (BitVec 32)
  in2 : List (BitVec 32)

def roundRobinMerger (oneM : Bool) (input : MergerIn) : Bool × MergerIn × List (BitVec 32) :=
  if oneM then
    match input.in1 with
    | [] => (oneM, input, [])
    | crc :: in1 => (!oneM, ⟨in1, input.in2⟩, [crc])
  else
    match input.in2 with
    | [] => (oneM, input, [])
    | crc :: in2 => (!oneM, ⟨input.in1, in2⟩, [crc])

/-! ## The system -/

structure IcrcNet (N : Nat) where
  input : List (Word N)
  mask : MaskHeader := {}
  one : Bool := true
  crc1 : ComputeCrc32 N := {}
  crc2 : ComputeCrc32 N := {}
  oneM : Bool := true
  maskedDataFifo : List (Word N) := []
  maskedDataFifo1 : List (Word N) := []
  maskedDataFifo2 : List (Word N) := []
  crcDataFifo : List (Word N) := []
  crcFifo1 : List (BitVec 32) := []
  crcFifo2 : List (BitVec 32) := []
  crcFifo : List (BitVec 32) := []

inductive Proc where
  | mask | arbiter | crc1 | crc2 | merger

def IcrcNet.call (n : IcrcNet N) : Proc → IcrcNet N
  | .mask =>
    let r := maskHeaderFields n.mask n.input
    { n with
      mask := r.1
      input := r.2.1
      crcDataFifo := n.crcDataFifo ++ r.2.2.dataOut
      maskedDataFifo := n.maskedDataFifo ++ r.2.2.maskedDataOut }
  | .arbiter =>
    let r := roundRobinArbiter n.one n.maskedDataFifo
    { n with
      one := r.1
      maskedDataFifo := r.2.1
      maskedDataFifo1 := n.maskedDataFifo1 ++ r.2.2.out1
      maskedDataFifo2 := n.maskedDataFifo2 ++ r.2.2.out2 }
  | .crc1 =>
    let r := computeCrc32 n.crc1 n.maskedDataFifo1
    { n with crc1 := r.1, maskedDataFifo1 := r.2.1, crcFifo1 := n.crcFifo1 ++ r.2.2 }
  | .crc2 =>
    let r := computeCrc32 n.crc2 n.maskedDataFifo2
    { n with crc2 := r.1, maskedDataFifo2 := r.2.1, crcFifo2 := n.crcFifo2 ++ r.2.2 }
  | .merger =>
    let r := roundRobinMerger n.oneM ⟨n.crcFifo1, n.crcFifo2⟩
    { n with oneM := r.1, crcFifo1 := r.2.1.in1, crcFifo2 := r.2.1.in2, crcFifo := n.crcFifo ++ r.2.2 }

def IcrcNet.step (n : IcrcNet N) (p : Proc) : Option (IcrcNet N) := some (n.call p)

def IcrcNet.AtRest (n : IcrcNet N) : Prop := ∀ p, n.call p = n

instance : Append MergerIn := ⟨fun i j => ⟨i.in1 ++ j.in1, i.in2 ++ j.in2⟩⟩

theorem arbiter_waits : Waits (roundRobinArbiter (N := N)) {} := by
  intro one input
  cases input with
  | nil => exact .inl rfl
  | cons w ws => exact .inr fun _ => rfl

theorem merger_waits : Waits roundRobinMerger [] := by
  rintro oneM ⟨in1, in2⟩
  cases oneM with
  | true =>
    cases in1 with
    | nil => exact .inl rfl
    | cons crc in1 => exact .inr fun _ => rfl
  | false =>
    cases in2 with
    | nil => exact .inl rfl
    | cons crc in2 => exact .inr fun _ => rfl

/-! ## Coming to rest -/

/-- From here on each process comes to rest on what is in its queues and what is still put into them; then `data` and
`crcs` have been written. -/
inductive Finishes (n : IcrcNet N) : List (Word N) → List (BitVec 32) → Prop
  | intro {mo ao co co' ro} {m a c c' r} {mi ai ci ci' : List (Word N)} {ri}
      (mask : Rests maskHeaderFields {} n.mask n.input mo m mi)
      (arbiter : Rests roundRobinArbiter {} n.one (n.maskedDataFifo ++ mo.flatMap (·.maskedDataOut)) ao a ai)
      (crc1 : Rests computeCrc32 [] n.crc1 (n.maskedDataFifo1 ++ ao.flatMap (·.out1)) co c ci)
      (crc2 : Rests computeCrc32 [] n.crc2 (n.maskedDataFifo2 ++ ao.flatMap (·.out2)) co' c' ci')
      (merger : Rests roundRobinMerger [] n.oneM ⟨n.crcFifo1 ++ co.flatten, n.crcFifo2 ++ co'.flatten⟩ ro r ri) :
      Finishes n (n.crcDataFifo ++ mo.flatMap (·.dataOut)) (n.crcFifo ++ ro.flatten)

variable {n : IcrcNet N} {data : List (Word N)} {crcs : List (BitVec 32)}

theorem Finishes.call (h : Finishes n data crcs) (p : Proc) : Finishes (n.call p) data crcs := by
  obtain ⟨mask, arbiter, crc1, crc2, merger⟩ := h
  cases p with
  | mask =>
    obtain ⟨_, mask', ho⟩ := mask.step
    rw [flatMap_called rfl ho, ← List.append_assoc] at arbiter
    rw [flatMap_called rfl ho, ← List.append_assoc]
    exact .intro (n := n.call .mask) mask' arbiter crc1 crc2 merger
  | arbiter =>
    obtain ⟨_, arbiter', ho⟩ := arbiter.called arbiter_waits
    rw [flatMap_called rfl ho, ← List.append_assoc] at crc1
    rw [flatMap_called rfl ho, ← List.append_assoc] at crc2
    exact .intro mask arbiter' crc1 crc2 merger
  | crc1 =>
    obtain ⟨_, crc1', ho⟩ := crc1.called computeCrc32_waits
    rw [flatten_called ho, ← List.append_assoc] at merger
    exact .intro mask arbiter crc1' crc2 merger
  | crc2 =>
    obtain ⟨_, crc2', ho⟩ := crc2.called computeCrc32_waits
    rw [flatten_called ho, ← List.append_assoc n.crcFifo2] at merger
    exact .intro mask arbiter crc1 crc2' merger
  | merger =>
    obtain ⟨_, merger', ho⟩ := Rests.called merger_waits (i := ⟨n.crcFifo1, n.crcFifo2⟩) (x := ⟨_, _⟩) merger
    rw [flatten_called ho, ← List.append_assoc]
    exact .intro (n := n.call .merger) mask arbiter crc1 crc2 merger'

theorem Finishes.reach {t : IcrcNet N} (h : Finishes n data crcs) (hreach : Reach IcrcNet.step anyStep n t) :
    Finishes t data crcs := by
  refine Reach.invariant (P := fun n => Finishes n data crcs) hreach h ?_
  intro u p v hu _ hs
  cases Option.some.inj hs
  exact hu.call p

/-- Every process is idle on what is in its queues. -/
structure IcrcNet.Idle (n : IcrcNet N) : Prop where
  mask : maskHeaderFields n.mask n.input = (n.mask, n.input, {})
  arbiter : roundRobinArbiter n.one n.maskedDataFifo = (n.one, n.maskedDataFifo, {})
  crc1 : computeCrc32 n.crc1 n.maskedDataFifo1 = (n.crc1, n.maskedDataFifo1, [])
  crc2 : computeCrc32 n.crc2 n.maskedDataFifo2 = (n.crc2, n.maskedDataFifo2, [])
  merger : roundRobinMerger n.oneM ⟨n.crcFifo1, n.crcFifo2⟩ = (n.oneM, ⟨n.crcFifo1, n.crcFifo2⟩, [])

-- a queue that does not change gets nothing
theorem IcrcNet.AtRest.idle (h : n.AtRest) : n.Idle where
  mask := by
    have hcall := h .mask
    have hout : (maskHeaderFields n.mask n.input).2.2 = {} := MaskHeaderOut.ext
      (List.append_right_eq_self.mp (congrArg crcDataFifo hcall))
      (List.append_right_eq_self.mp (congrArg maskedDataFifo hcall))
    exact Prod.ext (congrArg IcrcNet.mask hcall) (Prod.ext (congrArg IcrcNet.input hcall) hout)
  arbiter := by
    have hcall := h .arbiter
    have hout : (roundRobinArbiter n.one n.maskedDataFifo).2.2 = {} := ArbiterOut.ext
      (List.append_right_eq_self.mp (congrArg maskedDataFifo1 hcall))
      (List.append_right_eq_self.mp (congrArg maskedDataFifo2 hcall))
    exact Prod.ext (congrArg IcrcNet.one hcall) (Prod.ext (congrArg maskedDataFifo hcall) hout)
  crc1 := by
    have hcall := h .crc1
    exact Prod.ext (congrArg IcrcNet.crc1 hcall) (Prod.ext (congrArg maskedDataFifo1 hcall)
      (List.append_right_eq_self.mp (congrArg crcFifo1 hcall)))
  crc2 := by
    have hcall := h .crc2
    exact Prod.ext (congrArg IcrcNet.crc2 hcall) (Prod.ext (congrArg maskedDataFifo2 hcall)
      (List.append_right_eq_self.mp (congrArg crcFifo2 hcall)))
  merger := by
    have hcall := h .merger
    exact Prod.ext (congrArg IcrcNet.oneM hcall) (Prod.ext (MergerIn.ext (congrArg crcFifo1 hcall)
      (congrArg crcFifo2 hcall)) (List.append_right_eq_self.mp (congrArg crcFifo hcall)))

theorem IcrcNet.Idle.at_rest (h : n.Idle) : n.AtRest := by
  intro p
  cases p with
  | mask => simp [IcrcNet.call, h.mask]
  | arbiter => simp [IcrcNet.call, h.arbiter]
  | crc1 => simp [IcrcNet.call, h.crc1]
  | crc2 => simp [IcrcNet.call, h.crc2]
  | merger => simp [IcrcNet.call, h.merger]

theorem Finishes.at_rest (h : Finishes n data crcs) (hrest : n.AtRest) : n.crcDataFifo = data ∧ n.crcFifo = crcs := by
  obtain ⟨mask, arbiter, crc1, crc2, merger⟩ := h
  have hidle := hrest.idle
  obtain ⟨-, -, hmo⟩ := mask.at_rest hidle.mask
  rw [flatMap_idle rfl hmo, List.append_nil] at arbiter
  obtain ⟨-, -, hao⟩ := arbiter.at_rest hidle.arbiter
  rw [flatMap_idle rfl hao, List.append_nil] at crc1
  rw [flatMap_idle rfl hao, List.append_nil] at crc2
  obtain ⟨-, -, hco⟩ := crc1.at_rest hidle.crc1
  obtain ⟨-, -, hco'⟩ := crc2.at_rest hidle.crc2
  rw [List.flatten_eq_nil_iff.mpr hco, List.flatten_eq_nil_iff.mpr hco', List.append_nil, List.append_nil] at merger
  obtain ⟨-, -, hro⟩ := merger.at_rest hidle.merger
  rw [flatMap_idle rfl hmo, List.flatten_eq_nil_iff.mpr hro, List.append_nil, List.append_nil]
  exact ⟨rfl, rfl⟩

/-! ## One process after the other -/

section

variable (n : IcrcNet N)

theorem run_mask : ∀ os t i, Runs maskHeaderFields n.mask n.input os t i →
    Reach IcrcNet.step anyStep n
      { n with
        mask := t
        input := i
        crcDataFifo := n.crcDataFifo ++ os.flatMap (·.dataOut)
        maskedDataFifo := n.maskedDataFifo ++ os.flatMap (·.maskedDataOut) } :=
  Runs.reach Proc.mask (fun s i os => by simp [IcrcNet.step, IcrcNet.call]) (by simp)

theorem run_arbiter : ∀ os t i, Runs roundRobinArbiter n.one n.maskedDataFifo os t i →
    Reach IcrcNet.step anyStep n
      { n with
        one := t
        maskedDataFifo := i
        maskedDataFifo1 := n.maskedDataFifo1 ++ os.flatMap (·.out1)
        maskedDataFifo2 := n.maskedDataFifo2 ++ os.flatMap (·.out2) } :=
  Runs.reach Proc.arbiter (fun s i os => by simp [IcrcNet.step, IcrcNet.call]) (by simp)

theorem run_crc1 : ∀ os t i, Runs computeCrc32 n.crc1 n.maskedDataFifo1 os t i →
    Reach IcrcNet.step anyStep n { n with crc1 := t, maskedDataFifo1 := i, crcFifo1 := n.crcFifo1 ++ os.flatten } :=
  Runs.reach Proc.crc1 (fun s i os => by simp [IcrcNet.step, IcrcNet.call]) (by simp)

theorem run_crc2 : ∀ os t i, Runs computeCrc32 n.crc2 n.maskedDataFifo2 os t i →
    Reach IcrcNet.step anyStep n { n with crc2 := t, maskedDataFifo2 := i, crcFifo2 := n.crcFifo2 ++ os.flatten } :=
  Runs.reach Proc.crc2 (fun s i os => by simp [IcrcNet.step, IcrcNet.call]) (by simp)

theorem run_merger : ∀ os t i, Runs roundRobinMerger n.oneM ⟨n.crcFifo1, n.crcFifo2⟩ os t i →
    Reach IcrcNet.step anyStep n
      { n with oneM := t, crcFifo1 := i.in1, crcFifo2 := i.in2, crcFifo := n.crcFifo ++ os.flatten } :=
  Runs.reach Proc.merger (fun s i os => by simp [IcrcNet.step, IcrcNet.call]) (by simp)

end

/-- The system can come to rest: one process after the other is called as long as it has something to do. -/
theorem Finishes.rest (h : Finishes n data crcs) : ∃ t, Reach IcrcNet.step anyStep n t ∧ t.AtRest := by
  obtain ⟨mask, arbiter, crc1, crc2, merger⟩ := h
  have h1 := run_mask n _ _ _ mask.run
  have h2 := h1.trans (run_arbiter _ _ _ _ arbiter.run)
  have h3 := h2.trans (run_crc1 _ _ _ _ crc1.run)
  have h4 := h3.trans (run_crc2 _ _ _ _ crc2.run)
  have h5 := h4.trans (run_merger _ _ _ _ merger.run)
  exact ⟨_, h5, IcrcNet.Idle.at_rest ⟨mask.rest, arbiter.rest, crc1.rest, crc2.rest, merger.rest⟩⟩

/-! ## All packets -/

/-- Every second item of a list, from the first one on or from the second one. -/
def turns {α : Type*} : Bool → List α → List α
  | _, [] => []
  | true, x :: xs => x :: turns false xs
  | false, _ :: xs => turns true xs

theorem turns_map {α β : Type*} (f : α → β) (mine : Bool) (xs : List α) : turns mine (xs.map f) = (turns mine xs).map f := by
  induction xs generalizing mine with
  | nil => cases mine <;> rfl
  | cons x xs ih =>
    cases mine with
    | true => exact congrArg (f x :: ·) (ih false)
    | false => exact ih true

theorem mask_packets (hN : Supported N) (ps : List (Framed N)) :
    ∀ {s : MaskHeader}, s.aiWordCount = 0 → ∃ os t, ∃ qs : List (Framed N),
      Runs maskHeaderFields s (ps.flatMap (·.words)) os t [] ∧ os.flatMap (·.dataOut) = ps.flatMap (·.words) ∧
      os.flatMap (·.maskedDataOut) = qs.flatMap (·.words) ∧
      qs.map (·.bytes) = ps.map fun p => maskedFrom N 0 p.bytes := by
  induction ps with
  | nil =>
    intro s _
    exact ⟨[], s, [], .refl s [], rfl, rfl, rfl⟩
  | cons p ps ih =>
    intro s hs
    obtain ⟨os, t, hrun, ht, hdata, hmasked⟩ := mask_words hN p.packet (ps.flatMap (·.words)) s
    have hstart : N * s.aiWordCount.toNat = 0 := by
      rw [hs]
      exact Nat.mul_zero N
    rw [hstart] at hmasked
    obtain ⟨os', u, qs, hmore, hdata', hmasked', hbytes⟩ := ih ht
    refine ⟨os ++ os', u, ⟨_, _, hmasked⟩ :: qs, hrun.trans hmore, ?_, ?_, ?_⟩
    · rw [List.flatMap_append, hdata, hdata', List.flatMap_cons]
    · rw [List.flatMap_append, hmasked', List.flatMap_cons]
    · rw [List.map_cons, hbytes, List.map_cons]

theorem arbiter_packet {ws : List (Word N)} (h : Axi.Ends ws) (one : Bool) (rest : List (Word N)) :
    ∃ os, Runs roundRobinArbiter one (ws ++ rest) os (!one) rest ∧
      os.flatMap (·.out1) = (if one then ws else []) ∧ os.flatMap (·.out2) = if one then [] else ws := by
  induction h with
  | @last w hlast =>
    refine ⟨_, .one (by simp only [roundRobinArbiter, List.singleton_append, hlast]; rfl), ?_⟩
    cases one <;> exact ⟨rfl, rfl⟩
  | @cons w ws hlast _ ih =>
    obtain ⟨os, hrun, hout1, hout2⟩ := ih
    refine ⟨_, .call (by simp only [roundRobinArbiter, List.cons_append, hlast]; rfl) hrun, ?_⟩
    rw [List.flatMap_cons, List.flatMap_cons, hout1, hout2]
    cases one <;> exact ⟨rfl, rfl⟩

theorem arbiter_packets (ps : List (Framed N)) :
    ∀ one, ∃ os t, Runs roundRobinArbiter one (ps.flatMap (·.words)) os t [] ∧
      os.flatMap (·.out1) = (turns one ps).flatMap (·.words) ∧
      os.flatMap (·.out2) = (turns (!one) ps).flatMap (·.words) := by
  induction ps with
  | nil =>
    intro one
    exact ⟨[], one, .refl one [], by cases one <;> rfl, by cases one <;> rfl⟩
  | cons p ps ih =>
    intro one
    obtain ⟨os, hrun, hout1, hout2⟩ := arbiter_packet p.packet.ends one (ps.flatMap (·.words))
    obtain ⟨os', t, hmore, hout1', hout2'⟩ := ih (!one)
    refine ⟨os ++ os', t, hrun.trans hmore, ?_, ?_⟩
    · rw [List.flatMap_append, hout1, hout1']
      cases one <;> rfl
    · rw [List.flatMap_append, hout2, hout2']
      cases one <;> rfl

theorem crc_packets (ps : List (Framed N)) :
    ∀ {s : ComputeCrc32 N}, s.crcState = .FIRST → s.crc = 0xdebb20e3 →
      ∃ os t, Rests computeCrc32 [] s (ps.flatMap (·.words)) os t [] ∧
        os.flatten = ps.map fun p => register polynomial 0xdebb20e3 (bitsOf p.bytes) := by
  induction ps with
  | nil =>
    intro s hs _
    exact ⟨[], s, ⟨.refl s [], by simp only [computeCrc32, hs]⟩, rfl⟩
  | cons p ps ih =>
    intro s hs hcrc
    obtain ⟨os, t, hrun, ht, hinit, hout⟩ := crc_words p.packet (ps.flatMap (·.words)) hs
    obtain ⟨os', u, hrests, hout'⟩ := ih ht hinit
    refine ⟨os ++ os', u, hrests.before hrun, ?_⟩
    rw [List.flatten_append, hout, hout', hcrc, List.map_cons, List.singleton_append]

theorem merger_turns (crcs : List (BitVec 32)) :
    ∀ oneM, ∃ os t, Runs roundRobinMerger oneM ⟨turns oneM crcs, turns (!oneM) crcs⟩ os t ⟨[], []⟩ ∧ os.flatten = crcs := by
  induction crcs with
  | nil =>
    intro oneM
    refine ⟨[], oneM, ?_, rfl⟩
    cases oneM <;> exact .refl _ _
  | cons crc crcs ih =>
    intro oneM
    obtain ⟨os, t, hrun, hout⟩ := ih (!oneM)
    have hcall : roundRobinMerger oneM ⟨turns oneM (crc :: crcs), turns (!oneM) (crc :: crcs)⟩ =
        (!oneM, ⟨turns (!oneM) crcs, turns (!!oneM) crcs⟩, [crc]) := by
      cases oneM <;> rfl
    exact ⟨_, t, .call hcall hrun, by rw [List.flatten_cons, hout, List.singleton_append]⟩

def start (ps : List (Framed N)) : IcrcNet N := { input := ps.flatMap (·.words) }

theorem start_finishes (hN : Supported N) (ps : List (Framed N)) :
    Finishes (start ps) (ps.flatMap (·.words))
      (ps.map fun p => register polynomial 0xdebb20e3 (bitsOf (maskedFrom N 0 p.bytes))) := by
  obtain ⟨mo, m, qs, hmask, hdata, hmasked, hbytes⟩ := mask_packets hN ps (s := {}) rfl
  obtain ⟨ao, a, harbiter, hout1, hout2⟩ := arbiter_packets qs true
  obtain ⟨co, c, hcrc1, hco⟩ := crc_packets (turns true qs) (s := {}) rfl rfl
  obtain ⟨co', c', hcrc2, hco'⟩ := crc_packets (turns false qs) (s := {}) rfl rfl
  have hcrcs : (qs.map fun q => register polynomial 0xdebb20e3 (bitsOf q.bytes)) =
      ps.map fun p => register polynomial 0xdebb20e3 (bitsOf (maskedFrom N 0 p.bytes)) := by
    have hmap := congrArg (List.map fun bytes => register polynomial 0xdebb20e3 (bitsOf bytes)) hbytes
    rwa [List.map_map, List.map_map] at hmap
  obtain ⟨ro, r, hmerger, hro⟩ := merger_turns (qs.map fun q => register polynomial 0xdebb20e3 (bitsOf q.bytes)) true
  rw [turns_map, turns_map, ← hco, Bool.not_true, ← hco'] at hmerger
  rw [← hmasked] at harbiter
  rw [← hout1] at hcrc1
  rw [Bool.not_true] at hout2
  rw [← hout2] at hcrc2
  rw [← hcrcs, ← hro, ← hdata]
  refine .intro (n := start ps) ⟨hmask, rfl⟩ ⟨harbiter, rfl⟩ hcrc1 hcrc2 ⟨hmerger, ?_⟩
  cases r <;> rfl

/-! ## The mask that comes back -/

/-- The bits that are changed behind the first 256 words: the zeros that the mask is put over again. -/
def remasked (N : Nat) (bytes : List (BitVec 8)) : List (BitVec 8) :=
  bytes.mapIdx fun i b => if i < 256 * N then 0 else variantByte (i % (256 * N)) &&& ~~~b

/-- The CRC-32 cannot tell the packet from the one with these bits changed: the generator divides them. -/
def Unnoticed (N : Nat) (bytes : List (BitVec 8)) : Prop :=
  generator polynomial ∣ bitsPoly (bitsOf (remasked N bytes))

theorem bitsOf_xor {as bs : List (BitVec 8)} (hlen : as.length = bs.length) :
    bitsOf (List.zipWith (· ^^^ ·) as bs) = List.zipWith (· ^^ ·) (bitsOf as) (bitsOf bs) := by
  induction as generalizing bs with
  | nil => rfl
  | cons a as ih =>
    cases bs with
    | nil => cases hlen
    | cons b bs =>
      have hbyte : (List.range 8).map (a ^^^ b).getLsbD =
          List.zipWith (· ^^ ·) ((List.range 8).map a.getLsbD) ((List.range 8).map b.getLsbD) := by
        rw [List.zipWith_map, List.zipWith_self]
        exact List.map_congr_left fun i _ => BitVec.getLsbD_xor
      rw [List.zipWith_cons_cons, bitsOf, List.flatMap_cons]
      change _ ++ bitsOf _ = _
      rw [ih (Nat.succ.inj hlen), hbyte, ← List.zipWith_append (by simp)]
      rfl

theorem masks_differ (hN : 0 < N) (bytes : List (BitVec 8)) :
    List.zipWith (· ^^^ ·) (maskedFrom N 0 bytes) (masked bytes) = remasked N bytes := by
  apply List.ext_getElem
  · simp [maskedFrom, masked, remasked]
  · intro i hi hi'
    simp only [maskedFrom, masked, remasked, List.getElem_zipWith, List.getElem_mapIdx]
    by_cases hlow : i < 256 * N
    · rw [if_pos hlow, Nat.zero_add, Nat.mod_eq_of_lt hlow]
      exact BitVec.xor_self
    · have hxor (b v : BitVec 8) : (b ||| v) ^^^ (b ||| 0#8) = v &&& ~~~b := by
        apply BitVec.eq_of_getLsbD_eq
        intro j hj
        rw [BitVec.or_zero, BitVec.getLsbD_xor, BitVec.getLsbD_or, BitVec.getLsbD_and, BitVec.getLsbD_not,
          decide_eq_true hj]
        cases b.getLsbD j <;> cases v.getLsbD j <;> rfl
      rw [if_neg hlow, Nat.zero_add, variantByte_zero (i := i) (by omega)]
      exact hxor _ _

theorem length_bitsOf (bytes : List (BitVec 8)) : (bitsOf bytes).length = bytes.length * 8 := by
  rw [bitsOf, List.length_flatMap]
  simp

theorem register_masked_iff (hN : 0 < N) (bytes : List (BitVec 8)) :
    register polynomial 0xdebb20e3 (bitsOf (maskedFrom N 0 bytes)) = icrc bytes ↔ Unnoticed N bytes := by
  have hlen : (maskedFrom N 0 bytes).length = (masked bytes).length := by simp [maskedFrom, masked]
  rw [icrc_eq, register_eq_iff polynomial _ (by rw [length_bitsOf, length_bitsOf, hlen]), ← bitsOf_xor hlen,
    masks_differ hN, register_eq_zero_iff polynomial (by decide)]
  rfl

theorem register_zeros (n : Nat) : register polynomial 0 (bitsOf (List.replicate n 0)) = 0 := by
  induction n with
  | zero => rfl
  | succ n ih =>
    have hbyte : register polynomial 0 (bitsOf [0]) = 0 := by decide
    have hfirst : List.replicate (n + 1) (0 : BitVec 8) = [0] ++ List.replicate n 0 := List.replicate_succ
    rw [hfirst, bitsOf_append, register_append, hbyte, ih]

theorem unnoticed_iff (bytes : List (BitVec 8)) :
    Unnoticed N bytes ↔ register polynomial 0 (bitsOf (remasked N bytes)) = 0 :=
  (register_eq_zero_iff polynomial (by decide) _).symm

theorem remasked_append {bytes more : List (BitVec 8)} (hlen : bytes.length = 256 * N) (hmore : more.length ≤ 256 * N) :
    remasked N (bytes ++ more) = List.replicate (256 * N) 0 ++ more.mapIdx fun i b => variantByte i &&& ~~~b := by
  rw [remasked, List.mapIdx_append]
  congr 1
  · apply List.ext_getElem
    · simp [hlen]
    · intro i hi hi'
      rw [List.length_replicate] at hi'
      rw [List.getElem_mapIdx, List.getElem_replicate, if_pos hi']
  · apply List.ext_getElem
    · simp
    · intro i hi hi'
      rw [List.length_mapIdx] at hi'
      have hlow : ¬i + bytes.length < 256 * N := by omega
      have hmod : (i + bytes.length) % (256 * N) = i := by
        rw [hlen, Nat.add_mod_right, Nat.mod_eq_of_lt (by omega)]
      rw [List.getElem_mapIdx, List.getElem_mapIdx, if_neg hlow, hmod]

theorem unnoticed_short {bytes : List (BitVec 8)} (hlen : bytes.length ≤ 256 * N) : Unnoticed N bytes := by
  have hzero : remasked N bytes = List.replicate bytes.length 0 := by
    apply List.ext_getElem
    · simp [remasked]
    · intro i hi hi'
      rw [List.length_replicate] at hi'
      simp only [remasked, List.getElem_mapIdx, List.getElem_replicate]
      exact if_pos (by omega)
  rw [unnoticed_iff, hzero]
  exact register_zeros _

theorem icrcs_of (hN : Supported N) (ps : List (Framed N)) {t : IcrcNet N}
    (hreach : Reach IcrcNet.step anyStep (start ps) t) (hrest : t.AtRest) :
    t.crcFifo = ps.map (fun p => icrc p.bytes) ↔ ∀ p ∈ ps, Unnoticed N p.bytes := by
  have hpos : 0 < N := by rcases hN with rfl | rfl | rfl | rfl <;> decide
  rw [(((start_finishes hN ps).reach hreach).at_rest hrest).2, List.map_inj_left]
  exact forall₂_congr fun p _ => register_masked_iff hpos p.bytes

/-- In whatever order the processes are called, they can come to rest; and at rest there is one value for each packet, in
order, and these are the ICRCs exactly if the CRC-32 does not notice the bits that are changed behind 256 words. -/
theorem icrcs_iff (hN : Supported N) (ps : List (Framed N)) :
    (∀ n, Reach IcrcNet.step anyStep (start ps) n → ∃ t, Reach IcrcNet.step anyStep n t ∧ t.AtRest) ∧
    ∀ t, Reach IcrcNet.step anyStep (start ps) t → t.AtRest →
      (t.crcFifo = ps.map (fun p => icrc p.bytes) ↔ ∀ p ∈ ps, Unnoticed N p.bytes) :=
  ⟨fun _ hreach => ((start_finishes hN ps).reach hreach).rest, fun _ hreach hrest => icrcs_of hN ps hreach hrest⟩

/-- Two packets of one word. -/
theorem icrcs_two : ∃ t, Reach IcrcNet.step anyStep
      (start (N := 8) [.single [0x60, 1] (by decide), .single [0x60, 2] (by decide)]) t ∧ t.AtRest ∧
    t.crcFifo = [icrc [0x60, 1], icrc [0x60, 2]] := by
  have hiff := icrcs_iff (N := 8) (.inl rfl) [.single [0x60, 1] (by decide), .single [0x60, 2] (by decide)]
  obtain ⟨t, hreach, hrest⟩ := hiff.1 _ (Reach.refl _)
  refine ⟨t, hreach, hrest, (hiff.2 t hreach hrest).mpr fun p hp => unnoticed_short ?_⟩
  rcases List.mem_pair.mp hp with rfl | rfl <;> decide

/-- 257 words of zeros at 64 bits. -/
def longBytes : List (BitVec 8) := List.replicate (256 * 8) 0 ++ List.replicate 8 0

/-- In the last word the mask comes back. -/
theorem mask_again : ∃ p : Framed 8, p.bytes = longBytes ∧ ∃ t, Reach IcrcNet.step anyStep (start [p]) t ∧ t.AtRest ∧
    t.crcFifo ≠ [icrc p.bytes] := by
  have hne : longBytes ≠ [] := List.append_ne_nil_of_right_ne_nil _ (List.cons_ne_nil _ _)
  obtain ⟨ws, hws, -⟩ := Axi.exists_packet (N := 8) (by decide) hne
  have hframed : ∃ p : Framed 8, p.bytes = longBytes := ⟨⟨ws, longBytes, hws⟩, rfl⟩
  obtain ⟨p, hp⟩ := hframed
  obtain ⟨t, hreach, hrest⟩ := (start_finishes (.inl rfl) [p]).rest
  refine ⟨p, hp, t, hreach, hrest, fun h => ?_⟩
  have hun := (icrcs_of (.inl rfl) [p] hreach hrest).mp h p (List.mem_singleton_self p)
  rw [hp, unnoticed_iff, longBytes, remasked_append List.length_replicate (by decide), bitsOf_append, register_append,
    register_zeros] at hun
  exact absurd hun (by decide +kernel)

end FpgaNetworkStack.Crc
