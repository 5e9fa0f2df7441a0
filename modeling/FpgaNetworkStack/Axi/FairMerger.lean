import FpgaNetworkStack.Axi.Keep
import FpgaNetworkStack.Lib.Interleave

/-!
# Two streams of packets on one (`fair_pkg_merger`, `axi_utils.hpp`)

After the first word of a packet the merger passes on the words of the input it believes the packet to come from.
For `in0` it goes to `FWD1`, where it reads `in1`, and there it never turns its preference to `in1`.  So it is right
about the packets of `in0` that have one word, and fair as long as they do not come in a row.
-/

namespace FpgaNetworkStack.Axi

open Lib

variable {N : Nat}

inductive FpmState where
  | IDLE | FWD0 | FWD1
  deriving DecidableEq, Repr

structure FairPkgMerger where
  state : FpmState := .IDLE
  mergePref : Bool := true
  deriving DecidableEq

@[ext]
structure MergerIn (N : Nat) where
  in0 : List (Word N) := []
  in1 : List (Word N) := []
  deriving DecidableEq

def fairPkgMerger (s : FairPkgMerger) (i : MergerIn N) : FairPkgMerger × MergerIn N × List (Word N) :=
  match s.state with
  | .IDLE =>
    if s.mergePref then
      match i.in0, i.in1 with
      | currWord :: rest, _ =>
        ({ s with state := if currWord.last then .IDLE else .FWD1 }, { i with in0 := rest }, [currWord])
      | [], currWord :: rest =>
        ({ s with state := if currWord.last then .IDLE else .FWD1 }, { i with in1 := rest }, [currWord])
      | [], [] => (s, i, [])
    else
      match i.in0, i.in1 with
      | _, currWord :: rest =>
        ({ s with state := if currWord.last then .IDLE else .FWD1 }, { i with in1 := rest }, [currWord])
      | currWord :: rest, [] =>
        ({ s with state := if currWord.last then .IDLE else .FWD0 }, { i with in0 := rest }, [currWord])
      | [], [] => (s, i, [])
  | .FWD0 =>
    match i.in0 with
    | [] => (s, i, [])
    | currWord :: rest =>
      (if currWord.last then ⟨.IDLE, false⟩ else s, { i with in0 := rest }, [currWord])
  | .FWD1 =>
    match i.in1 with
    | [] => (s, i, [])
    | currWord :: rest =>
      (if currWord.last then ⟨.IDLE, true⟩ else s, { i with in1 := rest }, [currWord])

/-! ## The merger and its inputs -/

inductive Source where
  | in0 | in1
  deriving DecidableEq, Repr

def MergerIn.on (i : MergerIn N) : Source → List (Word N)
  | .in0 => i.in0
  | .in1 => i.in1

def MergerIn.push (i : MergerIn N) (k : Source) (w : Word N) : MergerIn N :=
  match k with
  | .in0 => { i with in0 := i.in0 ++ [w] }
  | .in1 => { i with in1 := i.in1 ++ [w] }

/-- The packet that a call begins: the input it is read from, and whether the other one has a word. -/
def turns (s : FairPkgMerger) (i : MergerIn N) : List (Turn Source) :=
  let j := (fairPkgMerger s i).2.1
  if s.state = .IDLE then
    if j.in0.length < i.in0.length then [⟨.in0, !i.in1.isEmpty⟩]
    else if j.in1.length < i.in1.length then [⟨.in1, !i.in0.isEmpty⟩]
    else []
  else []

structure MergerNet (N : Nat) where
  merger : FairPkgMerger := {}
  input : MergerIn N := {}
  /-- The words that have not come in yet. -/
  coming : Source → List (Word N)
  out : List (Word N) := []
  begun : List (Turn Source) := []

inductive MergerAction where
  | arrive (k : Source) | call
  deriving DecidableEq, Repr

namespace MergerNet

def step (s : MergerNet N) : MergerAction → Option (MergerNet N)
  | .arrive k =>
    match s.coming k with
    | [] => none
    | w :: rest => some { s with input := s.input.push k w, coming := Function.update s.coming k rest }
  | .call =>
    let r := fairPkgMerger s.merger s.input
    some { s with
      merger := r.1
      input := r.2.1
      out := s.out ++ r.2.2
      begun := s.begun ++ turns s.merger s.input }

/-- Nothing has come in yet of the packets `ps`. -/
def init (ps : Source → List (List (Word N))) : MergerNet N := { coming := fun k => (ps k).flatten }

/-- Nothing comes in any more, and a call does nothing. -/
def AtEnd (s : MergerNet N) : Prop :=
  (∀ k, s.coming k = []) ∧ fairPkgMerger s.merger s.input = (s.merger, s.input, [])

/-- What is expected of the merger: packets that are not interrupted, every one of them in the end, and none begun while
the other input waits that was begun before. -/
structure Good (ps : Source → List (List (Word N))) (s : MergerNet N) : Prop where
  interleaved : Interleaved ps (s.begun.map (·.source)) s.out
  fair : Fair s.begun
  complete : s.AtEnd → Interleaving ps (s.begun.map (·.source)) s.out

/-- A call that finds a packet of `in0` to begin finds it in one word; and when `in1` waits as well, it was not `in0`
that the packet before came from. -/
def Right (s : MergerNet N) : MergerAction → Prop
  | .arrive _ => True
  | .call => s.merger.state = .IDLE → ∀ w ∈ s.input.in0.head?, w.last = true ∧
      (s.input.in1 = [] ∨ ∀ b ∈ s.begun.getLast?, b.source ≠ .in0)

instance (s : MergerNet N) (a : MergerAction) : Decidable (s.Right a) :=
  match a with
  | .arrive _ => .isTrue trivial
  | .call => inferInstanceAs (Decidable (_ → _))

/-! ## One call -/

section

variable {m : FairPkgMerger} {i : MergerIn N} {w : Word N} {rest : List (Word N)}

/-- The static variables in every run: the preference stays with `in0`. -/
structure Settled (m : FairPkgMerger) : Prop where
  mergePref : m.mergePref = true
  state : m.state ≠ .FWD0

theorem settled_init : Settled {} := ⟨rfl, by decide⟩

theorem call_in0 (hm : Settled m) (hidle : m.state = .IDLE) (hi : i.in0 = w :: rest) :
    fairPkgMerger m i = (⟨if w.last then .IDLE else .FWD1, true⟩, { i with in0 := rest }, [w]) ∧
      turns m i = [⟨.in0, !i.in1.isEmpty⟩] := by
  have hcall : fairPkgMerger m i = (⟨if w.last then .IDLE else .FWD1, true⟩, { i with in0 := rest }, [w]) := by
    simp [fairPkgMerger, hidle, hm.mergePref, hi]
  refine ⟨hcall, ?_⟩
  simp [turns, hcall, hidle, hi]

theorem call_in1 (hm : Settled m) (hidle : m.state = .IDLE) (hi : i.in0 = []) (hi' : i.in1 = w :: rest) :
    fairPkgMerger m i = (⟨if w.last then .IDLE else .FWD1, true⟩, { i with in1 := rest }, [w]) ∧
      turns m i = [⟨.in1, false⟩] := by
  have hcall : fairPkgMerger m i = (⟨if w.last then .IDLE else .FWD1, true⟩, { i with in1 := rest }, [w]) := by
    simp [fairPkgMerger, hidle, hm.mergePref, hi, hi']
  refine ⟨hcall, ?_⟩
  simp [turns, hcall, hidle, hi, hi']

theorem call_forward (hm : Settled m) (hbusy : m.state ≠ .IDLE) (hi : i.in1 = w :: rest) :
    fairPkgMerger m i = (⟨if w.last then .IDLE else .FWD1, true⟩, { i with in1 := rest }, [w]) ∧ turns m i = [] := by
  obtain ⟨state, mergePref⟩ := m
  obtain ⟨rfl, hstate⟩ := hm
  cases state with
  | IDLE => exact absurd rfl hbusy
  | FWD0 => exact absurd rfl hstate
  | FWD1 =>
    refine ⟨?_, rfl⟩
    simp only [fairPkgMerger, hi]
    cases w.last <;> rfl

theorem call_none (hi' : i.in1 = []) (hi : m.state = .IDLE → i.in0 = []) (hm : Settled m) :
    fairPkgMerger m i = (m, i, []) ∧ turns m i = [] := by
  obtain ⟨state, mergePref⟩ := m
  obtain ⟨rfl, hstate⟩ := hm
  cases state with
  | IDLE =>
    have hcall : fairPkgMerger ⟨.IDLE, true⟩ i = (⟨.IDLE, true⟩, i, []) := by simp [fairPkgMerger, hi rfl, hi']
    refine ⟨hcall, ?_⟩
    simp [turns, hcall]
  | FWD0 => exact absurd rfl hstate
  | FWD1 =>
    refine ⟨?_, rfl⟩
    simp only [fairPkgMerger, hi']

/-- What a call can do. -/
theorem call_cases (hm : Settled m) (i : MergerIn N) :
    (fairPkgMerger m i = (m, i, []) ∧ turns m i = [] ∧ i.in1 = [] ∧ (m.state = .IDLE → i.in0 = [])) ∨
    (∃ w rest, m.state = .IDLE ∧ i.in0 = w :: rest ∧
      fairPkgMerger m i = (⟨if w.last then .IDLE else .FWD1, true⟩, { i with in0 := rest }, [w]) ∧
      turns m i = [⟨.in0, !i.in1.isEmpty⟩]) ∨
    (∃ w rest, m.state = .IDLE ∧ i.in0 = [] ∧ i.in1 = w :: rest ∧
      fairPkgMerger m i = (⟨if w.last then .IDLE else .FWD1, true⟩, { i with in1 := rest }, [w]) ∧
      turns m i = [⟨.in1, false⟩]) ∨
    (∃ w rest, m.state = .FWD1 ∧ i.in1 = w :: rest ∧
      fairPkgMerger m i = (⟨if w.last then .IDLE else .FWD1, true⟩, { i with in1 := rest }, [w]) ∧ turns m i = []) := by
  by_cases hidle : m.state = .IDLE
  · by_cases h0 : i.in0 = []
    · by_cases h1 : i.in1 = []
      · obtain ⟨hcall, hturns⟩ := call_none h1 (fun _ => h0) hm
        exact .inl ⟨hcall, hturns, h1, fun _ => h0⟩
      · obtain ⟨w, rest, h1⟩ := List.exists_cons_of_ne_nil h1
        exact .inr (.inr (.inl ⟨w, rest, hidle, h0, h1, call_in1 hm hidle h0 h1⟩))
    · obtain ⟨w, rest, h0⟩ := List.exists_cons_of_ne_nil h0
      exact .inr (.inl ⟨w, rest, hidle, h0, call_in0 hm hidle h0⟩)
  · by_cases h1 : i.in1 = []
    · obtain ⟨hcall, hturns⟩ := call_none h1 (fun h => absurd h hidle) hm
      exact .inl ⟨hcall, hturns, h1, fun h => absurd h hidle⟩
    · obtain ⟨w, rest, h1⟩ := List.exists_cons_of_ne_nil h1
      have hbusy : m.state = .FWD1 := by
        cases hs : m.state with
        | IDLE => exact absurd hs hidle
        | FWD0 => exact absurd hs hm.state
        | FWD1 => rfl
      exact .inr (.inr (.inr ⟨w, rest, hbusy, h1, call_forward hm hidle h1⟩))

theorem Settled.next (w : Word N) : Settled ⟨if w.last then .IDLE else .FWD1, true⟩ := by
  refine ⟨rfl, ?_⟩
  cases w.last <;> decide

end

variable {ps : Source → List (List (Word N))} {s t : MergerNet N} {a : MergerAction}

/-! ## Every run -/

def unread (s : MergerNet N) (k : Source) : List (Word N) := s.input.on k ++ s.coming k

theorem unread_init (ps : Source → List (List (Word N))) (k : Source) : (init ps).unread k = (ps k).flatten := by
  cases k <;> rfl

/-- Every word of `in0` is taken for a packet, and every word that was read is written. -/
structure Log (ps : Source → List (List (Word N))) (s : MergerNet N) : Prop where
  settled : Settled s.merger
  read : ∃ front, (ps .in0).flatten = front ++ s.unread .in0 ∧ front.length = (s.begun.map (·.source)).count .in0
  total : s.out.length + (s.unread .in0).length + (s.unread .in1).length =
    (ps .in0).flatten.length + (ps .in1).flatten.length

theorem log_init : Log ps (init ps) := by
  refine ⟨settled_init, ⟨[], (unread_init ps .in0).symm, rfl⟩, ?_⟩
  rw [unread_init, unread_init]
  exact congrArg (· + _) (Nat.zero_add _)

variable {w : Word N}

theorem unread_arrive {k : Source} {rest : List (Word N)} (h : s.coming k = w :: rest) (j : Source) :
    ({ s with input := s.input.push k w, coming := Function.update s.coming k rest } : MergerNet N).unread j =
      s.unread j := by
  by_cases hj : j = k
  · subst hj
    unfold unread
    rw [h]
    cases j <;> simp [MergerIn.on, MergerIn.push]
  · unfold unread
    cases j <;> cases k <;> simp_all [MergerIn.on, MergerIn.push]

theorem Log.step (h : Log ps s) (hs : s.step a = some t) : Log ps t := by
  obtain ⟨hm, ⟨front, hfront, hlen⟩, htotal⟩ := h
  cases a with
  | arrive k =>
    simp only [MergerNet.step] at hs
    split at hs
    · cases hs
    · next hk =>
        simp only [Option.some.injEq] at hs
        subst hs
        refine ⟨hm, ⟨front, ?_, hlen⟩, ?_⟩
        · rw [unread_arrive hk]
          exact hfront
        · rw [unread_arrive hk, unread_arrive hk]
          exact htotal
  | call =>
    simp only [MergerNet.step, Option.some.injEq] at hs
    subst hs
    unfold unread at hfront htotal
    rcases call_cases hm s.input with ⟨hcall, hturns, -, -⟩ | ⟨w, rest, -, hi, hcall, hturns⟩ |
      ⟨w, rest, -, -, hi, hcall, hturns⟩ | ⟨w, rest, -, hi, hcall, hturns⟩
    · simp only [hcall, hturns, List.append_nil]
      exact ⟨hm, ⟨front, hfront, hlen⟩, htotal⟩
    · simp only [MergerIn.on, hi] at hfront htotal
      simp only [hcall, hturns]
      refine ⟨.next w, ⟨front ++ [w], ?_, ?_⟩, ?_⟩
      · rw [hfront, List.append_assoc]
        rfl
      · simp [hlen]
      · simp [unread, MergerIn.on] at htotal ⊢
        omega
    · simp only [MergerIn.on, hi] at hfront htotal
      simp only [hcall, hturns]
      refine ⟨.next w, ⟨front, hfront, ?_⟩, ?_⟩
      · simp [hlen]
      · simp [unread, MergerIn.on] at htotal ⊢
        omega
    · simp only [MergerIn.on, hi] at hfront htotal
      simp only [hcall, hturns, List.append_nil]
      refine ⟨.next w, ⟨front, hfront, hlen⟩, ?_⟩
      simp [unread, MergerIn.on] at htotal ⊢
      omega

/-! ## Runs that are right -/

-- what is left of a packet behind its first word
theorem ends_tail {p : List (Word N)} (h : Ends (w :: p)) :
    (w.last = true → p = []) ∧ (w.last = false → Ends p) := by
  cases h with
  | last hw => exact ⟨fun _ => rfl, fun hfalse => absurd (hw.symm.trans hfalse) (by decide)⟩
  | cons hw hp => exact ⟨fun htrue => absurd (hw.symm.trans htrue) (by decide), fun _ => hp⟩

variable {qs : List (List (Word N))}

theorem next_packet {l : List (Word N)} (h : w :: l = qs.flatten)
    (hqs : ∀ q ∈ qs, Ends q) : ∃ p later, qs = (w :: p) :: later ∧ l = p ++ later.flatten ∧ Ends (w :: p) := by
  cases qs with
  | nil => cases h
  | cons q later =>
    have hq := hqs q List.mem_cons_self
    cases q with
    | nil => cases hq
    | cons v p =>
      rw [List.flatten_cons, List.cons_append] at h
      obtain ⟨rfl, rfl⟩ := List.cons.inj h
      exact ⟨p, later, rfl, rfl, hq⟩

/-- Between two packets, or within a packet of `in1`. -/
inductive Position (ps : Source → List (List (Word N))) (s : MergerNet N) : Prop
  | idle (served : List (Source × List (Word N))) (rest : Source → List (List (Word N))) (hstate : s.merger.state = .IDLE)
      (hps : ∀ k, ps k = servedFrom served k ++ rest k) (hunread : ∀ k, s.unread k = (rest k).flatten)
      (hbegun : s.begun.map (·.source) = served.map (·.1)) (hout : s.out = served.flatMap (·.2))
  | within (served : List (Source × List (Word N))) (rest : Source → List (List (Word N))) (part more : List (Word N))
      (hstate : s.merger.state = .FWD1) (hpart : part ≠ []) (hmore : Ends more)
      (hps : ∀ k, ps k = servedFrom (served ++ [(.in1, part ++ more)]) k ++ rest k)
      (hother : s.unread .in0 = (rest .in0).flatten) (hunread : s.unread .in1 = more ++ (rest .in1).flatten)
      (hbegun : s.begun.map (·.source) = served.map (·.1) ++ [.in1]) (hout : s.out = served.flatMap (·.2) ++ part)

structure Inv (ps : Source → List (List (Word N))) (s : MergerNet N) : Prop where
  settled : Settled s.merger
  position : Position ps s
  fair : Fair s.begun

theorem inv_init : Inv ps (init ps) :=
  ⟨settled_init, .idle [] ps rfl (fun _ => rfl) (unread_init ps) rfl rfl, .nil⟩

theorem Position.arrive {k : Source} {rest : List (Word N)} (h : Position ps s) (hk : s.coming k = w :: rest) :
    Position ps { s with input := s.input.push k w, coming := Function.update s.coming k rest } := by
  cases h with
  | idle served rest hstate hps hunread hbegun hout =>
    exact .idle served rest hstate hps (fun j => (unread_arrive hk j).trans (hunread j)) hbegun hout
  | within served rest part more hstate hpart hmore hps hother hunread hbegun hout =>
    exact .within served rest part more hstate hpart hmore hps ((unread_arrive hk .in0).trans hother) ((unread_arrive hk .in1).trans hunread)
      hbegun hout

theorem rest_ends (hends : ∀ k, ∀ p ∈ ps k, Ends p) {served : List (Source × List (Word N))}
    {rest : Source → List (List (Word N))} (hps : ∀ k, ps k = servedFrom served k ++ rest k) (k : Source) :
    ∀ p ∈ rest k, Ends p := by
  intro p hp
  apply hends k p
  rw [hps k]
  exact List.mem_append_right _ hp

theorem Position.take_in0 {in0 : List (Word N)} {b : Bool} (h : Position ps s)
    (hends : ∀ k, ∀ p ∈ ps k, Ends p) (hidle : s.merger.state = .IDLE) (hi : s.input.in0 = w :: in0) (hw : w.last = true) :
    Position ps { s with
      merger := ⟨if w.last then .IDLE else .FWD1, true⟩
      input := { s.input with in0 := in0 }
      out := s.out ++ [w]
      begun := s.begun ++ [⟨.in0, b⟩] } := by
  cases h with
  | within _ _ _ _ hstate => exact absurd (hidle.symm.trans hstate) (by decide)
  | idle served rest _ hps hunread hbegun hout =>
    have hin0 : w :: (in0 ++ s.coming .in0) = (rest .in0).flatten := by
      rw [← hunread, unread, MergerIn.on, hi]
      rfl
    obtain ⟨p, later, hrest, hlater, hp⟩ := next_packet hin0 (rest_ends hends hps .in0)
    cases (ends_tail hp).1 hw
    refine .idle (served ++ [(.in0, [w])]) (Function.update rest .in0 later) (by simp [hw])
      (servedFrom_next hps hrest) ?_ ?_ ?_
    · intro k
      cases k with
      | in0 => exact hlater
      | in1 => exact hunread .in1
    · simp [hbegun]
    · simp [hout]

theorem Position.take_in1 {in1 : List (Word N)} {b : Bool} (h : Position ps s)
    (hends : ∀ k, ∀ p ∈ ps k, Ends p) (hidle : s.merger.state = .IDLE) (hi : s.input.in1 = w :: in1) :
    Position ps { s with
      merger := ⟨if w.last then .IDLE else .FWD1, true⟩
      input := { s.input with in1 := in1 }
      out := s.out ++ [w]
      begun := s.begun ++ [⟨.in1, b⟩] } := by
  cases h with
  | within _ _ _ _ hstate => exact absurd (hidle.symm.trans hstate) (by decide)
  | idle served rest _ hps hunread hbegun hout =>
    have hin1 : w :: (in1 ++ s.coming .in1) = (rest .in1).flatten := by
      rw [← hunread, unread, MergerIn.on, hi]
      rfl
    obtain ⟨p, later, hrest, hlater, hp⟩ := next_packet hin1 (rest_ends hends hps .in1)
    have hps' := servedFrom_next hps hrest
    cases hw : w.last with
    | true =>
      cases (ends_tail hp).1 hw
      refine .idle (served ++ [(.in1, [w])]) (Function.update rest .in1 later) (by simp)
        hps' ?_ ?_ ?_
      · intro k
        cases k with
        | in0 => exact hunread .in0
        | in1 => exact hlater
      · simp [hbegun]
      · simp [hout]
    | false =>
      refine .within served (Function.update rest .in1 later) [w] p (by simp)
        (List.cons_ne_nil _ _) ((ends_tail hp).2 hw) hps' ?_ ?_ ?_ ?_
      · exact hunread .in0
      · exact hlater
      · simp [hbegun]
      · simp [hout]

theorem Position.forward {in1 : List (Word N)} (h : Position ps s) (hbusy : s.merger.state = .FWD1)
    (hi : s.input.in1 = w :: in1) :
    Position ps { s with
      merger := ⟨if w.last then .IDLE else .FWD1, true⟩
      input := { s.input with in1 := in1 }
      out := s.out ++ [w] } := by
  cases h with
  | idle _ _ hstate => exact absurd (hbusy.symm.trans hstate) (by decide)
  | within served rest part more _ hpart hmore hps hother hunread hbegun hout =>
    have hin1 : w :: (in1 ++ s.coming .in1) = more ++ (rest .in1).flatten := by
      rw [← hunread, unread, MergerIn.on, hi]
      rfl
    obtain ⟨v, more, rfl⟩ := List.exists_cons_of_ne_nil (l := more) (by rintro rfl; cases hmore)
    obtain ⟨rfl, hlater⟩ := List.cons.inj hin1
    cases hw : w.last with
    | true =>
      cases (ends_tail hmore).1 hw
      refine .idle (served ++ [(.in1, part ++ [w])]) rest (by simp) hps ?_ ?_ ?_
      · intro k
        cases k with
        | in0 => exact hother
        | in1 => exact hlater
      · simp [hbegun]
      · simp [hout]
    | false =>
      refine .within served rest (part ++ [w]) more (by simp) (by simp)
        ((ends_tail hmore).2 hw) ?_ hother hlater hbegun ?_
      · rw [List.append_assoc]
        exact hps
      · simp [hout]

theorem Inv.step (h : Inv ps s) (hends : ∀ k, ∀ p ∈ ps k, Ends p) (hright : s.Right a) (hs : s.step a = some t) :
    Inv ps t := by
  obtain ⟨hm, hposition, hfair⟩ := h
  cases a with
  | arrive k =>
    simp only [MergerNet.step] at hs
    split at hs
    · cases hs
    · next hk =>
        simp only [Option.some.injEq] at hs
        subst hs
        exact ⟨hm, hposition.arrive hk, hfair⟩
  | call =>
    simp only [MergerNet.step, Option.some.injEq] at hs
    subst hs
    rcases call_cases hm s.input with ⟨hcall, hturns, -, -⟩ | ⟨w, rest, hidle, hi, hcall, hturns⟩ |
      ⟨w, rest, hidle, -, hi, hcall, hturns⟩ | ⟨w, rest, hbusy, hi, hcall, hturns⟩
    · simp only [hcall, hturns, List.append_nil]
      exact ⟨hm, hposition, hfair⟩
    · simp only [hcall, hturns]
      obtain ⟨hw, hturn⟩ := hright hidle w (by rw [hi]; rfl)
      refine ⟨.next w, hposition.take_in0 hends hidle hi hw, fair_snoc.mpr ⟨hfair, fun b hb hsource => ?_⟩⟩
      rcases hturn with hnone | hother
      · simp [hnone]
      · exact absurd hsource (hother b hb)
    · simp only [hcall, hturns]
      exact ⟨.next w, hposition.take_in1 hends hidle hi, fair_snoc.mpr ⟨hfair, fun _ _ _ => rfl⟩⟩
    · simp only [hcall, hturns, List.append_nil]
      exact ⟨.next w, hposition.forward hbusy hi, hfair⟩

theorem AtEnd.inputs (h : s.AtEnd) (hm : Settled s.merger) : s.input.in1 = [] ∧ (s.merger.state = .IDLE → s.input.in0 = []) := by
  rcases call_cases hm s.input with ⟨-, -, h1, h0⟩ | ⟨w, rest, -, -, hcall, -⟩ | ⟨w, rest, -, -, -, hcall, -⟩ |
    ⟨w, rest, -, -, hcall, -⟩
  · exact ⟨h1, h0⟩
  · exact absurd (congrArg (·.2.2) (hcall.symm.trans h.2)) (List.cons_ne_nil _ _)
  · exact absurd (congrArg (·.2.2) (hcall.symm.trans h.2)) (List.cons_ne_nil _ _)
  · exact absurd (congrArg (·.2.2) (hcall.symm.trans h.2)) (List.cons_ne_nil _ _)

-- packets are not empty
theorem no_packets (hqs : ∀ q ∈ qs, Ends q) (h : qs.flatten = []) : qs = [] := by
  cases qs with
  | nil => rfl
  | cons q qs =>
    obtain ⟨hq, -⟩ := List.append_eq_nil_iff.mp h
    have hends := hqs q List.mem_cons_self
    rw [hq] at hends
    cases hends

theorem Inv.good (h : Inv ps s) (hends : ∀ k, ∀ p ∈ ps k, Ends p) : Good ps s := by
  obtain ⟨hm, hposition, hfair⟩ := h
  cases hposition with
  | idle served rest hstate hps hunread hbegun hout =>
    refine ⟨?_, hfair, fun hend => ⟨served, fun k => ?_, hbegun.symm, hout⟩⟩
    · rw [hbegun, hout]
      exact .whole fun k => ⟨rest k, (hps k).symm⟩
    · obtain ⟨h1, h0⟩ := hend.inputs hm
      have hnone : (rest k).flatten = [] := by
        rw [← hunread, unread, hend.1 k]
        cases k with
        | in0 => rw [MergerIn.on, h0 hstate, List.nil_append]
        | in1 => rw [MergerIn.on, h1, List.nil_append]
      rw [hps, no_packets (rest_ends hends hps k) hnone, List.append_nil]
  | within served rest part more hstate hpart hmore hps hother hunread hbegun hout =>
    have hleft : more ≠ [] := by
      rintro rfl
      cases hmore
    refine ⟨?_, hfair, fun hend => absurd ?_ hleft⟩
    · rw [hbegun, hout]
      exact .within hpart hleft fun k => ⟨rest k, (hps k).symm⟩
    · have hnone : s.unread .in1 = [] := by
        rw [unread, hend.1 .in1, MergerIn.on, (hend.inputs hm).1, List.nil_append]
      exact (List.append_eq_nil_iff.mp (hunread.symm.trans hnone)).1

/-! ## Runs that end well -/

theorem length_served (served : List (Source × List (Word N))) :
    (served.flatMap (·.2)).length = (servedFrom served .in0).flatten.length + (servedFrom served .in1).flatten.length := by
  induction served with
  | nil => rfl
  | cons kp served ih =>
    obtain ⟨k, p⟩ := kp
    rw [List.flatMap_cons, List.length_append, ih]
    cases k <;> simp [servedFrom] <;> omega

-- as many items as packets
theorem length_one (hqs : ∀ q ∈ qs, q ≠ []) (h : qs.flatten.length = qs.length) :
    ∀ q ∈ qs, q.length = 1 := by
  have hle {qs : List (List (Word N))} (hqs : ∀ q ∈ qs, q ≠ []) : qs.length ≤ qs.flatten.length := by
    induction qs with
    | nil => exact Nat.le_refl 0
    | cons q qs ih =>
      obtain ⟨hq, hqs⟩ := List.forall_mem_cons.mp hqs
      have hpos := List.length_pos_iff.mpr hq
      have hrest := ih hqs
      rw [List.flatten_cons, List.length_append, List.length_cons]
      omega
  induction qs with
  | nil => exact fun q hq => absurd hq List.not_mem_nil
  | cons q qs ih =>
    obtain ⟨hq, hqs⟩ := List.forall_mem_cons.mp hqs
    have hpos := List.length_pos_iff.mpr hq
    have hrest := hle hqs
    rw [List.flatten_cons, List.length_append, List.length_cons] at h
    exact List.forall_mem_cons.mpr ⟨by omega, ih hqs (by omega)⟩

/-- When all packets came out whole, those of `in0` have one word: every word of `in0` was taken for one. -/
theorem Good.one_word (h : Good ps s) (hlog : Log ps s) (hend : s.AtEnd) (hends : ∀ k, ∀ p ∈ ps k, Ends p) :
    ∀ p ∈ ps .in0, p.length = 1 := by
  have hall := h.complete hend
  have hcount := hall.count .in0
  obtain ⟨served, hserved, -, hout⟩ := hall
  have hlength := length_served served
  rw [hserved, hserved, ← hout] at hlength
  obtain ⟨front, hfront, hlen⟩ := hlog.read
  have htotal := hlog.total
  have hwords := congrArg List.length hfront
  rw [List.length_append] at hwords
  refine length_one (fun p hp => ?_) (by omega)
  rintro rfl
  cases hends .in0 [] hp

theorem begun_grows (h : Reach step anyStep s t) : s.begun <+: t.begun := by
  refine h.invariant (P := fun u => s.begun <+: u.begun) (List.prefix_refl _) ?_
  intro u a v hu _ hv
  cases a with
  | arrive k =>
    simp only [MergerNet.step] at hv
    split at hv
    · cases hv
    · simp only [Option.some.injEq] at hv
      subst hv
      exact hu
  | call =>
    simp only [MergerNet.step, Option.some.injEq] at hv
    subst hv
    exact hu.trans (List.prefix_append _ _)

/-- A run that ends well has only right steps. -/
theorem runIf_of_good (hends : ∀ k, ∀ p ∈ ps k, Ends p) (hend : t.AtEnd) (hgood : Good ps t) (htlog : Log ps t)
    (as : List MergerAction) :
    ∀ {s : MergerNet N}, Log ps s → run step s as = some t → runIf step Right s as = some t := by
  induction as with
  | nil => exact fun _ hrun => hrun
  | cons a as ih =>
    intro s hlog hrun
    obtain ⟨u, hu, hmore⟩ := Option.bind_eq_some_iff.mp hrun
    have hright : s.Right a := by
      cases a with
      | arrive k => trivial
      | call =>
        intro hidle w hw
        obtain ⟨rest, hi⟩ : ∃ rest, s.input.in0 = w :: rest := List.head?_eq_some_iff.mp hw
        obtain ⟨-, hturns⟩ := call_in0 hlog.settled hidle hi
        constructor
        · -- the packet of the word has no other
          obtain ⟨front, hfront, -⟩ := hlog.read
          have hmem : w ∈ (ps .in0).flatten := by
            rw [hfront, unread, MergerIn.on, hi]
            exact List.mem_append_right _ List.mem_cons_self
          obtain ⟨p, hp, hwp⟩ := List.mem_flatten.mp hmem
          obtain ⟨v, rfl⟩ := List.length_eq_one_iff.mp (hgood.one_word htlog hend hends p hp)
          cases List.mem_singleton.mp hwp
          cases hends .in0 _ hp with
          | last hlast => exact hlast
          | cons _ hnil => cases hnil
        · simp only [MergerNet.step, Option.some.injEq] at hu
          subst hu
          have hfair := hgood.fair.of_prefix (begun_grows (reach_of_run hmore))
          simp only [hturns] at hfair
          by_cases hnone : s.input.in1 = []
          · exact .inl hnone
          · refine .inr fun b hb hsource => hnone ?_
            have hturn := (fair_snoc.mp hfair).2 b hb hsource
            exact List.isEmpty_iff.mp (by simpa using hturn)
    rw [runIf, if_pos hright, hu]
    exact ih (hlog.step hu) hmore

/-- Every run of right steps is good in every state; a run that came to its end is good exactly when all of its steps
were right. -/
theorem fair_merger_runs (ps : Source → List (List (Word N))) (hends : ∀ k, ∀ p ∈ ps k, Ends p) :
    (∀ as s, runIf step Right (init ps) as = some s → Good ps s) ∧
      ∀ as s, run step (init ps) as = some s → s.AtEnd → (Good ps s ↔ runIf step Right (init ps) as = some s) := by
  have hgood (as : List MergerAction) (s : MergerNet N) (h : runIf step Right (init ps) as = some s) : Good ps s := by
    refine Inv.good ?_ hends
    exact (reach_of_runIf h).invariant inv_init fun _ _ _ hu hright hv => hu.step hends hright hv
  refine ⟨hgood, fun as s hrun hend => ⟨fun h => ?_, hgood as s⟩⟩
  have hlog : Log ps s := (reach_of_run hrun).invariant log_init fun _ _ _ hu _ hv => hu.step hv
  exact runIf_of_good hends hend h hlog as log_init hrun

def byteWord (b : BitVec 8) (last : Bool) : Word 8 := .ofBytes [b] (Nat.le_add_left 1 7) last

def onePackets : Source → List (List (Word 8))
  | .in0 => [[byteWord 1 true]]
  | .in1 => [[byteWord 2 false, byteWord 3 true]]

theorem onePackets_ends : ∀ k, ∀ p ∈ onePackets k, Ends p
  | .in0 => List.forall_mem_singleton.mpr (.last rfl)
  | .in1 => List.forall_mem_singleton.mpr (.cons rfl (.last rfl))

/-- A packet of one word waits while one of two words is passed on. -/
theorem fair_merger_waits : ∃ s, runIf step Right (init onePackets)
    [.arrive .in1, .call, .arrive .in0, .arrive .in1, .call, .call] = some s ∧
      s.out = [byteWord 2 false, byteWord 3 true, byteWord 1 true] ∧ Good onePackets s := by
  have h : (runIf step Right (init onePackets)
      [.arrive .in1, .call, .arrive .in0, .arrive .in1, .call, .call]).map (·.out) =
        some [byteWord 2 false, byteWord 3 true, byteWord 1 true] := by decide
  obtain ⟨s, hs, hout⟩ := Option.map_eq_some_iff.mp h
  exact ⟨s, hs, hout, (fair_merger_runs onePackets onePackets_ends).1 _ s hs⟩

def twoWords : Source → List (List (Word 8))
  | .in0 => [[byteWord 1 false, byteWord 2 true]]
  | .in1 => [[byteWord 3 true]]

theorem twoWords_ends : ∀ k, ∀ p ∈ twoWords k, Ends p
  | .in0 => List.forall_mem_singleton.mpr (.cons rfl (.last rfl))
  | .in1 => List.forall_mem_singleton.mpr (.last rfl)

/-- The packet of `in1` comes out between the two words of the packet of `in0`. -/
theorem fair_merger_interrupts : ¬∀ (N : Nat) (ps : Source → List (List (Word N))), (∀ k, ∀ p ∈ ps k, Ends p) →
    ∀ as s, run step (init ps) as = some s → Good ps s := by
  intro hall
  have hgood := hall 8 twoWords twoWords_ends
    [.arrive .in0, .arrive .in0, .arrive .in1, .call, .call, .call] _ rfl
  have hend := hgood.complete ⟨fun k => by cases k <;> rfl, rfl⟩
  have hcount := hend.count .in0
  revert hcount
  decide

end MergerNet

end FpgaNetworkStack.Axi
