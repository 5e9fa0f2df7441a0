import FpgaNetworkStack.Icmp.EchoReply

/-!
# Error messages (`icmp_server.cpp`)

`udpPortUnreachable` puts an ICMP header in front of a packet from `udpIn` or `ttlIn` and adds up its words;
`udpAddIpHeader` puts a copy of the packet's IP header in front of that, and `insertChecksum` writes the checksum.
-/

namespace FpgaNetworkStack.Icmp

open Lib
open Axi (Lane Word Packet Packets Ends Framed overlay octets)
open Toe (setHalfword reverse16 halfwords internetSum withChecksum)

/-! ## `udpPortUnreachable` -/

inductive UState where
  | UDP_IDLE | UDP_IP | UDP_STREAM | UDP_CS
  deriving DecidableEq, Repr

structure Unreachable where
  udpState : UState := .UDP_IDLE
  udpChecksum : BitVec 20 := 0
  ipWordCounter : BitVec 3 := 0
  streamSource : Fin 2 := 0

/-- `udpIn` and `ttlIn`. -/
@[ext]
structure UnreachableIn where
  input : Fin 2 → List (Word 8)

@[ext]
structure UnreachableOut where
  data : List (Word 8) := []
  header : List (BitVec 64) := []
  value : List (BitVec 16) := []

/-- Which of the output queues are full. -/
structure UnreachableFull where
  data : Bool := false
  header : Bool := false
  value : Bool := false

/-- The four halfwords of a word. -/
def wordSum (data : BitVec 64) : BitVec 20 :=
  (data.extractLsb' 48 16).setWidth 20 + (data.extractLsb' 32 16).setWidth 20 + (data.extractLsb' 16 16).setWidth 20 +
    (data.extractLsb' 0 16).setWidth 20

/-- Destination unreachable, port unreachable; and time exceeded. -/
def icmpHeader (streamSource : Fin 2) : BitVec 64 := if streamSource = 0 then 0x0000000000000303 else 0x000000000000000B

/-- A word of which all bytes are kept. -/
def wordOf (data : BitVec 64) : Word 8 where
  lanes := (octets 8 data).map Lane.kept
  last := false
  length_eq := by rw [List.length_map, Axi.length_octets]

/-- The sum folded twice and complemented. -/
def finish (udpChecksum : BitVec 20) : BitVec 16 :=
  let once := (udpChecksum &&& 0xFFFF#20) + udpChecksum >>> 16
  let twice := (once &&& 0xFFFF#20) + once >>> 16
  (~~~twice).extractLsb' 0 16

def udpPortUnreachable (full : UnreachableFull) (s : Unreachable) (i : UnreachableIn) :
    Unreachable × UnreachableIn × UnreachableOut :=
  match s.udpState with
  | .UDP_IDLE =>
    if ((i.input 0).isEmpty && (i.input 1).isEmpty) || full.data then (s, i, {})
    else
      let streamSource := if (i.input 0).isEmpty then 1 else 0
      (⟨.UDP_IP, wordSum (icmpHeader streamSource), 0, streamSource⟩, i, { data := [wordOf (icmpHeader streamSource)] })
  | .UDP_IP =>
    match i.input s.streamSource with
    | [] => (s, i, {})
    | tempWord :: rest =>
      if full.data || full.header then (s, i, {})
      else
        (if s.ipWordCounter = 2 then
            { s with udpState := .UDP_STREAM, udpChecksum := s.udpChecksum + wordSum tempWord.data }
          else
            { s with ipWordCounter := s.ipWordCounter + 1, udpChecksum := s.udpChecksum + wordSum tempWord.data },
          ⟨Function.update i.input s.streamSource rest⟩, { data := [tempWord], header := [tempWord.data] })
  | .UDP_STREAM =>
    match i.input s.streamSource with
    | [] => (s, i, {})
    | tempWord :: rest =>
      if full.data then (s, i, {})
      else
        ({ s with
            udpState := if tempWord.last then .UDP_CS else .UDP_STREAM
            udpChecksum := s.udpChecksum + wordSum tempWord.data },
          ⟨Function.update i.input s.streamSource rest⟩, { data := [tempWord] })
  | .UDP_CS =>
    if full.value then (s, i, {}) else ({ s with udpState := .UDP_IDLE }, i, { value := [finish s.udpChecksum] })

/-! ## `udpAddIpHeader` -/

inductive AState where
  | AIP_IDLE | AIP_IP | AIP_MERGE | AIP_STREAM | AIP_RESIDUE
  deriving DecidableEq, Repr

structure AddIpHeader where
  addIpState : AState := .AIP_IDLE
  tempWord : Word 8 := .zero
  sourceIP : BitVec 32 := 0

structure AddIpHeaderIn where
  data : List (Word 8) := []
  header : List (BitVec 64) := []

/-- The first word of the header, with the length of the message. -/
def withLength (header : BitVec 64) : Word 8 :=
  let tempLength := reverse16 (header.extractLsb' 16 16)
  setHalfword 2 (reverse16 (tempLength + 28)) (wordOf header)

/-- The second one: a TTL of 128, ICMP, and the address 1.1.1.1. -/
def withProtocol (header : BitVec 64) : Word 8 where
  lanes := (overlay [0x80, 0x01] (wordOf header)).lanes.take 4 ++ List.replicate 4 (Lane.kept 1)
  last := false
  length_eq := by
    rw [List.length_append, List.length_take, (overlay [0x80, 0x01] (wordOf header)).length_eq, List.length_replicate]
    rfl

/-- The upper half of a word and the lower half of the next one, all of it kept. -/
def halves (prev : List (BitVec 8)) (curr : Word 8) (h : prev.length = 4) : Word 8 where
  lanes := prev.map Lane.kept ++ (curr.lanes.take 4).map fun l => Lane.kept l.data
  last := false
  length_eq := by
    rw [List.length_append, List.length_map, h, List.length_map, List.length_take, curr.length_eq]
    rfl

def upperHalf (w : Word 8) : List (BitVec 8) := (w.lanes.drop 4).map (·.data)

theorem length_upperHalf (w : Word 8) : (upperHalf w).length = 4 := by
  rw [upperHalf, List.length_map, List.length_drop, w.length_eq]

/-- What is left of the last word. -/
def residue (w : Word 8) : Word 8 where
  lanes := w.lanes.drop 4 ++ List.replicate 4 {}
  last := true
  length_eq := by rw [List.length_append, List.length_drop, w.length_eq, List.length_replicate]

/-- The last word when it ends in its lower half. -/
def lastHalves (prev curr : Word 8) : Word 8 where
  lanes := (upperHalf prev).map Lane.kept ++ curr.lanes.take 4
  last := true
  length_eq := by
    rw [List.length_append, List.length_map, length_upperHalf, List.length_take, curr.length_eq]
    rfl

/-- One call of `udpAddIpHeader`; `full` is that of its output. -/
def udpAddIpHeader (full : Bool) (s : AddIpHeader) (i : AddIpHeaderIn) : AddIpHeader × AddIpHeaderIn × List (Word 8) :=
  match s.addIpState with
  | .AIP_IDLE =>
    match i.header with
    | [] => (s, i, [])
    | header :: rest =>
      if full then (s, i, [])
      else ({ s with addIpState := .AIP_IP, tempWord := withLength header }, { i with header := rest }, [withLength header])
  | .AIP_IP =>
    match i.header with
    | [] => (s, i, [])
    | header :: rest =>
      if full then (s, i, [])
      else
        (⟨.AIP_MERGE, withProtocol header, header.extractLsb' 32 32⟩, { i with header := rest }, [withProtocol header])
  | .AIP_MERGE =>
    match i.header, i.data with
    | _ :: headers, tempWord :: rest =>
      if full then (s, i, [])
      else
        ({ s with addIpState := .AIP_STREAM, tempWord := tempWord }, ⟨rest, headers⟩,
          [halves (octets 4 s.sourceIP) tempWord (Axi.length_octets 4 s.sourceIP)])
    | _, _ => (s, i, [])
  | .AIP_STREAM =>
    match i.data with
    | [] => (s, i, [])
    | tempWord :: rest =>
      if full then (s, i, [])
      else if tempWord.last && tempWord.emptyFrom 4 then
        ({ s with addIpState := .AIP_IDLE, tempWord := tempWord }, { i with data := rest },
          [lastHalves s.tempWord tempWord])
      else
        ({ s with addIpState := if tempWord.last then .AIP_RESIDUE else .AIP_STREAM, tempWord := tempWord },
          { i with data := rest }, [halves (upperHalf s.tempWord) tempWord (length_upperHalf s.tempWord)])
  | .AIP_RESIDUE =>
    if full then (s, i, []) else ({ s with addIpState := .AIP_IDLE }, i, [residue s.tempWord])

/-! ## The order of the packets -/

instance : Append UnreachableIn := ⟨fun i j => ⟨fun k => i.input k ++ j.input k⟩⟩

/-- The packets `ps 0` from `udpIn` and `ps 1` from `ttlIn`, in the order in which they are answered. -/
def Interleaves (ds : List (Fin 2 × Framed 8)) (ps : Fin 2 → List (Framed 8)) : Prop :=
  ∀ k, (ds.filter (·.1 = k)).map (·.2) = ps k

/-- The sum of some words, behind what has been added up. -/
def sumWords (c : BitVec 20) (ws : List (Word 8)) : BitVec 20 := ws.foldl (fun c w => c + wordSum w.data) c

def dataFor (d : Fin 2 × Framed 8) : List (Word 8) := wordOf (icmpHeader d.1) :: d.2.words

def headerFor (d : Fin 2 × Framed 8) : List (BitVec 64) := (d.2.words.take 3).map Word.data

def valueFor (d : Fin 2 × Framed 8) : BitVec 16 := finish (sumWords (wordSum (icmpHeader d.1)) d.2.words)

/-- The words that are still to be read of the packet that has been begun. -/
def Unreachable.Pending (s : Unreachable) (ws : List (Word 8)) : Prop :=
  match s.udpState with
  | .UDP_IDLE | .UDP_CS => ws = []
  | .UDP_IP => Ends ws ∧ ∃ c ≤ 2, s.ipWordCounter = BitVec.ofNat 3 c ∧ 4 ≤ ws.length + c
  | .UDP_STREAM => Ends ws

/-- What is still to be written for them. -/
def Unreachable.header (s : Unreachable) (ws : List (Word 8)) : List (BitVec 64) :=
  if s.udpState = .UDP_IP then (ws.take (3 - s.ipWordCounter.toNat)).map Word.data else []

def Unreachable.value (s : Unreachable) (ws : List (Word 8)) : List (BitVec 16) :=
  if s.udpState = .UDP_IDLE then [] else [finish (sumWords s.udpChecksum ws)]

/-- A packet with its header and at least eight bytes of payload. -/
def Quotable (p : Framed 8) : Prop := 28 ≤ p.bytes.length

theorem Quotable.words (p : Framed 8) (h : Quotable p) : 4 ≤ p.words.length := by
  have hlen := p.packet.length_bytes.1
  unfold Quotable at h
  omega

theorem foldl_input (xs : List UnreachableIn) (i : UnreachableIn) (k : Fin 2) :
    (xs.foldl (· ++ ·) i).input k = i.input k ++ xs.flatMap (·.input k) := by
  induction xs generalizing i with
  | nil => rw [List.foldl_nil, List.flatMap_nil, List.append_nil]
  | cons x xs ih =>
    rw [List.foldl_cons, ih, List.flatMap_cons, ← List.append_assoc]
    rfl

theorem interleaves_nil {ps : Fin 2 → List (Framed 8)} (h : ∀ k, ps k = []) : Interleaves [] ps := fun k => (h k).symm

theorem Interleaves.cons {ds : List (Fin 2 × Framed 8)} {ps : Fin 2 → List (Framed 8)} {k : Fin 2} {p : Framed 8}
    {rest : List (Framed 8)} (h : Interleaves ds (Function.update ps k rest)) (hk : ps k = p :: rest) :
    Interleaves ((k, p) :: ds) ps := by
  intro j
  have hj := h j
  by_cases heq : k = j
  · subst heq
    rw [Function.update_self] at hj
    rw [List.filter_cons_of_pos (by exact decide_eq_true rfl), List.map_cons, hj, hk]
  · rw [Function.update_of_ne (Ne.symm heq)] at hj
    rw [List.filter_cons_of_neg (by simpa using heq), hj]

section

variable {s : Unreachable} {i : UnreachableIn}

/-- What a call does: nothing when it waits for input, else the next step. -/
inductive Unreachable.Calls (s : Unreachable) (i : UnreachableIn) : Unreachable × UnreachableIn × UnreachableOut → Prop
  | idle (hs : s.udpState = .UDP_IDLE) (h : ∀ k, i.input k = []) : Calls s i (s, i, {})
  | waits (hs : s.udpState = .UDP_IP ∨ s.udpState = .UDP_STREAM) (h : i.input s.streamSource = []) : Calls s i (s, i, {})
  | begins (hs : s.udpState = .UDP_IDLE) (k : Fin 2) (h : i.input k ≠ []) :
      Calls s i (⟨.UDP_IP, wordSum (icmpHeader k), 0, k⟩, i, { data := [wordOf (icmpHeader k)] })
  | header (hs : s.udpState = .UDP_IP) (w : Word 8) (rest : List (Word 8)) (h : i.input s.streamSource = w :: rest) :
      Calls s i (if s.ipWordCounter = 2 then
          { s with udpState := .UDP_STREAM, udpChecksum := s.udpChecksum + wordSum w.data }
        else
          { s with
            udpState := .UDP_IP, ipWordCounter := s.ipWordCounter + 1, udpChecksum := s.udpChecksum + wordSum w.data },
        ⟨Function.update i.input s.streamSource rest⟩, { data := [w], header := [w.data] })
  | stream (hs : s.udpState = .UDP_STREAM) (w : Word 8) (rest : List (Word 8)) (h : i.input s.streamSource = w :: rest) :
      Calls s i ({ s with
          udpState := if w.last then .UDP_CS else .UDP_STREAM, udpChecksum := s.udpChecksum + wordSum w.data },
        ⟨Function.update i.input s.streamSource rest⟩, { data := [w] })
  | value (hs : s.udpState = .UDP_CS) : Calls s i ({ s with udpState := .UDP_IDLE }, i, { value := [finish s.udpChecksum] })

theorem Unreachable.Calls.quiet {r : Unreachable × UnreachableIn × UnreachableOut} (h : s.Calls i r) (hr : r.2.2 = {}) :
    (s.udpState = .UDP_IDLE ∧ ∀ k, i.input k = []) ∨
      (s.udpState = .UDP_IP ∨ s.udpState = .UDP_STREAM) ∧ i.input s.streamSource = [] := by
  cases h with
  | idle hs hempty => exact .inl ⟨hs, hempty⟩
  | waits hs hempty => exact .inr ⟨hs, hempty⟩
  | begins | header | stream => exact absurd (congrArg UnreachableOut.data hr) (List.cons_ne_nil _ _)
  | value hs => exact absurd (congrArg UnreachableOut.value hr) (List.cons_ne_nil _ _)

theorem unreachable_calls (s : Unreachable) (i : UnreachableIn) : s.Calls i (udpPortUnreachable {} s i) := by
  cases hs : s.udpState with
  | UDP_IDLE =>
    by_cases hempty : i.input 0 = []
    · by_cases hempty' : i.input 1 = []
      · have hcall : udpPortUnreachable {} s i = (s, i, {}) := by simp [udpPortUnreachable, hs, hempty, hempty']
        rw [hcall]
        exact .idle hs (Fin.forall_fin_two.mpr ⟨hempty, hempty'⟩)
      · have hcall : udpPortUnreachable {} s i =
            (⟨.UDP_IP, wordSum (icmpHeader 1), 0, 1⟩, i, { data := [wordOf (icmpHeader 1)] }) := by
          simp [udpPortUnreachable, hs, hempty, hempty']
        rw [hcall]
        exact .begins hs 1 hempty'
    · have hcall : udpPortUnreachable {} s i =
          (⟨.UDP_IP, wordSum (icmpHeader 0), 0, 0⟩, i, { data := [wordOf (icmpHeader 0)] }) := by
        simp [udpPortUnreachable, hs, hempty]
      rw [hcall]
      exact .begins hs 0 hempty
  | UDP_IP =>
    cases hi : i.input s.streamSource with
    | nil =>
      have hcall : udpPortUnreachable {} s i = (s, i, {}) := by simp only [udpPortUnreachable, hs, hi]
      rw [hcall]
      exact .waits (.inl hs) hi
    | cons w rest =>
      simp only [udpPortUnreachable, hs, hi]
      exact .header hs w rest hi
  | UDP_STREAM =>
    cases hi : i.input s.streamSource with
    | nil =>
      have hcall : udpPortUnreachable {} s i = (s, i, {}) := by simp only [udpPortUnreachable, hs, hi]
      rw [hcall]
      exact .waits (.inr hs) hi
    | cons w rest =>
      simp only [udpPortUnreachable, hs, hi]
      exact .stream hs w rest hi
  | UDP_CS =>
    simp only [udpPortUnreachable, hs]
    exact .value hs

end

/-- What is to come: the rest `ws` of a packet, and then the packets `ps`. -/
def Comes (s : Unreachable) (i : UnreachableIn) (xs : List UnreachableIn) (ws : List (Word 8))
    (ps : Fin 2 → List (Framed 8)) : Prop :=
  ∀ k, i.input k ++ xs.flatMap (·.input k) = (if k = s.streamSource then ws else []) ++ (ps k).flatMap (·.words)

/-- What is written from here on. -/
structure Answers (s : Unreachable) (ws : List (Word 8)) (ds : List (Fin 2 × Framed 8)) (os : List UnreachableOut) :
    Prop where
  data : os.flatMap (·.data) = ws ++ ds.flatMap dataFor
  header : os.flatMap (·.header) = s.header ws ++ ds.flatMap headerFor
  value : os.flatMap (·.value) = s.value ws ++ ds.map valueFor

theorem answers_idle {s : Unreachable} {ws : List (Word 8)} {ds : List (Fin 2 × Framed 8)} {os : List UnreachableOut}
    (h : Answers s ws ds os) : Answers s ws ds ({} :: os) := { h with }

section

variable {s : Unreachable} {i : UnreachableIn} {xs : List UnreachableIn} {w : Word 8} {ws rest : List (Word 8)}
  {ps : Fin 2 → List (Framed 8)}

theorem Unreachable.Pending.ends (h : s.Pending ws) (hs : s.udpState = .UDP_IP ∨ s.udpState = .UDP_STREAM) : Ends ws := by
  unfold Unreachable.Pending at h
  rcases hs with hs | hs
  · rw [hs] at h
    exact h.1
  · rw [hs] at h
    exact h

theorem Comes.read (h : Comes s i xs ws ps) (hends : Ends ws) (hi : i.input s.streamSource = w :: rest) :
    ∃ ws', ws = w :: ws' ∧
      ∀ t : Unreachable, t.streamSource = s.streamSource →
        Comes t ⟨Function.update i.input s.streamSource rest⟩ xs ws' ps := by
  obtain ⟨w', ws', rfl⟩ : ∃ w' ws', ws = w' :: ws' := by cases hends <;> exact ⟨_, _, rfl⟩
  have hsource := h s.streamSource
  rw [hi, if_pos rfl, List.cons_append, List.cons_append] at hsource
  obtain ⟨rfl, hmore⟩ := List.cons.inj hsource
  refine ⟨ws', rfl, fun t ht k => ?_⟩
  rw [ht]
  by_cases hk : k = s.streamSource
  · subst hk
    rw [if_pos rfl]
    show Function.update i.input s.streamSource rest s.streamSource ++ _ = _
    rw [Function.update_self]
    exact hmore
  · have hother := h k
    rw [if_neg hk] at hother ⊢
    show Function.update i.input s.streamSource rest k ++ _ = _
    rw [Function.update_of_ne hk]
    exact hother

theorem Ends.tail (h : Ends (w :: ws)) (hne : ws ≠ []) : Ends ws := by
  cases h with
  | last _ => exact absurd rfl hne
  | cons _ hrest => exact hrest

theorem Comes.at_rest (h : Comes s i [] ws ps) (hws : s.Pending ws) (hend : udpPortUnreachable {} s i = (s, i, {})) :
    s.udpState = .UDP_IDLE ∧ i = ⟨fun _ => []⟩ ∧ ws = [] ∧ ∀ k, ps k = [] := by
  have hcalls := unreachable_calls s i
  rw [hend] at hcalls
  rcases hcalls.quiet rfl with ⟨hs, hempty⟩ | ⟨hs, hempty⟩
  · unfold Unreachable.Pending at hws
    rw [hs] at hws
    refine ⟨hs, UnreachableIn.ext (funext hempty), hws, fun k => ?_⟩
    have hk := h k
    rw [hempty k, hws, ite_self, List.flatMap_nil, List.append_nil, List.nil_append] at hk
    by_contra hne
    obtain ⟨p, ps', hp⟩ := List.exists_cons_of_ne_nil hne
    rw [hp, List.flatMap_cons] at hk
    exact p.packet.ne_nil (List.append_eq_nil_iff.mp hk.symm).1
  · have hsource := h s.streamSource
    rw [hempty, if_pos rfl, List.flatMap_nil, List.append_nil] at hsource
    have hnil := (List.append_eq_nil_iff.mp hsource.symm).1
    have hends := hws.ends hs
    rw [hnil] at hends
    cases hends

theorem header_nil (hs : s.udpState ≠ .UDP_IP) (ws : List (Word 8)) : s.header ws = [] := if_neg hs

theorem value_nil (hs : s.udpState = .UDP_IDLE) (ws : List (Word 8)) : s.value ws = [] := if_pos hs

theorem Comes.begin (h : Comes s i xs [] ps) {k : Fin 2} (hne : i.input k ≠ []) :
    ∃ p rest, ps k = p :: rest ∧
      ∀ t : Unreachable, t.streamSource = k → Comes t i xs p.words (Function.update ps k rest) := by
  have hk := h k
  rw [ite_self, List.nil_append] at hk
  cases hp : ps k with
  | nil =>
    rw [hp, List.flatMap_nil] at hk
    exact absurd (List.append_eq_nil_iff.mp hk).1 hne
  | cons p rest =>
    refine ⟨p, rest, rfl, fun t ht j => ?_⟩
    rw [ht]
    by_cases hj : j = k
    · subst hj
      rw [if_pos rfl, Function.update_self, hk, hp, List.flatMap_cons]
    · have hother := h j
      rw [ite_self] at hother
      rw [if_neg hj, Function.update_of_ne hj, hother]

end

/-- However the packets come in, they are answered one after the other, in some order.  Induction on the calls. -/
theorem fed_answers {s t : Unreachable} {i j : UnreachableIn} {xs : List UnreachableIn} {os : List UnreachableOut}
    (h : Fed (udpPortUnreachable {}) s i xs os t j) :
    ∀ (ws : List (Word 8)) {ps : Fin 2 → List (Framed 8)}, s.Pending ws → Comes s i xs ws ps →
      (∀ k, ∀ p ∈ ps k, Quotable p) → udpPortUnreachable {} t j = (t, j, {}) →
      t.udpState = .UDP_IDLE ∧ j = ⟨fun _ => []⟩ ∧ ∃ ds, Interleaves ds ps ∧ Answers s ws ds os := by
  induction h with
  | refl s i =>
    intro ws ps hws hcomes hps hend
    obtain ⟨hs, hi, rfl, hnil⟩ := hcomes.at_rest hws hend
    refine ⟨hs, hi, [], interleaves_nil hnil, rfl, ?_, ?_⟩
    · rw [Unreachable.header, hs]
      rfl
    · rw [Unreachable.value, if_pos hs]
      rfl
  | feed x _ ih =>
    intro ws ps hws hcomes hps hend
    refine ih ws hws (fun k => ?_) hps hend
    rw [← hcomes k, List.flatMap_cons, ← List.append_assoc]
    rfl
  | @call o os s u t i j' j xs hcall _ ih =>
    intro ws ps hws hcomes hps hend
    have hcalls := unreachable_calls s i
    rw [hcall] at hcalls
    cases hcalls with
    | idle | waits =>
      obtain ⟨ht, hj, ds, hds, hanswers⟩ := ih ws hws hcomes hps hend
      exact ⟨ht, hj, ds, hds, answers_idle hanswers⟩
    | begins hs k hne =>
      have hnil : ws = [] := by
        unfold Unreachable.Pending at hws
        rw [hs] at hws
        exact hws
      subst hnil
      obtain ⟨p, rest, hp, hnext⟩ := hcomes.begin hne
      have hquote : Quotable p := hps k p (by rw [hp]; exact List.mem_cons_self)
      have hmore : ∀ j, ∀ q ∈ Function.update ps k rest j, Quotable q := by
        intro j q hq
        by_cases hj : j = k
        · subst hj
          rw [Function.update_self] at hq
          exact hps j q (by rw [hp]; exact List.mem_cons_of_mem _ hq)
        · rw [Function.update_of_ne hj] at hq
          exact hps j q hq
      obtain ⟨ht, hj, ds, hds, hanswers⟩ := ih p.words
        ⟨p.packet.ends, 0, by decide, rfl, hquote.words⟩ (hnext _ rfl) hmore hend
      refine ⟨ht, hj, (k, p) :: ds, hds.cons hp, ?_, ?_, ?_⟩
      · rw [List.flatMap_cons, hanswers.data]
        rfl
      · rw [List.flatMap_cons, hanswers.header, header_nil (by rw [hs]; exact UState.noConfusion) []]
        rfl
      · rw [List.flatMap_cons, hanswers.value, value_nil hs []]
        rfl
    | header hs w rest hi =>
      have hends := hws.ends (.inl hs)
      obtain ⟨ws, rfl, hread⟩ := hcomes.read hends hi
      unfold Unreachable.Pending at hws
      rw [hs] at hws
      obtain ⟨-, c, hc, hcounter, hlen⟩ := hws
      rw [List.length_cons] at hlen
      have htail := Ends.tail hends (List.ne_nil_of_length_pos (by omega))
      have hnat : s.ipWordCounter.toNat = c := by
        rw [hcounter, BitVec.toNat_ofNat]
        omega
      by_cases htwo : s.ipWordCounter = 2
      · have hc2 : c = 2 := by rw [← hnat, htwo]; rfl
        simp only [if_pos htwo] at ih
        obtain ⟨ht, hj, ds, hds, hanswers⟩ := ih ws htail (hread _ rfl) hps hend
        refine ⟨ht, hj, ds, hds, ?_, ?_, ?_⟩
        · rw [List.flatMap_cons, hanswers.data]
          rfl
        · rw [List.flatMap_cons, hanswers.header, Unreachable.header, Unreachable.header, if_pos hs, hnat, hc2]
          rfl
        · rw [List.flatMap_cons, hanswers.value, Unreachable.value, Unreachable.value, hs]
          rfl
      · have hc2 : c ≠ 2 := fun heq => htwo (by rw [hcounter, heq]; rfl)
        have hcount : s.ipWordCounter + 1 = BitVec.ofNat 3 (c + 1) := by
          rw [hcounter, BitVec.ofNat_add]
          rfl
        have hnextNat : (s.ipWordCounter + 1).toNat = c + 1 := by
          rw [hcount, BitVec.toNat_ofNat]
          omega
        simp only [if_neg htwo] at ih
        obtain ⟨ht, hj, ds, hds, hanswers⟩ := ih ws ⟨htail, c + 1, by omega, hcount, by omega⟩ (hread _ rfl) hps hend
        refine ⟨ht, hj, ds, hds, ?_, ?_, ?_⟩
        · rw [List.flatMap_cons, hanswers.data]
          rfl
        · have hsub : 3 - c = (3 - (c + 1)) + 1 := by omega
          rw [List.flatMap_cons, hanswers.header, Unreachable.header, Unreachable.header, if_pos rfl, if_pos hs, hnat,
            hnextNat, hsub]
          rfl
        · rw [List.flatMap_cons, hanswers.value, Unreachable.value, Unreachable.value, hs]
          rfl
    | stream hs w rest hi =>
      have hends := hws.ends (.inr hs)
      obtain ⟨ws, rfl, hread⟩ := hcomes.read hends hi
      cases hlast : w.last with
      | true =>
        have hnil : ws = [] := by
          cases hends with
          | last _ => rfl
          | cons hmore _ => rw [hlast] at hmore; cases hmore
        subst hnil
        simp only [hlast, if_true] at ih
        obtain ⟨ht, hj, ds, hds, hanswers⟩ := ih [] rfl (hread _ rfl) hps hend
        refine ⟨ht, hj, ds, hds, ?_, ?_, ?_⟩
        · rw [List.flatMap_cons, hanswers.data]
          rfl
        · rw [List.flatMap_cons, hanswers.header, Unreachable.header, Unreachable.header, hs]
          rfl
        · rw [List.flatMap_cons, hanswers.value, Unreachable.value, Unreachable.value, hs]
          rfl
      | false =>
        have htail : Ends ws := by
          cases hends with
          | last hmore => rw [hlast] at hmore; cases hmore
          | cons _ htail => exact htail
        simp only [hlast, Bool.false_eq_true, if_false] at ih
        obtain ⟨ht, hj, ds, hds, hanswers⟩ := ih ws htail (hread _ rfl) hps hend
        refine ⟨ht, hj, ds, hds, ?_, ?_, ?_⟩
        · rw [List.flatMap_cons, hanswers.data]
          rfl
        · rw [List.flatMap_cons, hanswers.header, Unreachable.header, Unreachable.header, hs]
          rfl
        · rw [List.flatMap_cons, hanswers.value, Unreachable.value, Unreachable.value, hs]
          rfl
    | value hs =>
      have hnil : ws = [] := by
        unfold Unreachable.Pending at hws
        rw [hs] at hws
        exact hws
      subst hnil
      obtain ⟨ht, hj, ds, hds, hanswers⟩ := ih [] rfl hcomes hps hend
      refine ⟨ht, hj, ds, hds, ?_, ?_, ?_⟩
      · rw [List.flatMap_cons, hanswers.data]
        rfl
      · rw [List.flatMap_cons, hanswers.header, Unreachable.header, Unreachable.header, hs]
        rfl
      · rw [List.flatMap_cons, hanswers.value, Unreachable.value, Unreachable.value, hs]
        rfl

/-! ## One packet through `udpAddIpHeader` -/

instance : Append AddIpHeaderIn := ⟨fun i j => ⟨i.data ++ j.data, i.header ++ j.header⟩⟩

instance : Std.Associative (α := AddIpHeaderIn) (· ++ ·) :=
  ⟨fun _ _ _ => congrArg₂ AddIpHeaderIn.mk (List.append_assoc _ _ _) (List.append_assoc _ _ _)⟩

theorem udpAddIpHeader_waits : Waits (udpAddIpHeader false) [] := by
  intro s i
  obtain ⟨state, tempWord, sourceIP⟩ := s
  obtain ⟨data, header⟩ := i
  cases state with
  | AIP_IDLE | AIP_IP =>
    cases header with
    | nil => exact .inl rfl
    | cons h hs => exact .inr fun _ => rfl
  | AIP_MERGE =>
    cases header with
    | nil => exact .inl rfl
    | cons h hs =>
      cases data with
      | nil => exact .inl rfl
      | cons w ws => exact .inr fun _ => rfl
  | AIP_STREAM =>
    cases data with
    | nil => exact .inl rfl
    | cons w ws =>
      refine .inr fun more => ?_
      show udpAddIpHeader false _ ⟨w :: (ws ++ more.data), header ++ more.header⟩ = _
      simp only [udpAddIpHeader, Bool.false_eq_true, if_false]
      cases w.last && w.emptyFrom 4 <;> rfl
  | AIP_RESIDUE => exact .inr fun _ => rfl

theorem octets_headerOf {n : Nat} {bytes : List (BitVec 8)} (hlen : bytes.length = n) :
    octets n (Axi.headerOf n bytes) = bytes := by
  apply List.ext_getElem
  · rw [Axi.length_octets, hlen]
  · intro k hk hk'
    have hlt : k < n := by omega
    simp only [octets, List.getElem_map, List.getElem_range]
    rw [Axi.headerOf_octet hlt, List.getD_eq_getElem _ _ hk']

variable {q : List (BitVec 8)}

theorem data_full {w : Word 8} (hw : w.lanes = q.map Lane.kept) : w.data = Axi.headerOf 8 q := by
  have hdata : w.data = Axi.headerOf 8 (w.lanes.map (·.data)) := rfl
  rw [hdata, hw, Axi.map_data_kept]

theorem wordOf_lanes {w : Word 8} (hw : w.lanes = q.map Lane.kept) :
    (wordOf w.data).lanes = q.map Lane.kept := by
  show (octets 8 w.data).map Lane.kept = _
  rw [data_full hw, octets_headerOf (Axi.Word.length_full hw)]

/-- The packet behind the word `prev`, from its upper half on. -/
theorem addIpHeader_stream {ws : List (Word 8)} {bytes : List (BitVec 8)} (h : Packet ws bytes) (rest : List (Word 8))
    (headers : List (BitVec 64)) {s : AddIpHeader} (hs : s.addIpState = .AIP_STREAM)
    (hq : s.tempWord.lanes = q.map Lane.kept) :
    ∃ os t, Runs (udpAddIpHeader false) s ⟨ws ++ rest, headers⟩ os t ⟨rest, headers⟩ ∧ t.addIpState = .AIP_IDLE ∧
      Packet (os.flatMap id) (q.drop 4 ++ bytes) := by
  have hupper {prev : Word 8} {q : List (BitVec 8)} (hprev : prev.lanes = q.map Lane.kept) :
      (upperHalf prev).map Lane.kept = prev.lanes.drop 4 := by
    rw [upperHalf, hprev, ← List.map_drop, Axi.map_data_kept]
  have hkept {bs : List (BitVec 8)} : ((bs.map Lane.kept).map fun l => Lane.kept l.data) = bs.map Lane.kept := by
    rw [List.map_map]
    rfl
  refine Axi.realign (fun ws => (⟨ws, headers⟩ : AddIpHeaderIn))
    (fun prev (s : AddIpHeader) => s.addIpState = .AIP_STREAM ∧ s.tempWord = prev ∧ ∃ q : List (BitVec 8), prev.lanes = q.map Lane.kept)
    (fun w (s : AddIpHeader) => s.addIpState = .AIP_RESIDUE ∧ s.tempWord = w)
    (fun s : AddIpHeader => s.addIpState = .AIP_IDLE) ?_ ?_ ?_ h rest
    ⟨hs, rfl, q, hq⟩ hq
  · rintro s prev w bs rest ⟨hs, rfl, q, hq⟩ hlast hw
    refine ⟨{ s with addIpState := .AIP_STREAM, tempWord := w },
      [halves (upperHalf s.tempWord) w (length_upperHalf s.tempWord)], ?_, ?_, rfl, rfl, bs, hw⟩
    · simp only [udpAddIpHeader, hs, hlast]
      rfl
    · have hword : halves (upperHalf s.tempWord) w (length_upperHalf s.tempWord) = .join 4 s.tempWord w false := by
        simp only [halves, Axi.Word.join, hupper hq, hw, ← List.map_take, hkept]
      exact congrArg (fun w => [w]) hword
  · rintro s prev w bs rest ⟨hs, rfl, q, hq⟩ hlast hw
    have hempty := hw.emptyFrom 4
    by_cases hfit : bs.length ≤ 4
    · rw [decide_eq_true hfit] at hempty
      refine ⟨{ s with addIpState := .AIP_IDLE, tempWord := w }, [lastHalves s.tempWord w], ?_, ?_, ?_⟩
      · simp only [udpAddIpHeader, hs, hlast, hempty]
        rfl
      · simp only [id, lastHalves, Axi.Word.join, hupper hq, decide_eq_true hfit]
      · rw [if_pos hfit]
    · rw [decide_eq_false hfit] at hempty
      refine ⟨{ s with addIpState := .AIP_RESIDUE, tempWord := w },
        [halves (upperHalf s.tempWord) w (length_upperHalf s.tempWord)], ?_, ?_, ?_⟩
      · simp only [udpAddIpHeader, hs, hlast, hempty]
        rfl
      · obtain ⟨unkept, hlanes, -⟩ := hw
        have htake : w.lanes.take 4 = (bs.take 4).map Lane.kept := by
          rw [hlanes, List.take_append_of_le_length (by rw [List.length_map]; omega), List.map_take]
        simp only [id, halves, Axi.Word.join, hupper hq, decide_eq_false hfit, htake, hkept]
      · rw [if_neg hfit]
        exact ⟨rfl, rfl⟩
  · rintro s w rest ⟨hs, rfl⟩
    refine ⟨{ s with addIpState := .AIP_IDLE }, [residue s.tempWord], ?_, ?_, rfl⟩
    · simp only [udpAddIpHeader, hs]
      rfl
    · rfl

end FpgaNetworkStack.Icmp
