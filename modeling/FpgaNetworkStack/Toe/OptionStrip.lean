import FpgaNetworkStack.Axi.Keep
import FpgaNetworkStack.Axi.Headers

/-!
# Taking the options off a segment (`rx_engine.cpp`)

`drop_optional_header_fields` gets the data behind the fixed TCP header with the number of option words in front of it.
The options are copied out for a SYN, and what is behind them is aligned to the words again.
-/

namespace FpgaNetworkStack.Toe

open Lib
open Axi (Lane Word Packet Packets Ends Framed laneData octets)
open Roce (PacketHeader Parsed parsed_clear packetNat)

variable {N : Nat} {w : Word N} {ws : List (Word N)}

/-! ## `drop_optional_header_fields` -/

structure OptionalFieldsMeta where
  dataOffset : BitVec 4
  syn : Bool

/-- The values 0, 1 and 2 of `state`. -/
inductive DropState where
  | first | more | remainder
  deriving DecidableEq

structure DropOptions (N : Nat) where
  state : DropState := .first
  dataOffset : BitVec 4 := 0
  prevWord : Word N := .zero
  optionalHeader : PacketHeader (8 * N) 320 := {}
  parseHeader : Bool := false
  headerWritten : Bool := false

structure DropOptionsIn (N : Nat) where
  metaIn : List OptionalFieldsMeta := []
  dataIn : List (Word N) := []

@[ext]
structure DropOptionsOut (N : Nat) where
  dataOffsetOut : List (BitVec 4) := []
  optionalHeaderFieldsOut : List (BitVec 320) := []
  dataOut : List (Word N) := []

/-- The rest of the options and the word that is sent, for a word behind the first. -/
def realignWord (dataOffset : BitVec 4) (prevWord currWord : Word N) : BitVec 4 × List (Word N) :=
  if N / 4 ≤ dataOffset.toNat then (dataOffset - BitVec.ofNat 4 (N / 4), [])
  else if dataOffset = 0 then (dataOffset, [currWord])
  else (dataOffset, [.join (dataOffset.toNat * 4) prevWord currWord (!currWord.keepAt (dataOffset.toNat * 4))])

/-- One call of `drop_optional_header_fields`, with the window scale option. -/
def dropOptionalHeaderFields (s : DropOptions N) (i : DropOptionsIn N) :
    DropOptions N × DropOptionsIn N × DropOptionsOut N :=
  match s.state with
  | .first =>
    match i.metaIn, i.dataIn with
    | m :: metas, currWord :: rest =>
      let optionalHeader := s.optionalHeader.clear.parseWord currWord.data
      let parseHeader := m.dataOffset != 0 && m.syn
      let tail := m.dataOffset != 0 && decide (m.dataOffset.toNat * 4 < N) && currWord.keepAt (m.dataOffset.toNat * 4)
      ({ state := if currWord.last then if tail then .remainder else .first else .more
         dataOffset := m.dataOffset
         prevWord := currWord
         optionalHeader, parseHeader, headerWritten := false },
        ⟨metas, rest⟩,
        { dataOffsetOut := if parseHeader then [m.dataOffset] else []
          optionalHeaderFieldsOut :=
            if parseHeader && (optionalHeader.ready || currWord.last) then [optionalHeader.header] else []
          dataOut := if m.dataOffset = 0 then [currWord] else [] })
    | _, _ => (s, i, {})
  | .more =>
    match i.dataIn with
    | [] => (s, i, {})
    | currWord :: rest =>
      let optionalHeader := s.optionalHeader.parseWord currWord.data
      let writeHeader := (optionalHeader.ready || currWord.last) && s.parseHeader && !s.headerWritten
      let r := realignWord s.dataOffset s.prevWord currWord
      let tail := currWord.keepAt (r.1.toNat * 4) && r.1 != 0
      ({ state := if currWord.last then if tail then .remainder else .first else .more
         dataOffset := r.1
         prevWord := currWord
         optionalHeader
         parseHeader := s.parseHeader
         headerWritten := s.headerWritten || writeHeader },
        { i with dataIn := rest },
        { optionalHeaderFieldsOut := if writeHeader then [optionalHeader.header] else [], dataOut := r.2 })
  | .remainder =>
    ({ s with state := .first }, i, { dataOut := [.join (s.dataOffset.toNat * 4) s.prevWord .zero true] })

instance : Append (DropOptionsIn N) := ⟨fun i j => ⟨i.metaIn ++ j.metaIn, i.dataIn ++ j.dataIn⟩⟩

instance : Std.Associative (α := DropOptionsIn N) (· ++ ·) :=
  ⟨fun _ _ _ => congrArg₂ DropOptionsIn.mk (List.append_assoc _ _ _) (List.append_assoc _ _ _)⟩

theorem dropOptions_waits : Waits (dropOptionalHeaderFields (N := N)) {} := by
  intro s i
  obtain ⟨metas, data⟩ := i
  cases hst : s.state with
  | first =>
    cases metas with
    | nil =>
      apply Or.inl
      rw [dropOptionalHeaderFields, hst]
    | cons m metas =>
      cases data with
      | nil =>
        apply Or.inl
        rw [dropOptionalHeaderFields, hst]
      | cons w data =>
        apply Or.inr
        intro x
        unfold dropOptionalHeaderFields
        rw [hst]
        rfl
  | more =>
    cases data with
    | nil =>
      apply Or.inl
      rw [dropOptionalHeaderFields, hst]
    | cons w data =>
      apply Or.inr
      intro x
      unfold dropOptionalHeaderFields
      rw [hst]
      rfl
  | remainder =>
    apply Or.inr
    intro x
    unfold dropOptionalHeaderFields
    rw [hst]

/-! ## The data of one segment -/

/-- What is left of the packet `bytes` without its first `d` words of four bytes.  When the options fill words, the word
behind them is lost. -/
structure Stripped (d : Nat) (bytes : List (BitVec 8)) (words : List (Word N)) : Prop where
  none : bytes.drop (4 * d) = [] → words = []
  payload : bytes.drop (4 * d) ≠ [] → ¬(0 < d ∧ N / 4 ∣ d) → Packet words (bytes.drop (4 * d))
  lost : bytes.drop (4 * d) ≠ [] → 0 < d → N / 4 ∣ d → words = [] ∨ Packet words (bytes.drop (4 * d + N))

variable {bytes : List (BitVec 8)} {words : List (Word N)}

theorem stripped_payload {d : Nat} (hne : bytes.drop (4 * d) ≠ [])
    (hd : ¬(0 < d ∧ N / 4 ∣ d)) (h : Packet words (bytes.drop (4 * d))) : Stripped d bytes words := by
  constructor
  · exact fun hnil => absurd hnil hne
  · exact fun _ _ => h
  · exact fun _ hpos hdvd => absurd ⟨hpos, hdvd⟩ hd

theorem stripped_none {d : Nat} (hnil : bytes.drop (4 * d) = []) :
    Stripped d bytes ([] : List (Word N)) := by
  constructor
  · exact fun _ => rfl
  · exact fun hne => absurd hnil hne
  · exact fun hne => absurd hnil hne

theorem stripped_lost {d : Nat} (hne : bytes.drop (4 * d) ≠ [])
    (hpos : 0 < d) (hdvd : N / 4 ∣ d) (h : words = [] ∨ Packet words (bytes.drop (4 * d + N))) :
    Stripped d bytes words := by
  constructor
  · exact fun hnil => absurd hnil hne
  · exact fun _ hd => absurd ⟨hpos, hdvd⟩ hd
  · exact fun _ _ _ => h

/-- A word that is full of options more. -/
theorem Stripped.cons {d e : Nat} {q bytes : List (BitVec 8)} (hN : N = 4 * e) (hq : q.length = N)
    (hd : 0 < d) (h : Stripped d bytes words) : Stripped (d + e) (q ++ bytes) words := by
  have he : N / 4 = e := by omega
  have hdrop : (q ++ bytes).drop (4 * (d + e)) = bytes.drop (4 * d) := by
    rw [List.drop_append, List.drop_eq_nil_of_le (by omega), List.nil_append]
    congr 1
    omega
  have hdrop' : (q ++ bytes).drop (4 * (d + e) + N) = bytes.drop (4 * d + N) := by
    rw [List.drop_append, List.drop_eq_nil_of_le (by omega), List.nil_append]
    congr 1
    omega
  have hdvd : N / 4 ∣ d + e ↔ N / 4 ∣ d := by
    rw [he]
    exact Nat.dvd_add_left (Nat.dvd_refl e)
  constructor
  · rw [hdrop]
    exact h.none
  · rw [hdrop, hdvd]
    intro hne hnot
    exact h.payload hne fun hboth => hnot ⟨Nat.lt_of_lt_of_le hboth.1 (Nat.le_add_right d e), hboth.2⟩
  · rw [hdrop, hdrop', hdvd]
    exact fun hne _ hdvd => h.lost hne hd hdvd

section Data

variable (metas : List OptionalFieldsMeta) {s : DropOptions N}

/-- What a call does with the data of a word behind the first. -/
structure MoreCall (s : DropOptions N) (w : Word N) (t : DropOptions N) (o : DropOptionsOut N) : Prop where
  goes : w.last = false → t.state = .more
  ends : w.last = true → t.state = if (realignWord s.dataOffset s.prevWord w).1 ≠ 0 ∧
    w.keepAt ((realignWord s.dataOffset s.prevWord w).1.toNat * 4) = true then .remainder else .first
  dataOffset : t.dataOffset = (realignWord s.dataOffset s.prevWord w).1
  prevWord : t.prevWord = w
  dataOut : o.dataOut = (realignWord s.dataOffset s.prevWord w).2

theorem more_call (hs : s.state = .more) (w : Word N) (rest : List (Word N)) :
    ∃ t o, dropOptionalHeaderFields s ⟨metas, w :: rest⟩ = (t, ⟨metas, rest⟩, o) ∧ MoreCall s w t o := by
  unfold dropOptionalHeaderFields
  rw [hs]
  refine ⟨_, _, rfl, ?_, ?_, rfl, rfl, rfl⟩
  · intro hlast
    rw [hlast]
    rfl
  · intro hlast
    rw [hlast]
    simp only [if_true, Bool.and_eq_true, bne_iff_ne, and_comm]

theorem remainder_call (hs : s.state = .remainder) (rest : List (Word N)) :
    ∃ t o, dropOptionalHeaderFields s ⟨metas, rest⟩ = (t, ⟨metas, rest⟩, o) ∧ t.state = .first ∧
      o.dataOut = [.join (s.dataOffset.toNat * 4) s.prevWord .zero true] := by
  unfold dropOptionalHeaderFields
  rw [hs]
  exact ⟨_, _, rfl, rfl, rfl⟩

variable {d : BitVec 4}

theorem realign_zero (hN : 4 ≤ N) (hd : d = 0) (prev w : Word N) : realignWord d prev w = (d, [w]) := by
  subst hd
  have hlt : ¬N / 4 ≤ 0 := by omega
  exact if_neg hlt

theorem realign_full (hd : N / 4 ≤ d.toNat) (prev w : Word N) :
    realignWord d prev w = (d - BitVec.ofNat 4 (N / 4), []) := if_pos hd

theorem realign_part (hd : d ≠ 0) (hlt : d.toNat < N / 4) (prev w : Word N) :
    realignWord d prev w = (d, [.join (d.toNat * 4) prev w (!w.keepAt (d.toNat * 4))]) := by
  rw [realignWord, if_neg (Nat.not_le.mpr hlt), if_neg hd]

theorem more_forward (hN : 4 ≤ N) (h : Ends ws) (rest : List (Word N)) :
    ∀ {s : DropOptions N}, s.state = .more → s.dataOffset = 0 →
      ∃ os t, Runs dropOptionalHeaderFields s ⟨metas, ws ++ rest⟩ os t ⟨metas, rest⟩ ∧ t.state = .first ∧
        os.flatMap (·.dataOut) = ws := by
  induction h with
  | @last w hlast =>
    intro s hs hd
    obtain ⟨t, o, hcall, ht⟩ := more_call metas hs w rest
    have hend := ht.ends hlast
    have hout := ht.dataOut
    rw [realign_zero hN hd] at hend hout
    refine ⟨_, t, .one hcall, ?_, ?_⟩
    · rw [hend, hd]
      rfl
    · rw [List.flatMap_singleton, hout]
  | @cons w ws hlast _ ih =>
    intro s hs hd
    obtain ⟨t, o, hcall, ht⟩ := more_call metas hs w (ws ++ rest)
    have hoffset := ht.dataOffset
    have hout := ht.dataOut
    rw [realign_zero hN hd] at hoffset hout
    obtain ⟨os, u, hrun, hu, hwords⟩ := ih (ht.goes hlast) (hoffset.trans hd)
    refine ⟨_, u, .call hcall hrun, hu, ?_⟩
    rw [List.flatMap_cons, hwords, hout]
    rfl

theorem more_realign (hd : d ≠ 0) (hlt : d.toNat < N / 4) {bs q : List (BitVec 8)} (h : Packet ws bs)
    (rest : List (Word N)) (hs : s.state = .more) (hoffset : s.dataOffset = d)
    (hprev : s.prevWord.lanes = q.map Lane.kept) :
    ∃ os t, Runs dropOptionalHeaderFields s ⟨metas, ws ++ rest⟩ os t ⟨metas, rest⟩ ∧ t.state = .first ∧
      Packet (os.flatMap (·.dataOut)) (q.drop (d.toNat * 4) ++ bs) := by
  refine Axi.realign (fun ws => (⟨metas, ws⟩ : DropOptionsIn N))
    (fun prev (s : DropOptions N) => s.state = .more ∧ s.dataOffset = d ∧ s.prevWord = prev)
    (fun w (s : DropOptions N) => s.state = .remainder ∧ s.dataOffset = d ∧ s.prevWord = w)
    (fun s : DropOptions N => s.state = .first) ?_ ?_ ?_ h rest ⟨hs, hoffset, rfl⟩ hprev
  · rintro s prev w bs rest ⟨hs, hoffset, rfl⟩ hlast hw
    obtain ⟨t, o, hcall, ht⟩ := more_call metas hs w rest
    have hkeep := (Axi.Word.holds_full hw).keepAt (d.toNat * 4)
    have hlen : bs.length = N := Axi.Word.length_full hw
    have hnext := ht.dataOffset
    have hout := ht.dataOut
    rw [hoffset, realign_part hd hlt] at hnext hout
    rw [hkeep, decide_eq_true (by omega)] at hout
    exact ⟨t, o, hcall, hout, ht.goes hlast, hnext, ht.prevWord⟩
  · rintro s prev w bs rest ⟨hs, hoffset, rfl⟩ hlast hw
    obtain ⟨t, o, hcall, ht⟩ := more_call metas hs w rest
    have hkeep := hw.keepAt (d.toNat * 4)
    have hnext := ht.dataOffset
    have hout := ht.dataOut
    have hend := ht.ends hlast
    rw [hoffset, realign_part hd hlt] at hnext hout hend
    have hfits : (!decide (d.toNat * 4 < bs.length)) = decide (bs.length ≤ d.toNat * 4) := by
      rw [← decide_not]
      exact decide_eq_decide.mpr Nat.not_lt
    rw [hkeep] at hout hend
    rw [hfits] at hout
    refine ⟨t, o, hcall, hout, ?_⟩
    · by_cases hfit : bs.length ≤ d.toNat * 4
      · rw [if_pos hfit, hend]
        rw [if_neg]
        simp [hfit]
      · rw [if_neg hfit]
        refine ⟨?_, hnext, ht.prevWord⟩
        rw [hend, if_pos]
        exact ⟨hd, decide_eq_true (Nat.lt_of_not_le hfit)⟩
  · rintro s w rest ⟨hs, hoffset, rfl⟩
    obtain ⟨t, o, hcall, ht, hout⟩ := remainder_call metas hs rest
    rw [hoffset] at hout
    exact ⟨t, o, hcall, hout, ht⟩

/-- Options that go on behind the word that is held back.  Induction on the packet: either they end in the next word, or
that word is full of them as well. -/
theorem more_packet (hN : N = 8 ∨ N = 16 ∨ N = 32 ∨ N = 64) {bs : List (BitVec 8)} (h : Packet ws bs)
    (rest : List (Word N)) :
    ∀ {s : DropOptions N} {q : List (BitVec 8)}, s.state = .more → s.dataOffset ≠ 0 →
      s.prevWord.lanes = q.map Lane.kept → 4 * s.dataOffset.toNat ≤ (q ++ bs).length →
      ∃ os t, Runs dropOptionalHeaderFields s ⟨metas, ws ++ rest⟩ os t ⟨metas, rest⟩ ∧ t.state = .first ∧
        Stripped s.dataOffset.toNat (q ++ bs) (os.flatMap (·.dataOut)) := by
  have hpos {d : BitVec 4} (hd : d ≠ 0) : 0 < d.toNat :=
    Nat.pos_of_ne_zero fun h => hd (BitVec.eq_of_toNat_eq h)
  have hN4 : N = 4 * (N / 4) ∧ 2 ≤ N / 4 ∧ N / 4 ≤ 16 := by omega
  -- the options end in the word that is held back
  have hpart {s : DropOptions N} {q : List (BitVec 8)} {ws : List (Word N)} {bs : List (BitVec 8)} (h : Packet ws bs)
      (hs : s.state = .more) (hd : s.dataOffset ≠ 0) (hprev : s.prevWord.lanes = q.map Lane.kept)
      (hlt : s.dataOffset.toNat < N / 4) :
      ∃ os t, Runs dropOptionalHeaderFields s ⟨metas, ws ++ rest⟩ os t ⟨metas, rest⟩ ∧ t.state = .first ∧
        Stripped s.dataOffset.toNat (q ++ bs) (os.flatMap (·.dataOut)) := by
    obtain ⟨os, t, hrun, ht, hout⟩ := more_realign metas hd hlt h rest hs rfl hprev
    have hq : q.length = N := Axi.Word.length_full hprev
    have hdrop : (q ++ bs).drop (4 * s.dataOffset.toNat) = q.drop (s.dataOffset.toNat * 4) ++ bs := by
      rw [Nat.mul_comm, List.drop_append_of_le_length (by omega)]
    refine ⟨os, t, hrun, ht, stripped_payload ?_ ?_ ?_⟩
    · rw [hdrop]
      apply List.ne_nil_of_length_pos
      rw [List.length_append, List.length_drop]
      omega
    · rintro ⟨hlow, hdvd⟩
      exact absurd (Nat.le_of_dvd hlow hdvd) (Nat.not_le.mpr hlt)
    · rw [hdrop]
      exact hout
  -- a word of options more
  have hnext {d : BitVec 4} (hge : N / 4 ≤ d.toNat) : (d - BitVec.ofNat 4 (N / 4)).toNat = d.toNat - N / 4 := by
    have hd := d.isLt
    rw [BitVec.toNat_sub, BitVec.toNat_ofNat]
    omega
  induction h with
  | @last w bs hlast hw =>
    intro s q hs hd hprev hlen
    by_cases hlt : s.dataOffset.toNat < N / 4
    · exact hpart (.last hlast hw) hs hd hprev hlt
    · have hge := Nat.le_of_not_lt hlt
      have hq : q.length = N := Axi.Word.length_full hprev
      have hle := hw.length_le
      rw [List.length_append, hq] at hlen
      obtain ⟨t, o, hcall, ht⟩ := more_call metas hs w rest
      have hend := ht.ends hlast
      have hoffset := ht.dataOffset
      have hout := ht.dataOut
      rw [realign_full hge, hw.keepAt] at hend
      rw [realign_full hge] at hoffset hout
      have hsub := hnext hge
      have hsplit : s.dataOffset.toNat = (s.dataOffset.toNat - N / 4) + N / 4 := by omega
      by_cases hzero : s.dataOffset.toNat - N / 4 = 0
      · -- they fill the word that is held back
        have hfirst : t.state = .first := by
          rw [hend, if_neg]
          rintro ⟨hne, -⟩
          exact hne (BitVec.eq_of_toNat_eq (hsub.trans hzero))
        refine ⟨_, t, .one hcall, hfirst, ?_⟩
        rw [List.flatMap_singleton, hout]
        by_cases hnil : (q ++ bs).drop (4 * s.dataOffset.toNat) = []
        · exact stripped_none hnil
        · refine stripped_lost hnil (hpos hd) ?_ (.inl rfl)
          have heq : s.dataOffset.toNat = N / 4 := by omega
          rw [heq]
      · have hdrop : (q ++ bs).drop (4 * s.dataOffset.toNat) = bs.drop (4 * (s.dataOffset.toNat - N / 4)) := by
          rw [List.drop_append, List.drop_eq_nil_of_le (by omega), List.nil_append]
          congr 1
          omega
        by_cases hfit : bs.length ≤ 4 * (s.dataOffset.toNat - N / 4)
        · have hfirst : t.state = .first := by
            rw [hend, if_neg]
            rintro ⟨-, hkeep⟩
            have hkept := of_decide_eq_true hkeep
            rw [hsub] at hkept
            omega
          refine ⟨_, t, .one hcall, hfirst, ?_⟩
          rw [List.flatMap_singleton, hout]
          exact stripped_none (by rw [hdrop, List.drop_eq_nil_of_le hfit])
        · have hremainder : t.state = .remainder := by
            rw [hend, if_pos]
            refine ⟨fun h => hzero ?_, decide_eq_true ?_⟩
            · exact hsub.symm.trans (congrArg BitVec.toNat h)
            · rw [hsub]
              omega
          obtain ⟨u, o', hcall', hu, hout'⟩ := remainder_call metas hremainder rest
          refine ⟨_, u, .call hcall (.one hcall'), hu, ?_⟩
          rw [List.flatMap_cons, List.flatMap_singleton, hout, hout', hoffset, ht.prevWord, hsub]
          refine stripped_payload ?_ ?_ ?_
          · rw [hdrop]
            apply List.ne_nil_of_length_pos
            rw [List.length_drop]
            omega
          · rintro ⟨-, hdvd⟩
            rw [hsplit, Nat.dvd_add_left (Nat.dvd_refl _)] at hdvd
            exact absurd (Nat.le_of_dvd (Nat.pos_of_ne_zero hzero) hdvd) (by omega)
          · rw [hdrop, Nat.mul_comm]
            exact .last rfl (hw.tail _ true)
  | @cons w ws bs bs' hlast hw hmore ih =>
    intro s q hs hd hprev hlen
    by_cases hlt : s.dataOffset.toNat < N / 4
    · exact hpart (.cons hlast hw hmore) hs hd hprev hlt
    · have hge := Nat.le_of_not_lt hlt
      have hq : q.length = N := Axi.Word.length_full hprev
      have hbs : bs.length = N := Axi.Word.length_full hw
      obtain ⟨t, o, hcall, ht⟩ := more_call metas hs w (ws ++ rest)
      have hoffset := ht.dataOffset
      have hout := ht.dataOut
      rw [realign_full hge] at hoffset hout
      have hsub := hnext hge
      have hsplit : s.dataOffset.toNat = (s.dataOffset.toNat - N / 4) + N / 4 := by omega
      by_cases hzero : s.dataOffset - BitVec.ofNat 4 (N / 4) = 0
      · have heq : s.dataOffset.toNat = N / 4 := by
          rw [hzero] at hsub
          have : s.dataOffset.toNat - N / 4 = 0 := hsub.symm
          omega
        obtain ⟨os, u, hrun, hu, hwords⟩ := more_forward metas (by omega) hmore.ends rest (ht.goes hlast)
          (hoffset.trans hzero)
        refine ⟨_, u, .call hcall hrun, hu, ?_⟩
        rw [List.flatMap_cons, hout, hwords, List.nil_append]
        have hdrop : (q ++ (bs ++ bs')).drop (4 * s.dataOffset.toNat) = bs ++ bs' := List.drop_left' (by omega)
        have hdrop' : (q ++ (bs ++ bs')).drop (4 * s.dataOffset.toNat + N) = bs' := by
          rw [← List.drop_drop, hdrop, List.drop_left' hbs]
        refine stripped_lost ?_ (hpos hd) (by rw [heq]) (.inr ?_)
        · rw [hdrop]
          apply List.ne_nil_of_length_pos
          rw [List.length_append]
          omega
        · rw [hdrop']
          exact hmore
      · have htoNat : t.dataOffset.toNat = s.dataOffset.toNat - N / 4 := by rw [hoffset, hsub]
        obtain ⟨os, u, hrun, hu, hstripped⟩ := ih (s := t) (q := bs) (ht.goes hlast) (by rw [hoffset]; exact hzero)
          (by rw [ht.prevWord, hw]) (by
            rw [htoNat]
            rw [List.length_append, hq] at hlen
            omega)
        refine ⟨_, u, .call hcall hrun, hu, ?_⟩
        rw [List.flatMap_cons, hout, List.nil_append, hsplit, ← htoNat]
        exact hstripped.cons hN4.1 hq (by
          rw [htoNat]
          have hne := hpos hzero
          rwa [hsub] at hne)

/-- What the call for the first word of a segment does with the data. -/
structure FirstCall (m : OptionalFieldsMeta) (w : Word N) (t : DropOptions N) (o : DropOptionsOut N) : Prop where
  goes : w.last = false → t.state = .more
  ends : w.last = true → t.state = if m.dataOffset ≠ 0 ∧ m.dataOffset.toNat * 4 < N ∧
    w.keepAt (m.dataOffset.toNat * 4) = true then .remainder else .first
  dataOffset : t.dataOffset = m.dataOffset
  prevWord : t.prevWord = w
  dataOut : o.dataOut = if m.dataOffset = 0 then [w] else []

theorem first_call (hs : s.state = .first) (m : OptionalFieldsMeta) (w : Word N) (rest : List (Word N)) :
    ∃ t o, dropOptionalHeaderFields s ⟨m :: metas, w :: rest⟩ = (t, ⟨metas, rest⟩, o) ∧ FirstCall m w t o := by
  unfold dropOptionalHeaderFields
  rw [hs]
  refine ⟨_, _, rfl, ?_, ?_, rfl, rfl, rfl⟩
  · intro hlast
    rw [hlast]
    rfl
  · intro hlast
    rw [hlast]
    simp only [if_true, Bool.and_eq_true, bne_iff_ne, decide_eq_true_eq, and_assoc]

theorem first_idle (hs : s.state = .first) : dropOptionalHeaderFields s ⟨[], []⟩ = (s, ⟨[], []⟩, {}) := by
  unfold dropOptionalHeaderFields
  rw [hs]

theorem segment_data (hN : N = 8 ∨ N = 16 ∨ N = 32 ∨ N = 64) {m : OptionalFieldsMeta}
    (h : Packet ws bytes) (hlen : 4 * m.dataOffset.toNat ≤ bytes.length) (hne : bytes ≠ []) (hs : s.state = .first)
    (rest : List (Word N)) :
    ∃ os t, Runs dropOptionalHeaderFields s ⟨m :: metas, ws ++ rest⟩ os t ⟨metas, rest⟩ ∧ t.state = .first ∧
      Stripped m.dataOffset.toNat bytes (os.flatMap (·.dataOut)) := by
  by_cases hzero : m.dataOffset = 0
  · -- every word is passed on
    have hall : Stripped m.dataOffset.toNat bytes ws := by
      rw [hzero]
      exact stripped_payload hne (fun hd => Nat.lt_irrefl 0 hd.1) h
    cases h with
    | @last w _ hlast hw =>
      obtain ⟨t, o, hcall, ht⟩ := first_call metas hs m w rest
      have hout := ht.dataOut
      rw [if_pos hzero] at hout
      refine ⟨_, t, .one hcall, ?_, ?_⟩
      · rw [ht.ends hlast, if_neg]
        exact fun hboth => hboth.1 hzero
      · rw [List.flatMap_singleton, hout]
        exact hall
    | @cons w ws bs bs' hlast hw hmore =>
      obtain ⟨t, o, hcall, ht⟩ := first_call metas hs m w (ws ++ rest)
      have hout := ht.dataOut
      rw [if_pos hzero] at hout
      obtain ⟨os, u, hrun, hu, hwords⟩ := more_forward metas (by omega) hmore.ends rest (ht.goes hlast)
        (ht.dataOffset.trans hzero)
      refine ⟨_, u, .call hcall hrun, hu, ?_⟩
      rw [List.flatMap_cons, hout, hwords]
      exact hall
  · cases h with
    | @last w _ hlast hw =>
      have hle := hw.length_le
      obtain ⟨t, o, hcall, ht⟩ := first_call metas hs m w rest
      have hend := ht.ends hlast
      have hout := ht.dataOut
      rw [hw.keepAt] at hend
      rw [if_neg hzero] at hout
      by_cases hfit : bytes.length ≤ 4 * m.dataOffset.toNat
      · refine ⟨_, t, .one hcall, ?_, ?_⟩
        · rw [hend, if_neg]
          rintro ⟨-, -, hkeep⟩
          have hkept := of_decide_eq_true hkeep
          omega
        · rw [List.flatMap_singleton, hout]
          exact stripped_none (List.drop_eq_nil_of_le hfit)
      · have hremainder : t.state = .remainder := by
          rw [hend, if_pos]
          exact ⟨hzero, by omega, decide_eq_true (by omega)⟩
        obtain ⟨u, o', hcall', hu, hout'⟩ := remainder_call metas hremainder rest
        refine ⟨_, u, .call hcall (.one hcall'), hu, ?_⟩
        rw [List.flatMap_cons, List.flatMap_singleton, hout, hout', ht.dataOffset, ht.prevWord]
        refine stripped_payload ?_ ?_ ?_
        · apply List.ne_nil_of_length_pos
          rw [List.length_drop]
          omega
        · rintro ⟨hpos, hdvd⟩
          exact absurd (Nat.le_of_dvd hpos hdvd) (by omega)
        · rw [Nat.mul_comm]
          exact .last rfl (hw.tail _ true)
    | @cons w ws bs bs' hlast hw hmore =>
      obtain ⟨t, o, hcall, ht⟩ := first_call metas hs m w (ws ++ rest)
      have hout := ht.dataOut
      rw [if_neg hzero] at hout
      obtain ⟨os, u, hrun, hu, hstripped⟩ := more_packet metas hN hmore rest (s := t) (q := bs)
        (ht.goes hlast) (by rw [ht.dataOffset]; exact hzero) (by rw [ht.prevWord, hw])
        (by rw [ht.dataOffset]; exact hlen)
      refine ⟨_, u, .call hcall hrun, hu, ?_⟩
      rw [List.flatMap_cons, hout, List.nil_append, ← ht.dataOffset]
      exact hstripped

end Data

/-! ## The options of one segment -/

/-- The bits are those of the words as far as these go, or as far as they have been read. -/
def HeaderOf (ws : List (Word N)) (x : BitVec 320) : Prop :=
  ∃ us more, ws = us ++ more ∧ (320 ≤ us.length * (8 * N) ∨ more = []) ∧
    ∀ i < 320, i < us.length * (8 * N) → x.getLsbD i = (packetNat (us.map Axi.Word.data)).testBit i

/-- The bytes of the options are in it. -/
theorem HeaderOf.octets_eq {x : BitVec 320} {d : Nat} (hx : HeaderOf ws x)
    (h : Packet ws bytes) (hd : d ≤ 10) (hlen : 4 * d ≤ bytes.length) : octets (4 * d) x = bytes.take (4 * d) := by
  obtain ⟨us, more, hws, hread, hbits⟩ := hx
  obtain ⟨unkept, hdata⟩ : ∃ unkept, laneData ws = bytes ++ unkept := h.lanes
  have hbound := h.length_bytes.1
  have hfull : 4 * d ≤ us.length * N := by
    have hbits : us.length * (8 * N) = 8 * (us.length * N) := Nat.mul_left_comm _ _ _
    rcases hread with hfull | hall
    · omega
    · rw [hall, List.append_nil] at hws
      rw [hws] at hbound
      omega
  apply List.ext_getElem
  · rw [Axi.length_octets, List.length_take]
    omega
  · intro k hk hk'
    have hk4 : k < 4 * d := by
      rw [Axi.length_octets] at hk
      exact hk
    simp only [octets, List.getElem_map, List.getElem_range, List.getElem_take]
    apply BitVec.eq_of_getLsbD_eq
    intro j hj
    have hpos : 8 * k + j < us.length * (8 * N) := by
      rw [Nat.mul_left_comm]
      omega
    have hus : k < (laneData us).length := by
      rw [Axi.length_laneData]
      omega
    have hbyte : (laneData us).getD k 0 = bytes[k] := by
      have hboth : (laneData ws).getD k 0 = (laneData us).getD k 0 := by
        rw [hws, Axi.laneData_append, List.getD_append _ _ _ _ hus]
      rw [← hboth, hdata, List.getD_append _ _ _ _ (by omega), List.getD_eq_getElem]
    rw [BitVec.getLsbD_extractLsb', hbits _ (by omega) hpos, Axi.packetNat_data, ← laneData, Axi.testBit_packetNat _ k hj,
      hbyte, decide_eq_true hj, Bool.true_and]

section Options

variable (metas : List OptionalFieldsMeta) {s : DropOptions N}

theorem headerOf_parsed {h : PacketHeader (8 * N) 320} {us more : List (Word N)}
    (hparsed : Parsed h (us.map Axi.Word.data)) (hread : h.ready = true ∨ more = []) : HeaderOf (us ++ more) h.header := by
  refine ⟨us, more, rfl, ?_, ?_⟩
  · rcases hread with hready | hall
    · rw [hparsed.fed.ready, List.length_map] at hready
      exact .inl (of_decide_eq_true hready)
    · exact .inr hall
  · intro i hi hlt
    apply hparsed.bits i hi
    rw [List.length_map]
    exact hlt

/-- What a call does with the options, for a word behind the first. -/
structure MoreHeader (s : DropOptions N) (w : Word N) (t : DropOptions N) (o : DropOptionsOut N) : Prop where
  goes : w.last = false → t.state = .more
  ends : w.last = true → t.state ≠ .more
  header : t.optionalHeader = s.optionalHeader.parseWord w.data
  parse : t.parseHeader = s.parseHeader
  written : t.headerWritten = (s.headerWritten || (t.optionalHeader.ready || w.last) && s.parseHeader)
  fields : o.optionalHeaderFieldsOut =
    if ((t.optionalHeader.ready || w.last) && s.parseHeader && !s.headerWritten) = true then [t.optionalHeader.header]
    else []

theorem more_header (hs : s.state = .more) (w : Word N) (rest : List (Word N)) :
    ∃ t o, dropOptionalHeaderFields s ⟨metas, w :: rest⟩ = (t, ⟨metas, rest⟩, o) ∧ MoreHeader s w t o := by
  unfold dropOptionalHeaderFields
  rw [hs]
  refine ⟨_, _, rfl, ?_, ?_, rfl, rfl, ?_, rfl⟩
  · intro hlast
    rw [hlast]
    rfl
  · intro hlast
    rw [hlast]
    dsimp only
    split
    · split <;> exact DropState.noConfusion
    · contradiction
  · dsimp only
    cases s.headerWritten <;> cases s.parseHeader <;> simp

theorem end_header (hs : s.state ≠ .more) (rest : List (Word N)) :
    ∃ os t, Runs dropOptionalHeaderFields s ⟨metas, rest⟩ os t ⟨metas, rest⟩ ∧ t.state = .first ∧
      os.flatMap (·.optionalHeaderFieldsOut) = [] := by
  cases hst : s.state with
  | first => exact ⟨[], s, .refl _ _, hst, rfl⟩
  | more => exact absurd hst hs
  | remainder =>
    have hcall : dropOptionalHeaderFields s ⟨metas, rest⟩ = ({ s with state := .first }, ⟨metas, rest⟩,
        { dataOut := [.join (s.dataOffset.toNat * 4) s.prevWord .zero true] }) := by
      unfold dropOptionalHeaderFields
      rw [hst]
    exact ⟨_, _, .one hcall, rfl, rfl⟩

/-- The options are copied once when they have to be and have not been yet.  Induction on the words. -/
theorem more_headers (h : Ends ws) (rest : List (Word N)) :
    ∀ {s : DropOptions N} {us : List (Word N)}, s.state = .more → Parsed s.optionalHeader (us.map Axi.Word.data) →
      ∃ os t, Runs dropOptionalHeaderFields s ⟨metas, ws ++ rest⟩ os t ⟨metas, rest⟩ ∧ t.state = .first ∧
        if (s.parseHeader && !s.headerWritten) = true then
          ∃ x, os.flatMap (·.optionalHeaderFieldsOut) = [x] ∧ HeaderOf (us ++ ws) x
        else os.flatMap (·.optionalHeaderFieldsOut) = [] := by
  induction h with
  | @last w hlast =>
    intro s us hs hparsed
    obtain ⟨t, o, hcall, ht⟩ := more_header metas hs w rest
    obtain ⟨os, u, hrun, hu, hnone⟩ := end_header metas (ht.ends hlast) rest
    refine ⟨_, u, .call hcall hrun, hu, ?_⟩
    have hfields := ht.fields
    rw [hlast, Bool.or_true, Bool.true_and] at hfields
    rw [List.flatMap_cons, hnone, List.append_nil, hfields]
    split
    · have hnext := hparsed.parseWord w.data
      rw [← ht.header, ← List.map_singleton, ← List.map_append] at hnext
      have hheader := headerOf_parsed hnext (.inr rfl)
      rw [List.append_nil] at hheader
      exact ⟨_, rfl, hheader⟩
    · rfl
  | @cons w ws hlast hends ih =>
    intro s us hs hparsed
    obtain ⟨t, o, hcall, ht⟩ := more_header metas hs w (ws ++ rest)
    have hnext := hparsed.parseWord w.data
    rw [← ht.header, ← List.map_singleton, ← List.map_append] at hnext
    obtain ⟨os, u, hrun, hu, hmore⟩ := ih (ht.goes hlast) hnext
    have hfields := ht.fields
    have hwritten := ht.written
    rw [hlast, Bool.or_false] at hfields hwritten
    rw [ht.parse, hwritten, List.append_assoc, List.singleton_append] at hmore
    refine ⟨_, u, .call hcall hrun, hu, ?_⟩
    rw [List.flatMap_cons, hfields]
    cases hready : t.optionalHeader.ready with
    | false =>
      rw [hready, Bool.false_and, Bool.or_false] at hmore
      exact hmore
    | true =>
      rw [hready, Bool.true_and] at hmore
      rw [Bool.true_and]
      have hnone : (s.parseHeader && !(s.headerWritten || s.parseHeader)) = false := by
        cases s.parseHeader <;> cases s.headerWritten <;> rfl
      rw [hnone, if_neg Bool.false_ne_true] at hmore
      rw [hmore, List.append_nil]
      split
      · have hheader : HeaderOf ((us ++ [w]) ++ ws) _ := headerOf_parsed hnext (.inl hready)
        rw [List.append_assoc, List.singleton_append] at hheader
        exact ⟨_, rfl, hheader⟩
      · rfl

def OptionalFieldsMeta.copies (m : OptionalFieldsMeta) : Bool := m.dataOffset != 0 && m.syn

/-- What the call for the first word of a segment does with the options. -/
structure FirstHeader (s : DropOptions N) (m : OptionalFieldsMeta) (w : Word N) (t : DropOptions N) (o : DropOptionsOut N) :
    Prop where
  goes : w.last = false → t.state = .more
  ends : w.last = true → t.state ≠ .more
  header : t.optionalHeader = s.optionalHeader.clear.parseWord w.data
  parse : t.parseHeader = m.copies
  written : t.headerWritten = false
  fields : o.optionalHeaderFieldsOut =
    if (m.copies && (t.optionalHeader.ready || w.last)) = true then [t.optionalHeader.header] else []

theorem first_header (hs : s.state = .first) (m : OptionalFieldsMeta) (w : Word N) (rest : List (Word N)) :
    ∃ t o, dropOptionalHeaderFields s ⟨m :: metas, w :: rest⟩ = (t, ⟨metas, rest⟩, o) ∧ FirstHeader s m w t o := by
  unfold dropOptionalHeaderFields
  rw [hs]
  refine ⟨_, _, rfl, ?_, ?_, rfl, rfl, rfl, rfl⟩
  · intro hlast
    rw [hlast]
    rfl
  · intro hlast
    rw [hlast]
    dsimp only
    split
    · split <;> exact DropState.noConfusion
    · contradiction

/-- The copies that are made of the options of a segment: of more than one word of 512 bits there are two. -/
structure Copied (N : Nat) (m : OptionalFieldsMeta) (ws : List (Word N)) (copies : List (BitVec 320)) : Prop where
  none : m.copies = false → copies = []
  once : m.copies = true → ¬(N = 64 ∧ 1 < ws.length) → ∃ x, copies = [x] ∧ HeaderOf ws x
  twice : m.copies = true → N = 64 → 1 < ws.length → 1 < copies.length

theorem segment_options (hN : N = 8 ∨ N = 16 ∨ N = 32 ∨ N = 64) (m : OptionalFieldsMeta) (h : Ends ws)
    (hs : s.state = .first) (rest : List (Word N)) :
    ∃ os t, Runs dropOptionalHeaderFields s ⟨m :: metas, ws ++ rest⟩ os t ⟨metas, rest⟩ ∧ t.state = .first ∧
      Copied N m ws (os.flatMap (·.optionalHeaderFieldsOut)) := by
  have hclear := parsed_clear (W := 8 * N) (by decide) s.optionalHeader
  cases h with
  | @last w hlast =>
    obtain ⟨t, o, hcall, ht⟩ := first_header metas hs m w rest
    obtain ⟨os, u, hrun, hu, hnone⟩ := end_header metas (ht.ends hlast) rest
    have hnext : Parsed t.optionalHeader ([w].map Axi.Word.data) := by
      rw [ht.header]
      exact hclear.parseWord w.data
    refine ⟨_, u, .call hcall hrun, hu, ?_⟩
    have hfields := ht.fields
    rw [hlast, Bool.or_true, Bool.and_true] at hfields
    rw [List.flatMap_cons, hnone, List.append_nil, hfields]
    constructor
    · intro hcopies
      rw [hcopies, if_neg Bool.false_ne_true]
    · intro hcopies _
      rw [hcopies]
      exact ⟨_, rfl, headerOf_parsed hnext (.inr rfl)⟩
    · intro _ _ hlen
      exact absurd hlen (Nat.lt_irrefl 1)
  | @cons w ws hlast hends =>
    obtain ⟨t, o, hcall, ht⟩ := first_header metas hs m w (ws ++ rest)
    have hnext : Parsed t.optionalHeader ([w].map Axi.Word.data) := by
      rw [ht.header]
      exact hclear.parseWord w.data
    obtain ⟨os, u, hrun, hu, hmore⟩ := more_headers metas hends rest (ht.goes hlast) hnext
    rw [ht.parse, ht.written, Bool.not_false, Bool.and_true] at hmore
    refine ⟨_, u, .call hcall hrun, hu, ?_⟩
    have hlen : 1 < (w :: ws).length := by
      cases hends <;> exact Nat.succ_lt_succ (Nat.succ_pos _)
    have hready : t.optionalHeader.ready = decide (320 ≤ 1 * (8 * N)) := hnext.fed.ready
    have hfields := ht.fields
    rw [hlast, Bool.or_false, hready] at hfields
    rw [List.flatMap_cons, hfields]
    constructor
    · intro hcopies
      rw [hcopies, if_neg Bool.false_ne_true] at hmore
      rw [hcopies, hmore]
      rfl
    · intro hcopies hnot
      have hsmall : ¬320 ≤ 1 * (8 * N) := by
        intro hle
        exact hnot ⟨by omega, hlen⟩
      rw [hcopies, if_pos rfl] at hmore
      rw [hcopies, decide_eq_false hsmall]
      exact hmore
    · intro hcopies hN64 _
      have hbig : 320 ≤ 1 * (8 * N) := by omega
      rw [hcopies, if_pos rfl] at hmore
      obtain ⟨x, hx, -⟩ := hmore
      rw [hcopies, decide_eq_true hbig, hx]
      exact Nat.lt_succ_self 1

end Options

/-! ## Every segment -/

/-- The data of a segment behind its fixed header, with what has been read from that. -/
structure Optioned (N : Nat) extends Framed N where
  fields : OptionalFieldsMeta

def Optioned.optionWords (e : Optioned N) : Nat := e.fields.dataOffset.toNat

def Optioned.payload (e : Optioned N) : List (BitVec 8) := e.bytes.drop (4 * e.optionWords)

/-- The options are there, and something is. -/
structure Optioned.HasOptions (e : Optioned N) : Prop where
  most : e.optionWords ≤ 10
  options : 4 * e.optionWords ≤ e.bytes.length
  bytes : e.bytes ≠ []

/-- The two streams at the process. -/
def optionInput (es : List (Optioned N)) : DropOptionsIn N := ⟨es.map (·.fields), es.flatMap (·.words)⟩

/-- The words carry the payloads of the segments that have one. -/
def Payloads (es : List (Optioned N)) (out : List (Word N)) : Prop :=
  Packets out ((es.map Optioned.payload).filter fun bytes => !bytes.isEmpty)

/-- The options of each SYN that has some. -/
def Copies (es : List (Optioned N)) (out : List (BitVec 320)) : Prop :=
  List.Forall₂ (fun e x => octets (4 * e.optionWords) x = e.bytes.take (4 * e.optionWords))
    (es.filter fun e => e.fields.copies) out

/-- The options do not end with a word, unless there is nothing behind them. -/
def StripsRight (e : Optioned N) : Prop := 0 < e.optionWords → N / 4 ∣ e.optionWords → e.payload = []

/-- At 512 bits the segment has no options to copy, or is one word. -/
def CopiesRight (e : Optioned N) : Prop := N = 64 → e.fields.copies = true → e.words.length ≤ 1

theorem payloads_of_nil {e : Optioned N} (h : e.payload = []) (es : List (Optioned N)) :
    ((e :: es).map Optioned.payload).filter (fun bytes => !bytes.isEmpty) =
      (es.map Optioned.payload).filter fun bytes => !bytes.isEmpty := by
  rw [List.map_cons, h, List.filter_cons_of_neg (by decide)]

theorem payloads_of_ne {e : Optioned N} (h : e.payload ≠ []) (es : List (Optioned N)) :
    ((e :: es).map Optioned.payload).filter (fun bytes => !bytes.isEmpty) =
      e.payload :: (es.map Optioned.payload).filter fun bytes => !bytes.isEmpty := by
  rw [List.map_cons, List.filter_cons_of_pos (by simpa using h)]

/-- The payloads come out exactly when that of each segment does. -/
theorem payloads_iff (hN : N = 8 ∨ N = 16 ∨ N = 32 ∨ N = 64) (es : List (Optioned N)) (hes : ∀ e ∈ es, e.HasOptions) :
    (∃ out, Completes dropOptionalHeaderFields {} (·.dataOut) (·.state = .first) {} ⟨[], []⟩ (optionInput es) out ∧
      Payloads es out) ↔ ∀ e ∈ es, StripsRight e := by
  -- there are never more packets than payloads
  refine completes_iff_of_fits (fun es out => ∃ bss, Packets out bss ∧
    bss.length ≤ ((es.map Optioned.payload).filter fun bytes => !bytes.isEmpty).length) optionInput dropOptions_waits rfl
    rfl ?_ ⟨.nil, [], .nil, Nat.le_refl 0⟩ ?_ es rfl hes
  · exact fun s hs => first_idle hs
  intro s e es hs he
  obtain ⟨os, t, hrun, ht, hstripped⟩ := segment_data (es.map (·.fields)) hN (m := e.fields) e.packet he.options
    he.bytes hs (es.flatMap (·.words))
  refine ⟨os, t, hrun, ht, ?_⟩
  rintro rest ⟨bss, hbss, hle⟩
  by_cases hnil : e.payload = []
  · rw [hstripped.none hnil, List.nil_append, Payloads, payloads_of_nil hnil]
    exact ⟨⟨fun h => ⟨fun _ _ => hnil, h⟩, fun h => h.2⟩, bss, hbss, hle⟩
  · rw [Payloads, payloads_of_ne hnil]
    by_cases hlost : 0 < e.optionWords ∧ N / 4 ∣ e.optionWords
    · have hwrong : ¬StripsRight e := fun h => hnil (h hlost.1 hlost.2)
      rcases hstripped.lost hnil hlost.1 hlost.2 with hnone | hshort
      · rw [hnone, List.nil_append]
        refine ⟨iff_of_false ?_ fun h => hwrong h.1, bss, hbss, Nat.le_succ_of_le hle⟩
        intro hall
        rw [hbss.unique hall, List.length_cons] at hle
        exact absurd hle (Nat.not_succ_le_self _)
      · refine ⟨iff_of_false ?_ fun h => hwrong h.1, _ :: bss, .cons hshort hbss, Nat.succ_le_succ hle⟩
        rw [Axi.packets_cons_iff hshort.ends, hshort.bytes_iff]
        rintro ⟨heq, -⟩
        have hlen := congrArg List.length heq
        have hpos := List.length_pos_iff.mpr hnil
        rw [Optioned.payload, List.length_drop, List.length_drop] at hlen
        rw [Optioned.payload, List.length_drop] at hpos
        have hoptions : e.fields.dataOffset.toNat = e.optionWords := rfl
        omega
    · have hpacket := hstripped.payload hnil hlost
      refine ⟨?_, _ :: bss, .cons hpacket hbss, Nat.succ_le_succ hle⟩
      rw [Axi.packets_cons_iff hpacket.ends]
      exact ⟨fun h => ⟨fun hpos hdvd => absurd ⟨hpos, hdvd⟩ hlost, h.2⟩, fun h => ⟨hpacket, h.2⟩⟩

/-- The options are copied exactly once when those of each segment are. -/
theorem copies_iff (hN : N = 8 ∨ N = 16 ∨ N = 32 ∨ N = 64) (es : List (Optioned N)) (hes : ∀ e ∈ es, e.HasOptions) :
    (∃ out, Completes dropOptionalHeaderFields {} (·.optionalHeaderFieldsOut) (·.state = .first) {} ⟨[], []⟩
      (optionInput es) out ∧ Copies es out) ↔ ∀ e ∈ es, CopiesRight e := by
  -- there are never fewer copies than there should be
  refine completes_iff_of_fits (fun es out => (es.filter fun e => e.fields.copies).length ≤ out.length) optionInput
    dropOptions_waits rfl rfl ?_ ⟨.nil, Nat.le_refl 0⟩ ?_ es rfl hes
  · exact fun s hs => first_idle hs
  intro s e es hs he
  obtain ⟨os, t, hrun, ht, hcopied⟩ := segment_options (es.map (·.fields)) hN e.fields e.packet.ends hs
    (es.flatMap (·.words))
  refine ⟨os, t, hrun, ht, ?_⟩
  intro rest hle
  cases hcopies : e.fields.copies with
  | false =>
    rw [hcopied.none hcopies, List.nil_append, Copies, List.filter_cons_of_neg (by rw [hcopies]; exact Bool.false_ne_true)]
    refine ⟨⟨fun h => ⟨fun _ h' => ?_, h⟩, fun h => h.2⟩, hle⟩
    rw [hcopies] at h'
    cases h'
  | true =>
    rw [Copies, List.filter_cons_of_pos (by exact hcopies)]
    by_cases htwice : N = 64 ∧ 1 < e.words.length
    · have hlen := hcopied.twice hcopies htwice.1 htwice.2
      refine ⟨iff_of_false ?_ ?_, ?_⟩
      · intro hall
        have heq := hall.length_eq
        rw [List.length_cons, List.length_append] at heq
        omega
      · exact fun h => absurd (h.1 htwice.1 hcopies) (Nat.not_le.mpr htwice.2)
      · rw [List.length_cons, List.length_append]
        omega
    · obtain ⟨x, hx, hheader⟩ := hcopied.once hcopies htwice
      rw [hx, List.singleton_append, List.forall₂_cons, List.length_cons, List.length_cons]
      refine ⟨?_, Nat.succ_le_succ hle⟩
      have hright : CopiesRight e := fun h64 _ => Nat.le_of_not_lt fun hlt => htwice ⟨h64, hlt⟩
      have hoctets := hheader.octets_eq e.packet he.most he.options
      exact ⟨fun h => ⟨hright, h.2⟩, fun h => ⟨hoctets, h.2⟩⟩

/-- A SYN with one option word and three bytes. -/
def oneOption : Optioned 8 := { toFramed := .single [2, 4, 5, 0xB4, 1, 2, 3] (by decide), fields := ⟨1, true⟩ }

def fullOptions : Optioned 8 :=
  { toFramed := .full [2, 4, 5, 0xB4, 1, 1, 1, 1] rfl (.single [1] (by decide)), fields := ⟨2, false⟩ }

end FpgaNetworkStack.Toe
