import FpgaNetworkStack.Toe.TcpOptions

/-!
# The window scale of a list of options

The options are a list of RFC 793: kind 0 ends it, kind 1 is one byte, and any other option has its length in the second
byte.  The code compares that length with the number of words that are left and does not look for the end of the
list, so what it finds is the scale of the list for some of the lists only.
-/

namespace FpgaNetworkStack.Toe

open Lib

/-! ## What is meant -/

/-- The shift count of the first window scale option (kind 3, with at least the three bytes of its kind) in a list of
options; 0 if there is none.  An option that is too short or longer than the list ends it. -/
def windowScale : List (BitVec 8) → Nat
  | [] => 0
  | kind :: rest =>
    if kind = 0 then 0
    else if kind = 1 then windowScale rest
    else
      let length := (rest.headD 0).toNat
      if length < 2 ∨ rest.length + 1 < length then 0
      else if kind = 3 then
        if length < 3 then 0 else (rest.getD 1 0).toNat
      else windowScale (rest.drop (length - 1))
  termination_by options => options.length
  decreasing_by
    · rw [List.length_cons]
      omega
    · rw [List.length_cons, List.length_drop]
      omega

/-- The byte of the register at a position; behind the end there are zeros. -/
def optionByte (fields : BitVec 320) (p : Nat) : BitVec 8 := fields.extractLsb' (8 * p) 8

/-- The options of a segment with `dataOffset` words of them. -/
def optionArea (dataOffset : BitVec 4) (fields : BitVec 320) : List (BitVec 8) :=
  (List.range (4 * dataOffset.toNat)).map (optionByte fields)

/-! ## Which lists are read right -/

section Walk

variable (d : BitVec 4) (fields : BitVec 320)

/-- The option at a position is of another kind than 0, 1 and 3. -/
def OtherKind (p : Nat) : Prop := optionByte fields p ≠ 0 ∧ optionByte fields p ≠ 1 ∧ optionByte fields p ≠ 3

def optionLength (p : Nat) : Nat := (optionByte fields (p + 1)).toNat

/-- The length of the option is the number of words that are left, which is kept in four bits. -/
def StopsAt (p : Nat) : Prop := (d - BitVec.ofNat 4 p).toNat = optionLength fields p

/-- The option lies inside the area. -/
def Fits (p : Nat) : Prop := 2 ≤ optionLength fields p ∧ p + optionLength fields p ≤ 4 * d.toNat

instance (p : Nat) : Decidable (Fits d fields p) :=
  inferInstanceAs (Decidable (2 ≤ optionLength fields p ∧ p + optionLength fields p ≤ 4 * d.toNat))

instance (p : Nat) : Decidable (StopsAt d fields p) :=
  inferInstanceAs (Decidable ((d - BitVec.ofNat 4 p).toNat = optionLength fields p))

/-- No scale is found from here on. -/
inductive Silent : Nat → Prop
  | endOfList {p : Nat} (hkind : optionByte fields p = 0) : Silent p
  | nop {p : Nat} (hkind : optionByte fields p = 1) (rest : Silent (p + 1)) : Silent p
  | scale {p : Nat} (hkind : optionByte fields p = 3) (hzero : (optionByte fields (p + 2)).toNat % 16 = 0) : Silent p
  | stop {p : Nat} (hkind : OtherKind fields p) (hstop : StopsAt d fields p) : Silent p
  | skip {p : Nat} (hkind : OtherKind fields p) (hstop : ¬ StopsAt d fields p) (hlength : optionLength fields p ≠ 0)
      (rest : Silent (p + optionLength fields p)) : Silent p

/-- From here on the list is read right: its end is marked or nothing behind it looks like a scale, the shift count has
four bits, and no option before the scale has a length that is taken for the end. -/
inductive Handled : Nat → Prop
  | outside {p : Nat} (hp : 4 * d.toNat ≤ p) (rest : Silent d fields p) : Handled p
  | endOfList {p : Nat} (hp : p < 4 * d.toNat) (hkind : optionByte fields p = 0) : Handled p
  | nop {p : Nat} (hp : p < 4 * d.toNat) (hkind : optionByte fields p = 1) (rest : Handled (p + 1)) : Handled p
  | scale {p : Nat} (hp : p < 4 * d.toNat) (hkind : optionByte fields p = 3) (hfits : Fits d fields p)
      (hlength : 3 ≤ optionLength fields p) (hcount : (optionByte fields (p + 2)).toNat < 16) : Handled p
  | badScale {p : Nat} (hp : p < 4 * d.toNat) (hkind : optionByte fields p = 3)
      (hbad : ¬ (Fits d fields p ∧ 3 ≤ optionLength fields p)) (hzero : (optionByte fields (p + 2)).toNat % 16 = 0) :
      Handled p
  | stop {p : Nat} (hp : p < 4 * d.toNat) (hkind : OtherKind fields p) (hstop : StopsAt d fields p)
      (hnone : Fits d fields p → windowScale ((optionArea d fields).drop (p + optionLength fields p)) = 0) : Handled p
  | skip {p : Nat} (hp : p < 4 * d.toNat) (hkind : OtherKind fields p) (hstop : ¬ StopsAt d fields p)
      (hfits : Fits d fields p) (rest : Handled (p + optionLength fields p)) : Handled p
  | malformed {p : Nat} (hp : p < 4 * d.toNat) (hkind : OtherKind fields p) (hstop : ¬ StopsAt d fields p)
      (hbad : ¬ Fits d fields p) (hlength : optionLength fields p ≠ 0)
      (rest : Silent d fields (p + optionLength fields p)) : Handled p

end Walk

variable {d : BitVec 4} {fields : BitVec 320} {p : Nat}

theorem optionByte_end (hp : 40 ≤ p) : optionByte fields p = 0 := by
  apply BitVec.eq_of_getLsbD_eq
  intro k hk
  rw [optionByte, BitVec.getLsbD_extractLsb', BitVec.getLsbD_of_ge _ _ (by omega)]
  simp

/-! ## The list at a position -/

/-- The window scale of what is left of the list. -/
def scaleAt (d : BitVec 4) (fields : BitVec 320) (p : Nat) : Nat := windowScale ((optionArea d fields).drop p)

theorem area_drop (hp : p < 4 * d.toNat) :
    (optionArea d fields).drop p = optionByte fields p :: (optionArea d fields).drop (p + 1) := by
  have hlength : p < (optionArea d fields).length := by
    rw [optionArea, List.length_map, List.length_range]
    exact hp
  rw [List.drop_eq_getElem_cons hlength]
  congr 1
  simp [optionArea]

theorem scaleAt_outside (hp : 4 * d.toNat ≤ p) : scaleAt d fields p = 0 := by
  have hnil : (optionArea d fields).drop p = [] := by
    rw [List.drop_eq_nil_iff, optionArea, List.length_map, List.length_range]
    exact hp
  rw [scaleAt, hnil, windowScale]

theorem scaleAt_endOfList (hp : p < 4 * d.toNat) (hkind : optionByte fields p = 0) : scaleAt d fields p = 0 := by
  rw [scaleAt, area_drop hp, windowScale, if_pos hkind]

theorem scaleAt_nop (hp : p < 4 * d.toNat) (hkind : optionByte fields p = 1) :
    scaleAt d fields p = scaleAt d fields (p + 1) := by
  rw [scaleAt, area_drop hp, windowScale, if_neg (by rw [hkind]; decide), if_pos hkind, scaleAt]

theorem scaleAt_option (hp : p + 1 < 4 * d.toNat) (h0 : optionByte fields p ≠ 0) (h1 : optionByte fields p ≠ 1) :
    scaleAt d fields p =
      if ¬ Fits d fields p then 0
      else if optionByte fields p = 3 then
        if optionLength fields p < 3 then 0 else (optionByte fields (p + 2)).toNat
      else scaleAt d fields (p + optionLength fields p) := by
  have hlength : ((optionArea d fields).drop (p + 1)).length + 1 = 4 * d.toNat - p := by
    rw [List.length_drop, optionArea, List.length_map, List.length_range]
    omega
  have hhead : (((optionArea d fields).drop (p + 1)).headD 0).toNat = optionLength fields p := by
    rw [area_drop hp]
    rfl
  rw [scaleAt, area_drop (by omega), windowScale, if_neg h0, if_neg h1]
  simp only [hhead, hlength]
  by_cases hfits : Fits d fields p
  · have hin : ¬ (optionLength fields p < 2 ∨ 4 * d.toNat - p < optionLength fields p) := by
      unfold Fits at hfits
      omega
    rw [if_neg hin, if_neg (not_not.mpr hfits), List.drop_drop, scaleAt]
    have hrest : p + 1 + (optionLength fields p - 1) = p + optionLength fields p := by
      unfold Fits at hfits
      omega
    rw [hrest]
    by_cases hshort : optionLength fields p < 3
    · simp only [if_pos hshort]
    · have hcount : ((optionArea d fields).drop (p + 1)).getD 1 0 = optionByte fields (p + 2) := by
        have hlast : p + 2 < 4 * d.toNat := by
          unfold Fits at hfits
          omega
        rw [area_drop hp, area_drop hlast]
        rfl
      simp only [if_neg hshort, hcount]
  · have hout : optionLength fields p < 2 ∨ 4 * d.toNat - p < optionLength fields p := by
      unfold Fits at hfits
      omega
    rw [if_pos hout, if_pos hfits]

theorem scaleAt_bad (hp : p < 4 * d.toNat) (h0 : optionByte fields p ≠ 0) (h1 : optionByte fields p ≠ 1)
    (hbad : ¬ Fits d fields p) : scaleAt d fields p = 0 := by
  by_cases hnext : p + 1 < 4 * d.toNat
  · rw [scaleAt_option hnext h0 h1, if_pos hbad]
  · -- the kind is the last byte
    have hnil : (optionArea d fields).drop (p + 1) = [] := by
      rw [List.drop_eq_nil_iff, optionArea, List.length_map, List.length_range]
      omega
    rw [scaleAt, area_drop hp, windowScale, if_neg h0, if_neg h1, hnil]
    rfl

theorem Fits.next (h : Fits d fields p) : p + 1 < 4 * d.toNat := by
  unfold Fits at h
  omega

theorem scaleAt_scale (hkind : optionByte fields p = 3) (hfits : Fits d fields p)
    (hlength : 3 ≤ optionLength fields p) : scaleAt d fields p = (optionByte fields (p + 2)).toNat := by
  rw [scaleAt_option hfits.next (by rw [hkind]; decide) (by rw [hkind]; decide), if_neg (not_not.mpr hfits), if_pos hkind,
    if_neg (by omega)]

theorem scaleAt_badScale (hp : p < 4 * d.toNat) (hkind : optionByte fields p = 3)
    (hbad : ¬ (Fits d fields p ∧ 3 ≤ optionLength fields p)) : scaleAt d fields p = 0 := by
  have h0 : optionByte fields p ≠ 0 := by rw [hkind]; decide
  have h1 : optionByte fields p ≠ 1 := by rw [hkind]; decide
  by_cases hfits : Fits d fields p
  · rw [scaleAt_option hfits.next h0 h1, if_neg (not_not.mpr hfits), if_pos hkind, if_pos]
    have := not_and.mp hbad hfits
    omega
  · exact scaleAt_bad hp h0 h1 hfits

theorem scaleAt_other (hkind : OtherKind fields p) (hfits : Fits d fields p) :
    scaleAt d fields p = scaleAt d fields (p + optionLength fields p) := by
  rw [scaleAt_option hfits.next hkind.1 hkind.2.1, if_neg (not_not.mpr hfits), if_neg hkind.2.2]

/-! ## The walk of the code -/

/-- The process at a position of the list. -/
def parseAt (d : BitVec 4) (fields : BitVec 320) (p : Nat) : ParseOptionalHeaderFields :=
  ⟨.PARSE, d - BitVec.ofNat 4 p, fields >>> (8 * p)⟩

theorem extract_shift (a b n : Nat) : (fields >>> a).extractLsb' b n = fields.extractLsb' (a + b) n := by
  apply BitVec.eq_of_getLsbD_eq
  intro k hk
  rw [BitVec.getLsbD_extractLsb', BitVec.getLsbD_extractLsb', BitVec.getLsbD_ushiftRight, Nat.add_assoc]

theorem byte_shift (p k : Nat) : (fields >>> (8 * p)).extractLsb' (8 * k) 8 = optionByte fields (p + k) := by
  rw [extract_shift, optionByte, Nat.mul_add]

theorem count_shift (p : Nat) :
    (fields >>> (8 * p)).extractLsb' 16 4 = (optionByte fields (p + 2)).setWidth 4 := by
  rw [extract_shift, optionByte]
  apply BitVec.eq_of_getLsbD_eq
  intro k hk
  rw [BitVec.getLsbD_extractLsb', BitVec.getLsbD_setWidth, BitVec.getLsbD_extractLsb', Nat.mul_add]
  simp [hk, show k < 8 by omega]

theorem parseAt_skip (p : Nat) (length : BitVec 8) :
    (⟨.PARSE, d - BitVec.ofNat 4 p - length.setWidth 4, fields >>> (8 * p) >>> (length.toNat * 8)⟩ :
      ParseOptionalHeaderFields) = parseAt d fields (p + length.toNat) := by
  have hoffset : d - BitVec.ofNat 4 p - length.setWidth 4 = d - BitVec.ofNat 4 (p + length.toNat) := by
    rw [BitVec.ofNat_add, BitVec.sub_sub]
    congr 2
  have hfields : fields >>> (8 * p) >>> (length.toNat * 8) = fields >>> (8 * (p + length.toNat)) := by
    rw [← BitVec.shiftRight_add, Nat.mul_add, Nat.mul_comm length.toNat]
  rw [hoffset, hfields, parseAt]

section Calls

variable (i : ParseOptionalHeaderFieldsIn)

/-- The next state, the length that is taken off and what is written. -/
def parseBranch (d : BitVec 4) (fields : BitVec 320) (p : Nat) : ParseState × BitVec 8 × List (BitVec 4) :=
  if optionByte fields p = 0 then (.IDLE, optionByte fields (p + 1), [0])
  else if optionByte fields p = 1 then (.PARSE, 1, [])
  else if optionByte fields p = 3 then (.IDLE, optionByte fields (p + 1), [(optionByte fields (p + 2)).setWidth 4])
  else if StopsAt d fields p then (.IDLE, optionByte fields (p + 1), [0])
  else (.PARSE, optionByte fields (p + 1), [])

theorem parse_eq : parseOptionalHeaderFields (parseAt d fields p) i =
    (⟨(parseBranch d fields p).1, d - BitVec.ofNat 4 p - (parseBranch d fields p).2.1.setWidth 4,
      fields >>> (8 * p) >>> ((parseBranch d fields p).2.1.toNat * 8)⟩, i, (parseBranch d fields p).2.2) := by
  have hkind : (fields >>> (8 * p)).extractLsb' 0 8 = optionByte fields p := byte_shift p 0
  have hlength : (fields >>> (8 * p)).extractLsb' 8 8 = optionByte fields (p + 1) := byte_shift p 1
  simp only [parseOptionalHeaderFields, parseAt, hkind, hlength, count_shift]
  rfl

theorem parse_writes {state : ParseState} {length : BitVec 8} {out : List (BitVec 4)}
    (h : parseBranch d fields p = (state, length, out)) (hstate : state = .IDLE) :
    ∃ t, parseOptionalHeaderFields (parseAt d fields p) i = (t, i, out) ∧ t.state = .IDLE := by
  rw [parse_eq, h]
  exact ⟨_, rfl, hstate⟩

theorem parse_skips {length : BitVec 8} (h : parseBranch d fields p = (.PARSE, length, [])) :
    parseOptionalHeaderFields (parseAt d fields p) i = (parseAt d fields (p + length.toNat), i, []) := by
  rw [parse_eq, h]
  exact congrArg (·, i, []) (parseAt_skip p length)

end Calls

/-! ## What the walk finds -/

theorem silent_nop (hkind : optionByte fields p = 1) : Silent d fields p ↔ Silent d fields (p + 1) := by
  constructor
  · intro h
    cases h with
    | nop _ rest => exact rest
    | endOfList h0 => exact absurd (h0.symm.trans hkind) (by decide)
    | scale h3 => exact absurd (h3.symm.trans hkind) (by decide)
    | stop h => exact absurd hkind h.2.1
    | skip h => exact absurd hkind h.2.1
  · exact Silent.nop hkind

theorem silent_scale (hkind : optionByte fields p = 3) :
    Silent d fields p ↔ (optionByte fields (p + 2)).toNat % 16 = 0 := by
  constructor
  · intro h
    cases h with
    | scale _ hzero => exact hzero
    | endOfList h0 => exact absurd (h0.symm.trans hkind) (by decide)
    | nop h1 => exact absurd (h1.symm.trans hkind) (by decide)
    | stop h => exact absurd hkind h.2.2
    | skip h => exact absurd hkind h.2.2
  · exact Silent.scale hkind

theorem silent_skip (hkind : OtherKind fields p) (hstop : ¬ StopsAt d fields p) :
    Silent d fields p ↔ optionLength fields p ≠ 0 ∧ Silent d fields (p + optionLength fields p) := by
  constructor
  · intro h
    cases h with
    | skip _ _ hlength rest => exact ⟨hlength, rest⟩
    | endOfList h0 => exact absurd h0 hkind.1
    | nop h1 => exact absurd h1 hkind.2.1
    | scale h3 => exact absurd h3 hkind.2.2
    | stop _ h => exact absurd h hstop
  · rintro ⟨hlength, rest⟩
    exact Silent.skip hkind hstop hlength rest

/-- The list read from a position on: the process gets back to `IDLE` with one value, which is 0 exactly when no scale
is found, or it stays where it is. -/
inductive Found (d : BitVec 4) (fields : BitVec 320) (p : Nat) : Option (BitVec 4) → Prop
  | value (winScale : BitVec 4) (hruns : ∀ i, ∃ os t, Runs parseOptionalHeaderFields (parseAt d fields p) i os t i ∧
      os.flatten = [winScale] ∧ t.state = .IDLE) (hsilent : winScale = 0 ↔ Silent d fields p) :
      Found d fields p (some winScale)
  | stuck (hruns : ∀ i, ∃ os t, Runs parseOptionalHeaderFields (parseAt d fields p) i os t i ∧ os.flatten = [] ∧
      t.state = .PARSE ∧ parseOptionalHeaderFields t i = (t, i, [])) (hsilent : ¬ Silent d fields p) :
      Found d fields p none

theorem Found.silent_iff {r : Option (BitVec 4)} (h : Found d fields p r) :
    Silent d fields p ↔ ∃ v, r = some v ∧ v.toNat = 0 := by
  cases h with
  | value winScale _ hsilent =>
    rw [← hsilent]
    constructor
    · rintro rfl
      exact ⟨0, rfl, rfl⟩
    · rintro ⟨v, hv, hzero⟩
      cases hv
      exact BitVec.eq_of_toNat_eq hzero
  | stuck _ hsilent =>
    constructor
    · exact fun h => absurd h hsilent
    · rintro ⟨v, hv, -⟩
      cases hv

theorem Found.writes {length : BitVec 8} {winScale : BitVec 4}
    (h : parseBranch d fields p = (.IDLE, length, [winScale])) (hsilent : winScale = 0 ↔ Silent d fields p) :
    Found d fields p (some winScale) := by
  refine .value winScale (fun i => ?_) hsilent
  obtain ⟨t, hcall, hstate⟩ := parse_writes i h rfl
  exact ⟨[[winScale]], t, .one hcall, rfl, hstate⟩

theorem Found.skips {length : BitVec 8} {r : Option (BitVec 4)} (h : parseBranch d fields p = (.PARSE, length, []))
    (hsilent : Silent d fields p ↔ Silent d fields (p + length.toNat)) (hrest : Found d fields (p + length.toNat) r) :
    Found d fields p r := by
  cases hrest with
  | value winScale hruns hs =>
    refine .value winScale (fun i => ?_) (hs.trans hsilent.symm)
    obtain ⟨os, t, hrun, hos, hstate⟩ := hruns i
    exact ⟨[] :: os, t, .call (parse_skips i h) hrun, hos, hstate⟩
  | stuck hruns hs =>
    refine .stuck (fun i => ?_) (fun hc => hs (hsilent.mp hc))
    obtain ⟨os, t, hrun, hos, hstate, hrest⟩ := hruns i
    exact ⟨[] :: os, t, .call (parse_skips i h) hrun, hos, hstate, hrest⟩

theorem handled_outside (hp : 4 * d.toNat ≤ p) : Handled d fields p ↔ Silent d fields p := by
  constructor
  · intro h
    cases h with
    | outside _ rest => exact rest
    | _ => omega
  · exact Handled.outside hp

theorem handled_nop (hkind : optionByte fields p = 1) : Handled d fields p ↔ Handled d fields (p + 1) := by
  by_cases hp : p < 4 * d.toNat
  · constructor
    · intro h
      cases h with
      | nop _ _ rest => exact rest
      | outside hout => omega
      | endOfList _ h0 => exact absurd (h0.symm.trans hkind) (by decide)
      | scale _ h3 => exact absurd (h3.symm.trans hkind) (by decide)
      | badScale _ h3 => exact absurd (h3.symm.trans hkind) (by decide)
      | stop _ h => exact absurd hkind h.2.1
      | skip _ h => exact absurd hkind h.2.1
      | malformed _ h => exact absurd hkind h.2.1
    · exact Handled.nop hp hkind
  · rw [handled_outside (by omega), handled_outside (by omega), silent_nop hkind]

theorem handled_scale (hp : p < 4 * d.toNat) (hkind : optionByte fields p = 3) :
    Handled d fields p ↔ (optionByte fields (p + 2)).toNat % 16 = scaleAt d fields p := by
  constructor
  · intro h
    cases h with
    | scale _ _ hfits hlength hcount => rw [scaleAt_scale hkind hfits hlength, Nat.mod_eq_of_lt hcount]
    | badScale _ _ hbad hzero => rw [scaleAt_badScale hp hkind hbad, hzero]
    | outside hout => omega
    | endOfList _ h0 => exact absurd (h0.symm.trans hkind) (by decide)
    | nop _ h1 => exact absurd (h1.symm.trans hkind) (by decide)
    | stop _ h => exact absurd hkind h.2.2
    | skip _ h => exact absurd hkind h.2.2
    | malformed _ h => exact absurd hkind h.2.2
  · intro h
    by_cases hok : Fits d fields p ∧ 3 ≤ optionLength fields p
    · rw [scaleAt_scale hkind hok.1 hok.2] at h
      exact .scale hp hkind hok.1 hok.2 (by omega)
    · rw [scaleAt_badScale hp hkind hok] at h
      exact .badScale hp hkind hok h

theorem handled_stop (hp : p < 4 * d.toNat) (hkind : OtherKind fields p) (hstop : StopsAt d fields p) :
    Handled d fields p ↔ scaleAt d fields p = 0 := by
  constructor
  · intro h
    cases h with
    | stop _ _ _ hnone =>
      by_cases hfits : Fits d fields p
      · rw [scaleAt_other hkind hfits]
        exact hnone hfits
      · exact scaleAt_bad hp hkind.1 hkind.2.1 hfits
    | outside hout => omega
    | endOfList _ h0 => exact absurd h0 hkind.1
    | nop _ h1 => exact absurd h1 hkind.2.1
    | scale _ h3 => exact absurd h3 hkind.2.2
    | badScale _ h3 => exact absurd h3 hkind.2.2
    | skip _ _ h => exact absurd hstop h
    | malformed _ _ h => exact absurd hstop h
  · intro h
    refine .stop hp hkind hstop fun hfits => ?_
    rw [scaleAt_other hkind hfits] at h
    exact h

theorem handled_skip (hp : p < 4 * d.toNat) (hkind : OtherKind fields p) (hstop : ¬ StopsAt d fields p) :
    Handled d fields p ↔ if Fits d fields p then Handled d fields (p + optionLength fields p) else Silent d fields p := by
  constructor
  · intro h
    cases h with
    | skip _ _ _ hfits rest =>
      rw [if_pos hfits]
      exact rest
    | malformed _ _ _ hbad hlength rest =>
      rw [if_neg hbad]
      exact .skip hkind hstop hlength rest
    | outside hout => omega
    | endOfList _ h0 => exact absurd h0 hkind.1
    | nop _ h1 => exact absurd h1 hkind.2.1
    | scale _ h3 => exact absurd h3 hkind.2.2
    | badScale _ h3 => exact absurd h3 hkind.2.2
    | stop _ _ h => exact absurd h hstop
  · intro h
    by_cases hfits : Fits d fields p
    · rw [if_pos hfits] at h
      exact .skip hp hkind hstop hfits h
    · rw [if_neg hfits, silent_skip hkind hstop] at h
      exact .malformed hp hkind hstop hfits h.1 h.2

/-- A length of 0 moves nothing. -/
theorem walk_stuck (hkind : OtherKind fields p) (hstop : ¬ StopsAt d fields p) (hlength : optionLength fields p = 0)
    (hbranch : parseBranch d fields p = (.PARSE, optionByte fields (p + 1), [])) :
    Found d fields p none ∧ (Handled d fields p ↔ ∃ v, (none : Option (BitVec 4)) = some v ∧ v.toNat = scaleAt d fields p) := by
  have hsilent : ¬ Silent d fields p := by
    rw [silent_skip hkind hstop]
    exact fun h => h.1 hlength
  constructor
  · refine .stuck (fun i => ⟨[], _, .refl _ i, rfl, rfl, ?_⟩) hsilent
    have hcall := parse_skips i hbranch
    have hzero : (optionByte fields (p + 1)).toNat = 0 := hlength
    rw [hzero] at hcall
    exact hcall
  · constructor
    · intro h
      by_cases hp : p < 4 * d.toNat
      · rw [handled_skip hp hkind hstop] at h
        by_cases hfits : Fits d fields p
        · have := hfits.1
          omega
        · rw [if_neg hfits] at h
          exact absurd h hsilent
      · exact absurd ((handled_outside (by omega)).mp h) hsilent
    · rintro ⟨v, hv, -⟩
      cases hv

theorem walk (d : BitVec 4) (fields : BitVec 320) (p : Nat) :
    ∃ r, Found d fields p r ∧ (Handled d fields p ↔ ∃ v, r = some v ∧ v.toNat = scaleAt d fields p) := by
  -- the position moves on until it is behind the register, where there are zeros
  induction hn : 40 - p using Nat.strongRecOn generalizing p with
  | ind n ih =>
    by_cases h0 : optionByte fields p = 0
    · refine ⟨some 0, .writes (by rw [parseBranch, if_pos h0]) (iff_of_true rfl (.endOfList h0)), ?_⟩
      have hhandled : Handled d fields p := by
        by_cases hp : p < 4 * d.toNat
        · exact .endOfList hp h0
        · exact .outside (by omega) (.endOfList h0)
      have hscale : scaleAt d fields p = 0 := by
        by_cases hp : p < 4 * d.toNat
        · exact scaleAt_endOfList hp h0
        · exact scaleAt_outside (by omega)
      exact iff_of_true hhandled ⟨0, rfl, hscale.symm⟩
    · have hp40 : p < 40 := by
        by_contra hge
        exact h0 (optionByte_end (by omega))
      by_cases h1 : optionByte fields p = 1
      · obtain ⟨r, hfound, hiff⟩ := ih _ (by omega) (p + 1) rfl
        have hscale : scaleAt d fields p = scaleAt d fields (p + 1) := by
          by_cases hp : p < 4 * d.toNat
          · exact scaleAt_nop hp h1
          · rw [scaleAt_outside (by omega), scaleAt_outside (by omega)]
        refine ⟨r, ?_, ?_⟩
        · have hbranch : parseBranch d fields p = (.PARSE, 1, []) := by rw [parseBranch, if_neg h0, if_pos h1]
          exact .skips hbranch (silent_nop h1) hfound
        · rw [handled_nop h1, hiff, hscale]
      · by_cases h3 : optionByte fields p = 3
        · have hvalue : ((optionByte fields (p + 2)).setWidth 4).toNat = (optionByte fields (p + 2)).toNat % 16 :=
            BitVec.toNat_setWidth _ _
          have hbranch : parseBranch d fields p =
              (.IDLE, optionByte fields (p + 1), [(optionByte fields (p + 2)).setWidth 4]) := by
            rw [parseBranch, if_neg h0, if_neg h1, if_pos h3]
          refine ⟨some ((optionByte fields (p + 2)).setWidth 4), .writes hbranch ?_, ?_⟩
          · rw [silent_scale h3, ← hvalue]
            exact ⟨fun h => congrArg BitVec.toNat h, fun h => BitVec.eq_of_toNat_eq h⟩
          · simp only [Option.some.injEq, exists_eq_left', hvalue]
            by_cases hp : p < 4 * d.toNat
            · exact handled_scale hp h3
            · rw [handled_outside (by omega), silent_scale h3, scaleAt_outside (by omega)]
        · have hkind : OtherKind fields p := ⟨h0, h1, h3⟩
          by_cases hstop : StopsAt d fields p
          · have hbranch : parseBranch d fields p = (.IDLE, optionByte fields (p + 1), [0]) := by
              rw [parseBranch, if_neg h0, if_neg h1, if_neg h3, if_pos hstop]
            refine ⟨some 0, .writes hbranch (iff_of_true rfl (.stop hkind hstop)), ?_⟩
            · simp only [Option.some.injEq, exists_eq_left']
              by_cases hp : p < 4 * d.toNat
              · rw [handled_stop hp hkind hstop]
                exact eq_comm
              · rw [handled_outside (by omega), scaleAt_outside (by omega)]
                exact iff_of_true (.stop hkind hstop) rfl
          · have hbranch : parseBranch d fields p = (.PARSE, optionByte fields (p + 1), []) := by
              rw [parseBranch, if_neg h0, if_neg h1, if_neg h3, if_neg hstop]
            by_cases hlength : optionLength fields p = 0
            · exact ⟨none, walk_stuck hkind hstop hlength hbranch⟩
            · obtain ⟨r, hfound, hiff⟩ := ih _ (by omega) (p + optionLength fields p) rfl
              have hsilent : Silent d fields p ↔ Silent d fields (p + optionLength fields p) :=
                (silent_skip hkind hstop).trans (and_iff_right hlength)
              refine ⟨r, .skips hbranch hsilent hfound, ?_⟩
              by_cases hok : p < 4 * d.toNat ∧ Fits d fields p
              · rw [handled_skip hok.1 hkind hstop, if_pos hok.2, hiff, scaleAt_other hkind hok.2]
              · -- nothing of the list is left, or what is left is malformed
                have hhandled : Handled d fields p ↔ Silent d fields p := by
                  by_cases hp : p < 4 * d.toNat
                  · rw [handled_skip hp hkind hstop, if_neg (not_and.mp hok hp)]
                  · exact handled_outside (by omega)
                have hscale : scaleAt d fields p = 0 := by
                  by_cases hp : p < 4 * d.toNat
                  · exact scaleAt_bad hp h0 h1 (not_and.mp hok hp)
                  · exact scaleAt_outside (by omega)
                rw [hhandled, hsilent, hfound.silent_iff, hscale]

/-! ## One request after the other -/

instance : Append ParseOptionalHeaderFieldsIn :=
  ⟨fun i j => ⟨i.dataOffsetIn ++ j.dataOffsetIn, i.optionalHeaderFieldsIn ++ j.optionalHeaderFieldsIn⟩⟩

instance : Std.Associative (α := ParseOptionalHeaderFieldsIn) (· ++ ·) where
  assoc _ _ _ := congrArg₂ ParseOptionalHeaderFieldsIn.mk (List.append_assoc _ _ _) (List.append_assoc _ _ _)

instance : Append MergeHeaderMetaIn :=
  ⟨fun i j => ⟨i.rxEngWinScaleFifo ++ j.rxEngWinScaleFifo, i.rxEngHeaderMetaFifo ++ j.rxEngHeaderMetaFifo⟩⟩

instance : Std.Associative (α := MergeHeaderMetaIn) (· ++ ·) where
  assoc _ _ _ := congrArg₂ MergeHeaderMetaIn.mk (List.append_assoc _ _ _) (List.append_assoc _ _ _)

theorem parseOptionalHeaderFields_waits : Waits parseOptionalHeaderFields [] := by
  intro s i
  obtain ⟨state, dataOffset, fields⟩ := s
  obtain ⟨offsets, registers⟩ := i
  cases state with
  | PARSE => exact .inr fun _ => rfl
  | IDLE =>
    cases offsets with
    | nil => exact .inl rfl
    | cons dataOffset offsets =>
      cases registers with
      | nil => exact .inl rfl
      | cons fields registers => exact .inr fun _ => rfl

theorem mergeHeaderMeta_waits : Waits mergeHeaderMeta [] := by
  intro s i
  obtain ⟨scales, metas⟩ := i
  by_cases hstate : s.state = 0
  · cases metas with
    | nil =>
      apply Or.inl
      simp only [mergeHeaderMeta, if_pos hstate]
    | cons m metas =>
      apply Or.inr
      rintro ⟨scales', metas'⟩
      show mergeHeaderMeta s ⟨scales ++ scales', m :: (metas ++ metas')⟩ = _
      by_cases hscale : m.hasScale = true
      · simp only [mergeHeaderMeta, if_pos hstate, if_pos hscale]
        rfl
      · simp only [mergeHeaderMeta, if_pos hstate, if_neg hscale]
        rfl
  · cases hmeta : s.headerMeta with
    | none =>
      apply Or.inl
      cases scales <;> simp only [mergeHeaderMeta, if_neg hstate, hmeta]
    | some m =>
      cases scales with
      | nil =>
        apply Or.inl
        simp only [mergeHeaderMeta, if_neg hstate]
      | cons winScale scales =>
        apply Or.inr
        rintro ⟨scales', metas'⟩
        show mergeHeaderMeta s ⟨winScale :: (scales ++ scales'), metas ++ metas'⟩ = _
        simp only [mergeHeaderMeta, if_neg hstate, hmeta]
        rfl

/-- The requests of a list, each with the number of words and the register. -/
def requestsIn (rs : List (BitVec 4 × BitVec 320)) : ParseOptionalHeaderFieldsIn :=
  ⟨rs.map Prod.fst, rs.map Prod.snd⟩

theorem parse_request {s : ParseOptionalHeaderFields} (hs : s.state = .IDLE) (r : BitVec 4 × BitVec 320)
    (rs : List (BitVec 4 × BitVec 320)) :
    parseOptionalHeaderFields s (requestsIn (r :: rs)) = (parseAt r.1 r.2 0, requestsIn rs, []) := by
  have hstart : parseAt r.1 r.2 0 = ⟨.PARSE, r.1, r.2⟩ := by
    rw [parseAt, Nat.mul_zero]
    simp
  rw [hstart, parseOptionalHeaderFields, hs]
  rfl

/-- Every request is answered with the scale of its list exactly when every list is read right. -/
theorem requests_answered_iff (rs : List (BitVec 4 × BitVec 320)) {s : ParseOptionalHeaderFields}
    (hs : s.state = .IDLE) :
    (∃ os t, Rests parseOptionalHeaderFields [] s (requestsIn rs) os t {} ∧ t.state = .IDLE ∧
        (os.flatMap id).map BitVec.toNat = rs.map fun r => windowScale (optionArea r.1 r.2)) ↔
      ∀ r ∈ rs, Handled r.1 r.2 0 := by
  induction rs generalizing s with
  | nil =>
    have hrest : parseOptionalHeaderFields s {} = (s, {}, []) := by rw [parseOptionalHeaderFields, hs]
    refine iff_of_true ⟨[], s, ⟨.refl _ _, hrest⟩, hs, rfl⟩ fun r hr => absurd hr List.not_mem_nil
  | cons r rs ih =>
    obtain ⟨v, hfound, hiff⟩ := walk r.1 r.2 0
    have hscale : scaleAt r.1 r.2 0 = windowScale (optionArea r.1 r.2) := rfl
    rw [List.forall_mem_cons, hiff, hscale]
    cases hfound with
    | value winScale hruns =>
      obtain ⟨os, t, hrun, hos, ht⟩ := hruns (requestsIn rs)
      have hone := Runs.call (parse_request hs r rs) hrun
      have hwritten : ([] :: os).flatMap id = [winScale] := by rw [List.flatMap_id]; exact hos
      simp only [Option.some.injEq, exists_eq_left']
      rw [← ih ht]
      constructor
      · rintro ⟨os', t', hrests, ht', hout⟩
        obtain ⟨os'', hrests'', hsplit⟩ := hrests.after (g := id) rfl hone
        rw [hsplit, hwritten, List.map_append, List.map_cons] at hout
        obtain ⟨hv, hrest⟩ := List.cons.inj hout
        exact ⟨hv, os'', t', hrests'', ht', hrest⟩
      · rintro ⟨hv, os'', t', hrests'', ht', hrest⟩
        refine ⟨_, t', hrests''.before hone, ht', ?_⟩
        rw [List.flatMap_append, hwritten, List.map_append, hrest, List.map_cons, List.map_cons, hv]
        rfl
    | stuck hruns =>
      obtain ⟨os, t, hrun, hos, ht, hrest⟩ := hruns (requestsIn rs)
      have hstuck : Rests parseOptionalHeaderFields [] s (requestsIn (r :: rs)) ([] :: os) t (requestsIn rs) :=
        ⟨.call (parse_request hs r rs) hrun, hrest⟩
      constructor
      · rintro ⟨os', t', hrests, ht', -⟩
        obtain ⟨-, rfl, -⟩ := Rests.unique (g := id) rfl hrests hstuck
        rw [ht] at ht'
        cases ht'
      · rintro ⟨⟨v, hv, -⟩, -⟩
        cases hv

/-! ## The scales of the segments -/

/-- What `merge_header_meta` makes of a segment whose options were read as `winScale`. -/
def mergedCalls (x : RxHeaderMetaData × BitVec 4) : List (List RxHeaderMetaData) :=
  if x.1.hasScale then [[], [x.1.setWinScale x.2]] else [[x.1.setWinScale 0]]

def mergeIn (xs : List (RxHeaderMetaData × BitVec 4)) : MergeHeaderMetaIn :=
  ⟨(xs.filter fun x => x.1.hasScale).map Prod.snd, xs.map Prod.fst⟩

theorem merge_one (s : MergeHeaderMeta) (x : RxHeaderMetaData × BitVec 4) (xs : List (RxHeaderMetaData × BitVec 4))
    (hs : s.state = 0) : ∃ t, Runs mergeHeaderMeta s (mergeIn (x :: xs)) (mergedCalls x) t (mergeIn xs) ∧ t.state = 0 := by
  obtain ⟨m, winScale⟩ := x
  by_cases hscale : m.hasScale = true
  · refine ⟨⟨0, some (m.setWinScale winScale)⟩, ?_, rfl⟩
    have hin : mergeIn ((m, winScale) :: xs) = ⟨winScale :: (mergeIn xs).rxEngWinScaleFifo,
        m :: (mergeIn xs).rxEngHeaderMetaFifo⟩ := by
      simp only [mergeIn, List.filter_cons, hscale, if_true, List.map_cons]
    rw [hin, mergedCalls, if_pos hscale]
    refine .call (t := ⟨1, some m⟩) (j := ⟨winScale :: (mergeIn xs).rxEngWinScaleFifo, (mergeIn xs).rxEngHeaderMetaFifo⟩)
      ?_ (.one ?_)
    · simp only [mergeHeaderMeta, if_pos hs, if_pos hscale]
    · simp only [mergeHeaderMeta]
      rfl
  · refine ⟨⟨0, some (m.setWinScale 0)⟩, ?_, rfl⟩
    have hin : mergeIn ((m, winScale) :: xs) = { mergeIn xs with
        rxEngHeaderMetaFifo := m :: (mergeIn xs).rxEngHeaderMetaFifo } := by
      simp only [mergeIn, List.filter_cons, hscale, if_false, List.map_cons, Bool.false_eq_true]
    rw [hin, mergedCalls, if_neg hscale]
    apply Runs.one
    simp only [mergeHeaderMeta, if_pos hs, if_neg hscale]

theorem merge_rests (xs : List (RxHeaderMetaData × BitVec 4)) :
    ∃ t, Rests mergeHeaderMeta [] {} (mergeIn xs) (xs.flatMap mergedCalls) t {} ∧ t.state = 0 := by
  obtain ⟨t, hrun, ht⟩ := runs_each (fun s => s.state = 0) (fun _ => True) mergeIn mergedCalls
    (fun s x xs hs _ => merge_one s x xs hs) xs (s := {}) rfl (fun _ _ => trivial)
  refine ⟨t, ⟨hrun, ?_⟩, ht⟩
  simp only [mergeHeaderMeta, if_pos ht]

abbrev OptionSegment := RxHeaderMetaData × BitVec 320

/-- The options of the segments that have a scale, each with its number of words. -/
def optionRequests (segs : List OptionSegment) : List (BitVec 4 × BitVec 320) :=
  (segs.filter fun seg => seg.1.hasScale).map fun seg => (seg.1.dataOffset - 5, seg.2)

/-- The scale of a segment: the one in its options if it is a SYN with options, and 0 otherwise. -/
def segmentScale (seg : OptionSegment) : Nat :=
  if seg.1.hasScale then windowScale (optionArea (seg.1.dataOffset - 5) seg.2) else 0

/-- However the input comes in, the options of every segment are read to an end with one value each, the scale of that
segment, and each segment's metadata is passed on with the segment's own scale. -/
def PairsScales (segs : List OptionSegment) : Prop :=
  ∃ scales metas,
    Completes parseOptionalHeaderFields [] id (fun t => t.state = .IDLE) {} {} (requestsIn (optionRequests segs)) scales ∧
    scales.map BitVec.toNat = (segs.filter fun seg => seg.1.hasScale).map segmentScale ∧
    Completes mergeHeaderMeta [] id (fun t => t.state = 0) {} {} ⟨scales, segs.map Prod.fst⟩ metas ∧
    metas.map (fun m => (m.setWinScale 0, m.winScale.toNat)) =
      segs.map fun seg => (seg.1.setWinScale 0, segmentScale seg)

theorem segmentScales_eq (segs : List OptionSegment) :
    (segs.filter fun seg => seg.1.hasScale).map segmentScale =
      (optionRequests segs).map fun r => windowScale (optionArea r.1 r.2) := by
  rw [optionRequests, List.map_map]
  apply List.map_congr_left
  intro seg hseg
  rw [segmentScale, if_pos (List.mem_filter.mp hseg).2]
  rfl

/-- The segments are paired with their scales exactly when every list of options is read right. -/
theorem pairs_scales_iff (segs : List OptionSegment) :
    PairsScales segs ↔ ∀ seg ∈ segs, seg.1.hasScale = true → Handled (seg.1.dataOffset - 5) seg.2 0 := by
  have hhandled : (∀ seg ∈ segs, seg.1.hasScale = true → Handled (seg.1.dataOffset - 5) seg.2 0) ↔
      ∀ r ∈ optionRequests segs, Handled r.1 r.2 0 := by
    simp only [optionRequests, List.forall_mem_map, List.mem_filter, and_imp]
  rw [hhandled, ← requests_answered_iff (s := {}) (optionRequests segs) rfl]
  constructor
  · rintro ⟨scales, metas, hparse, hscales, -, -⟩
    obtain ⟨os, t, hrests, hidle, hout⟩ := hparse.rests
    refine ⟨os, t, hrests, hidle, ?_⟩
    rw [hout, hscales, segmentScales_eq]
  · rintro ⟨os, t, hrests, hidle, hout⟩
    rw [← segmentScales_eq] at hout
    have hlt : ∀ seg ∈ segs, segmentScale seg < 16 := by
      intro seg hseg
      by_cases hscale : seg.1.hasScale = true
      · have hmem : segmentScale seg ∈ (os.flatMap id).map BitVec.toNat := by
          rw [hout]
          exact List.mem_map_of_mem (List.mem_filter.mpr ⟨hseg, hscale⟩)
        obtain ⟨v, -, hv⟩ := List.mem_map.mp hmem
        rw [← hv]
        exact v.isLt
      · rw [segmentScale, if_neg hscale]
        decide
    obtain ⟨t', hmerge, ht'⟩ := merge_rests (segs.map fun seg => (seg.1, BitVec.ofNat 4 (segmentScale seg)))
    have hin : mergeIn (segs.map fun seg => (seg.1, BitVec.ofNat 4 (segmentScale seg))) =
        ⟨os.flatMap id, segs.map Prod.fst⟩ := by
      have hscales : os.flatMap id = (segs.filter fun seg => seg.1.hasScale).map fun seg =>
          BitVec.ofNat 4 (segmentScale seg) := by
        have hnat := congrArg (List.map (BitVec.ofNat 4)) hout
        rw [List.map_map, List.map_map] at hnat
        have hid : BitVec.ofNat 4 ∘ BitVec.toNat = id := by
          funext v
          show BitVec.ofNat 4 v.toNat = v
          rw [BitVec.ofNat_toNat, BitVec.setWidth_eq]
        rw [hid, List.map_id] at hnat
        exact hnat
      rw [hscales, mergeIn, List.filter_map, List.map_map, List.map_map]
      rfl
    rw [hin] at hmerge
    refine ⟨os.flatMap id, _, .of_rests parseOptionalHeaderFields_waits rfl hrests hidle rfl, hout,
      .of_rests mergeHeaderMeta_waits rfl hmerge ht' rfl, ?_⟩
    have hone : ∀ x, (mergedCalls x).flatMap id = [if x.1.hasScale then x.1.setWinScale x.2 else x.1.setWinScale 0] := by
      intro x
      rw [mergedCalls]
      split <;> rfl
    rw [flatMap_each hone, ← List.map_eq_flatMap, List.map_map, List.map_map]
    apply List.map_congr_left
    intro seg hseg
    have hscale : (BitVec.ofNat 4 (segmentScale seg)).toNat = segmentScale seg := by
      rw [BitVec.toNat_ofNat]
      exact Nat.mod_eq_of_lt (hlt seg hseg)
    show (RxHeaderMetaData.setWinScale (if seg.1.hasScale then _ else _) 0, BitVec.toNat _) = _
    by_cases h : seg.1.hasScale = true
    · simp only [h, if_true]
      exact congrArg _ hscale
    · have hzero : segmentScale seg = 0 := by rw [segmentScale, if_neg h]
      simp only [h, if_false, hzero, Bool.false_eq_true]
      rfl

/-- A SYN with four words of options: the segment size, a window scale of 7, and permission for selective
acknowledgements. -/
def fourWordSyn : OptionSegment :=
  (⟨⟨0, 0, 0, 0, 0, false, false, true, false⟩, 9⟩, 0x204010107030301b4050402#320)

theorem fourWordSyn_area : optionArea 4 fourWordSyn.2 = [2, 4, 5, 180, 1, 3, 3, 7, 1, 1, 4, 2, 0, 0, 0, 0] := by
  decide +kernel

/-- The length of the first option is the number of words, and the scale that follows is not read. -/
theorem scale_missed : ¬ ∀ segs, PairsScales segs := by
  intro hall
  obtain ⟨scales, -, hparse, hscales, -⟩ := hall [fourWordSyn]
  have hrests : Rests parseOptionalHeaderFields [] {} (requestsIn (optionRequests [fourWordSyn])) [[], [0]]
      ⟨.IDLE, 0, fourWordSyn.2 >>> 32⟩ {} := ⟨.call rfl (.one rfl), rfl⟩
  obtain ⟨-, -, hout⟩ := hparse.of_run rfl hrests
  have hscale : segmentScale fourWordSyn = 7 := by
    have hdef : segmentScale fourWordSyn = windowScale (optionArea 4 fourWordSyn.2) := rfl
    rw [hdef, fourWordSyn_area]
    simp [windowScale]
  rw [← hout] at hscales
  have hzero : [0] = [segmentScale fourWordSyn] := hscales
  rw [hscale] at hzero
  cases hzero

end FpgaNetworkStack.Toe
