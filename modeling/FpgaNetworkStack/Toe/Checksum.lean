import FpgaNetworkStack.IpHandler.Checksum

/-!
# The checksum of a segment (`two_complement_subchecksums.hpp`, `ipv4.hpp`, `tx_engine.cpp`)

Every pair of lanes adds its halfword to a sum of its own.  Behind the last word the sums are added in pairs until one
is left, and this one is complemented: it is sent with the segment, or compared with zero.
-/

namespace FpgaNetworkStack.Toe

open Lib
open Axi (Lane Word Packet Packets)
open IpHandler (SubSums foldAdd addHalves foldAdd_toNat StandsFor Total)

variable {N : Nat}

/-! ## The processes -/

/-- One lane of sums: a whole halfword, or one that is filled up with zeros. -/
def addLanes (sum : BitVec 17) (low high : Lane) : BitVec 17 :=
  if low.keep && high.keep then foldAdd sum ((low.data ++ high.data).setWidth 17)
  else if low.keep then foldAdd sum ((low.data ++ (0 : BitVec 8)).setWidth 17)
  else sum

def addWord : SubSums → List Lane → SubSums
  | sum :: sums, low :: high :: lanes => addLanes sum low high :: addWord sums lanes
  | sums, _ => sums

@[ext]
structure SubchecksumsOut (N : Nat) where
  dataOut : List (Word (2 * N)) := []
  subChecksumsFifoOut : List SubSums := []

/-- One call of `two_complement_subchecksums` with `N` lanes; `s` is `tcts_tcp_sums`. -/
def twoComplementSubchecksums (s : SubSums) (dataIn : List (Word (2 * N))) :
    SubSums × List (Word (2 * N)) × SubchecksumsOut N :=
  match dataIn with
  | [] => (s, [], {})
  | currWord :: rest =>
    let sums := addWord s currWord.lanes
    if currWord.last then (List.replicate N 0, rest, { dataOut := [currWord], subChecksumsFifoOut := [sums] })
    else (sums, rest, { dataOut := [currWord] })

/-- The sum of all lanes and its complement, as `toe_check_ipv4_checksum` and `finalize_ipv4_checksum` compute it. -/
def addSubSums (N : Nat) (sums : SubSums) : BitVec 17 :=
  let sums := if N ≥ 32 then addHalves 16 sums else sums
  let sums := if N ≥ 16 then addHalves 8 sums else sums
  let sums := if N ≥ 8 then addHalves 4 sums else sums
  ~~~(addHalves 1 (addHalves 2 sums)).headD 0

def finalizeIpv4Checksum (N : Nat) (s : Unit) (subSumFifoIn : List SubSums) :
    Unit × List SubSums × List (BitVec 16) :=
  match subSumFifoIn with
  | [] => (s, [], [])
  | sums :: rest => (s, rest, [(addSubSums N sums).extractLsb' 0 16])

def toeCheckIpv4Checksum (N : Nat) (s : Unit) (subSumFifoIn : List SubSums) : Unit × List SubSums × List Bool :=
  match subSumFifoIn with
  | [] => (s, [], [])
  | sums :: rest => (s, rest, [(addSubSums N sums).extractLsb' 0 16 == 0])

/-! ### `insert_checksum` -/

def setByte (k : Nat) (b : BitVec 8) (lanes : List Lane) : List Lane := lanes.modify k fun l => { l with data := b }

def setHalfword (k : Nat) (x : BitVec 16) (word : Word N) : Word N where
  lanes := setByte (k + 1) (x.extractLsb' 8 8) (setByte k (x.extractLsb' 0 8) word.lanes)
  last := word.last
  length_eq := by
    rw [setByte, setByte, List.length_modify, List.length_modify]
    exact word.length_eq

structure InsertChecksum where
  state : BitVec 2
  wordCount : BitVec 3 := 0
  deriving DecidableEq

/-- The static initialisation: with more than 128 bits the checksum is in the first word. -/
def InsertChecksum.init (N : Nat) : InsertChecksum := { state := if N > 16 then 1 else 0 }

structure InsertIn (N : Nat) where
  checksumIn : List (BitVec 16) := []
  dataIn : List (Word N) := []

/-- One call of `insert_checksum` with words of `N` bytes. -/
def insertChecksum (s : InsertChecksum) (i : InsertIn N) : InsertChecksum × InsertIn N × List (Word N) :=
  let start : BitVec 2 := if N > 16 then 1 else 0
  if s.state = 0 then
    match i.dataIn with
    | [] => (s, i, [])
    | word :: rest =>
      let wordCount := s.wordCount + 1
      (if wordCount.toNat = 16 / N then { state := 1, wordCount := 0 } else { s with wordCount },
        { i with dataIn := rest }, [word])
  else if s.state = 1 then
    match i.checksumIn, i.dataIn with
    | checksum :: checksums, word :: rest =>
      ({ s with state := if word.last then start else 2 }, { checksumIn := checksums, dataIn := rest },
        [setHalfword (if N > 16 then 16 else 0) (reverse16 checksum) word])
    | _, _ => (s, i, [])
  else if s.state = 2 then
    match i.dataIn with
    | [] => (s, i, [])
    | word :: rest => ({ s with state := if word.last then start else 2 }, { i with dataIn := rest }, [word])
  else (s, i, [])

/-! ## The sum of RFC 1071 -/

/-- The halfwords of the bytes, the last one filled up with zeros. -/
def halfwords : List (BitVec 8) → List Nat
  | [] => []
  | [b] => [(b ++ (0 : BitVec 8)).toNat]
  | b :: b' :: bs => (b ++ b').toNat :: halfwords bs

/-- The sum of the bytes in ones' complement. -/
def internetSum (bs : List (BitVec 8)) : Nat := onesSum 65536 (halfwords bs)

def internetChecksum (bs : List (BitVec 8)) : BitVec 16 := ~~~BitVec.ofNat 16 (internetSum bs)

theorem halfwords_lt (bs : List (BitVec 8)) : ∀ x ∈ halfwords bs, x < 65536 := by
  induction bs using halfwords.induct with
  | case1 => exact fun x hx => (List.not_mem_nil hx).elim
  | case2 b => exact List.forall_mem_singleton.mpr (BitVec.isLt _)
  | case3 b b' bs ih => exact List.forall_mem_cons.mpr ⟨BitVec.isLt _, ih⟩

theorem halfwords_append {bs : List (BitVec 8)} (bs' : List (BitVec 8)) (h : bs.length % 2 = 0) :
    halfwords (bs ++ bs') = halfwords bs ++ halfwords bs' := by
  induction bs using halfwords.induct with
  | case1 => rfl
  | case2 b =>
    rw [List.length_singleton] at h
    omega
  | case3 b b' bs ih =>
    rw [List.length_cons, List.length_cons] at h
    show _ :: halfwords (bs ++ bs') = _
    rw [ih (by omega)]
    rfl

theorem folds_internetSum (bs : List (BitVec 8)) : Folds 65536 (internetSum bs) (halfwords bs).sum :=
  folds_onesSum (by decide) (halfwords_lt bs)

theorem internetSum_lt (bs : List (BitVec 8)) : internetSum bs < 65536 := (folds_internetSum bs).lt

/-! ## The sums of a packet -/

variable {sums : SubSums} {xs : List Nat} {bs : List (BitVec 8)} {ws : List (Word (2 * N))} {total : Nat}

theorem addLanes_folds {e : BitVec 17} {n : Nat} (he : Folds 65536 e.toNat n) (b b' : BitVec 8) :
    Folds 65536 (foldAdd e ((b ++ b').setWidth 17)).toNat (n + (b ++ b').toNat) := by
  have hlt := (b ++ b').isLt
  have hwidth : ((b ++ b').setWidth 17).toNat = (b ++ b').toNat := by
    rw [BitVec.toNat_setWidth, Nat.mod_eq_of_lt (by omega)]
  rw [foldAdd_toNat he.lt (by rw [hwidth]; exact hlt), hwidth]
  exact he.add (folds_self hlt)

theorem addLanes_unkept {low high : Lane} (h : low.keep = false) (e : BitVec 17) : addLanes e low high = e := by
  simp [addLanes, h]

theorem addWord_unkept {lanes : List Lane} (h : Axi.Unkept lanes) (sums : SubSums) : addWord sums lanes = sums := by
  induction sums, lanes using addWord.induct with
  | case1 sum sums low high lanes ih =>
    rw [addWord, addLanes_unkept (h low List.mem_cons_self), ih]
    exact fun l hl => h l (List.mem_cons_of_mem _ (List.mem_cons_of_mem _ hl))
  | case2 sums lanes hne => rw [addWord]; exact hne

/-- What the kept bytes of a word add to the sums; behind them nothing is added. -/
theorem addWord_standsFor (hxs : StandsFor sums xs) {rest : List Lane} (hrest : Axi.Unkept rest)
    (hlen : bs.length + rest.length = 2 * sums.length) :
    ∃ ys, StandsFor (addWord sums (bs.map Lane.kept ++ rest)) ys ∧ ys.length = xs.length ∧
      ys.sum = xs.sum + (halfwords bs).sum := by
  induction hxs generalizing bs with
  | nil =>
    have hbs : bs = [] := List.length_eq_zero_iff.mp (by rw [List.length_nil] at hlen; omega)
    rw [hbs]
    exact ⟨[], .nil, rfl, rfl⟩
  | @cons e x sums xs he hxs ih =>
    rw [List.length_cons] at hlen
    match bs with
    | [] =>
      rw [List.map_nil, List.nil_append, addWord_unkept hrest]
      exact ⟨x :: xs, .cons he hxs, rfl, rfl⟩
    | [b] =>
      -- the second lane of the halfword is not kept
      match rest with
      | [] => simp at hlen; omega
      | high :: rest =>
        have hhigh := hrest high List.mem_cons_self
        have hlane : addLanes e (Lane.kept b) high = foldAdd e ((b ++ (0 : BitVec 8)).setWidth 17) := by
          simp [addLanes, Lane.kept, hhigh]
        show ∃ ys, StandsFor (addLanes e (Lane.kept b) high :: addWord sums rest) ys ∧ _
        rw [hlane, addWord_unkept fun l hl => hrest l (List.mem_cons_of_mem _ hl)]
        refine ⟨_ :: xs, .cons (addLanes_folds he b 0) hxs, rfl, ?_⟩
        simp only [halfwords, List.sum_cons, List.sum_nil]
        omega
    | b :: b' :: bs =>
      rw [List.length_cons, List.length_cons] at hlen
      have hmore : bs.length + rest.length = 2 * sums.length := by omega
      obtain ⟨ys, hys, hyslen, hyssum⟩ := ih hmore
      have hlane : addLanes e (Lane.kept b) (Lane.kept b') = foldAdd e ((b ++ b').setWidth 17) := rfl
      show ∃ ys, StandsFor (addLanes e (Lane.kept b) (Lane.kept b') ::
        addWord sums (bs.map Lane.kept ++ rest)) ys ∧ _
      rw [hlane]
      refine ⟨_ :: ys, .cons (addLanes_folds he b b') hys, by rw [List.length_cons, hyslen]; rfl, ?_⟩
      simp only [halfwords, List.sum_cons, hyssum]
      omega

theorem total_addWord (h : Total sums N total) {rest : List Lane} (hrest : Axi.Unkept rest)
    (hlen : bs.length + rest.length = 2 * N) :
    Total (addWord sums (bs.map Lane.kept ++ rest)) N (total + (halfwords bs).sum) := by
  obtain ⟨xs, hxs, hxslen, hsum⟩ := h
  have hsums : sums.length = N := by rw [hxs.length_eq, hxslen]
  rw [← hsums] at hlen
  obtain ⟨ys, hys, hyslen, hyssum⟩ := addWord_standsFor hxs hrest hlen
  exact ⟨ys, hys, hyslen.trans hxslen, by rw [hyssum, hsum]⟩

theorem total_zero (N : Nat) : Total (List.replicate N 0) N 0 := by
  refine ⟨List.replicate N 0, ?_, List.length_replicate, by simp⟩
  induction N with
  | zero => exact .nil
  | succ N ih => exact .cons (folds_zero (by decide)) ih

/-- Induction on the packet: the sums stand for the bytes read so far, and the last word hands them on. -/
theorem subchecksums_packet (h : Packet ws bs) (rest : List (Word (2 * N))) :
    ∀ {sums : SubSums} {total : Nat}, Total sums N total → ∃ os out,
      Runs twoComplementSubchecksums sums (ws ++ rest) os (List.replicate N 0) rest ∧
        os.flatMap (·.dataOut) = ws ∧ os.flatMap (·.subChecksumsFifoOut) = [out] ∧
        Total out N (total + (halfwords bs).sum) := by
  induction h with
  | @last w bs hlast hw =>
    intro sums total hsums
    obtain ⟨unkept, hlanes, hunkept⟩ := hw
    have hlen : bs.length + unkept.length = 2 * N := by
      rw [← w.length_eq, hlanes, List.length_append, List.length_map]
    have hcall : twoComplementSubchecksums sums (w :: rest) =
        (List.replicate N 0, rest, { dataOut := [w], subChecksumsFifoOut := [addWord sums w.lanes] }) := by
      simp [twoComplementSubchecksums, hlast]
    refine ⟨_, addWord sums w.lanes, .one hcall, rfl, rfl, ?_⟩
    rw [hlanes]
    exact total_addWord hsums hunkept hlen
  | @cons w ws bs bs' hlast hw _ ih =>
    intro sums total hsums
    have hlen : bs.length = 2 * N := Axi.Word.length_full hw
    have hcall : twoComplementSubchecksums sums (w :: (ws ++ rest)) =
        (addWord sums w.lanes, ws ++ rest, { dataOut := [w] }) := by
      simp [twoComplementSubchecksums, hlast]
    have hword : Total (addWord sums w.lanes) N (total + (halfwords bs).sum) := by
      have hnil : Axi.Unkept [] := fun _ hl => (List.not_mem_nil hl).elim
      have hfull : bs.length + ([] : List Lane).length = 2 * N := hlen
      have hall := total_addWord hsums hnil hfull
      rw [List.append_nil, ← hw] at hall
      exact hall
    obtain ⟨os, out, hrun, hdata, hout, htotal⟩ := ih hword
    refine ⟨_, out, .call hcall hrun, ?_, ?_, ?_⟩
    · rw [List.flatMap_cons, hdata]
      rfl
    · rw [List.flatMap_cons, hout]
      rfl
    · rw [halfwords_append bs' (by omega), List.sum_append, ← Nat.add_assoc]
      exact htotal

variable {bss : List (List (BitVec 8))}

/-- The sums of packet after packet: what a packet leaves behind does not reach the next one. -/
theorem subchecksums_packets (h : Packets ws bss) :
    ∃ os, Runs twoComplementSubchecksums (List.replicate N 0) ws os (List.replicate N 0) [] ∧
      os.flatMap (·.dataOut) = ws ∧
      List.Forall₂ (fun sums bs => Total sums N (halfwords bs).sum) (os.flatMap (·.subChecksumsFifoOut)) bss := by
  induction h with
  | nil => exact ⟨[], .refl _ _, rfl, .nil⟩
  | @cons ws ws' bs bss h _ ih =>
    obtain ⟨os, out, hrun, hdata, hout, htotal⟩ := subchecksums_packet h ws' (total_zero N)
    obtain ⟨os', hrun', hdata', hout'⟩ := ih
    rw [Nat.zero_add] at htotal
    refine ⟨os ++ os', hrun.trans hrun', ?_, ?_⟩
    · rw [List.flatMap_append, hdata, hdata']
    · rw [List.flatMap_append, hout]
      exact .cons htotal hout'

/-! ## The sum of the sums -/

theorem addSubSums_eq (hN : N = 4 ∨ N = 8 ∨ N = 16 ∨ N = 32) (h : Total sums N total) :
    ∃ e, addSubSums N sums = ~~~e ∧ Folds 65536 e.toNat total := by
  rcases hN with rfl | rfl | rfl | rfl
  · exact ⟨_, rfl, (h.addHalves (n := 2)).addHalves (n := 1) |>.one⟩
  · exact ⟨_, rfl, (h.addHalves (n := 4)).addHalves (n := 2) |>.addHalves (n := 1) |>.one⟩
  · exact ⟨_, rfl, (h.addHalves (n := 8)).addHalves (n := 4) |>.addHalves (n := 2) |>.addHalves (n := 1) |>.one⟩
  · exact ⟨_, rfl, (h.addHalves (n := 16)).addHalves (n := 8) |>.addHalves (n := 4) |>.addHalves (n := 2)
      |>.addHalves (n := 1) |>.one⟩

theorem addSubSums_checksum (hN : N = 4 ∨ N = 8 ∨ N = 16 ∨ N = 32) (h : Total sums N (halfwords bs).sum) :
    (addSubSums N sums).extractLsb' 0 16 = internetChecksum bs := by
  obtain ⟨e, he, hfolds⟩ := addSubSums_eq hN h
  have hsum : e.toNat = internetSum bs := hfolds.unique (folds_internetSum bs)
  have hlt := internetSum_lt bs
  apply BitVec.eq_of_toNat_eq
  rw [he, BitVec.extractLsb'_toNat, BitVec.toNat_not, Nat.shiftRight_zero, internetChecksum, BitVec.toNat_not,
    BitVec.toNat_ofNat, hsum]
  omega

theorem internetChecksum_eq_zero (bs : List (BitVec 8)) :
    (internetChecksum bs == 0) = decide (internetSum bs = 0xFFFF) := by
  have hlt := internetSum_lt bs
  have hnat : (internetChecksum bs).toNat = 65535 - internetSum bs := by
    rw [internetChecksum, BitVec.toNat_not, BitVec.toNat_ofNat, Nat.mod_eq_of_lt hlt]
  rw [Bool.eq_iff_iff, beq_iff_eq, decide_eq_true_iff, ← BitVec.toNat_inj, hnat]
  show 65535 - internetSum bs = 0 ↔ internetSum bs = 65535
  omega

theorem finalize_packets (hN : N = 4 ∨ N = 8 ∨ N = 16 ∨ N = 32) {outs : List SubSums}
    (h : List.Forall₂ (fun sums bs => Total sums N (halfwords bs).sum) outs bss) :
    ∃ cs, Runs (finalizeIpv4Checksum N) () outs cs () [] ∧ cs.flatten = bss.map internetChecksum := by
  induction h with
  | nil => exact ⟨[], .refl _ _, rfl⟩
  | cons hone _ ih =>
    obtain ⟨cs, hrun, hcs⟩ := ih
    refine ⟨_, .call rfl hrun, ?_⟩
    rw [List.flatten_cons, hcs, addSubSums_checksum hN hone]
    rfl

theorem check_packets (hN : N = 4 ∨ N = 8 ∨ N = 16 ∨ N = 32) {outs : List SubSums}
    (h : List.Forall₂ (fun sums bs => Total sums N (halfwords bs).sum) outs bss) :
    ∃ vs, Runs (toeCheckIpv4Checksum N) () outs vs () [] ∧
      vs.flatten = bss.map fun bs => decide (internetSum bs = 0xFFFF) := by
  induction h with
  | nil => exact ⟨[], .refl _ _, rfl⟩
  | cons hone _ ih =>
    obtain ⟨vs, hrun, hvs⟩ := ih
    refine ⟨_, .call rfl hrun, ?_⟩
    rw [List.flatten_cons, hvs, addSubSums_checksum hN hone, internetChecksum_eq_zero]
    rfl

/-! ## The checksum in the packet -/

/-- The checksum replaces two bytes of a packet. -/
def withChecksum (k : Nat) (checksum : BitVec 16) (bs : List (BitVec 8)) : List (BitVec 8) :=
  (bs.set k (checksum.extractLsb' 8 8)).set (k + 1) (checksum.extractLsb' 0 8)

theorem withChecksum_append (q : List (BitVec 8)) (checksum : BitVec 16) (b b' : BitVec 8) (bs : List (BitVec 8)) :
    withChecksum q.length checksum (q ++ b :: b' :: bs) =
      q ++ checksum.extractLsb' 8 8 :: checksum.extractLsb' 0 8 :: bs := by
  rw [withChecksum, List.set_append_right _ _ (Nat.le_refl _), Nat.sub_self, List.set_cons_zero,
    List.set_append_right _ _ (Nat.le_add_right _ 1), Nat.add_sub_cancel_left, List.set_cons_succ, List.set_cons_zero]

variable {k : Nat}

-- where the checksum goes
theorem exists_append (hk : k + 1 < bs.length) :
    ∃ q b b' tail, bs = q ++ b :: b' :: tail ∧ q.length = k := by
  refine ⟨bs.take k, bs[k], bs[k + 1], bs.drop (k + 2), ?_, by rw [List.length_take]; omega⟩
  rw [List.getElem_cons_drop, List.getElem_cons_drop, List.take_append_drop]

variable {q : List (BitVec 8)}

theorem halfwords_append_cons (h : q.length % 2 = 0) (b b' : BitVec 8) (bs : List (BitVec 8)) :
    (halfwords (q ++ b :: b' :: bs)).sum = (halfwords q).sum + ((b ++ b').toNat + (halfwords bs).sum) := by
  rw [halfwords_append _ h, List.sum_append, halfwords, List.sum_cons]

/-- With its checksum in the place of a zero a packet adds up to all ones. -/
theorem internetSum_withChecksum (heven : k % 2 = 0) (hk : k + 1 < bs.length) (hzero : bs.getD k 0 = 0)
    (hzero' : bs.getD (k + 1) 0 = 0) : internetSum (withChecksum k (internetChecksum bs) bs) = 0xFFFF := by
  have hlt := internetSum_lt bs
  have hchecksum : (internetChecksum bs).toNat = 65535 - internetSum bs := by
    rw [internetChecksum, BitVec.toNat_not, BitVec.toNat_ofNat, Nat.mod_eq_of_lt hlt]
  have hbytes : (internetChecksum bs).extractLsb' 8 8 ++ (internetChecksum bs).extractLsb' 0 8 =
      internetChecksum bs := by
    exact BitVec.extractLsb'_append_extractLsb'
  obtain ⟨q, b, b', tail, rfl, rfl⟩ := exists_append hk
  rw [List.getD_append_right _ _ _ _ (Nat.le_refl _), Nat.sub_self, List.getD_cons_zero] at hzero
  rw [List.getD_append_right _ _ _ _ (Nat.le_add_right _ 1), Nat.add_sub_cancel_left, List.getD_cons_succ,
    List.getD_cons_zero] at hzero'
  generalize hc : internetChecksum (q ++ b :: b' :: tail) = checksum at *
  generalize hs : internetSum (q ++ b :: b' :: tail) = s at *
  have hfolds := folds_internetSum (q ++ b :: b' :: tail)
  -- the zero did not count
  rw [hs, halfwords_append_cons heven, hzero, hzero', show ((0 : BitVec 8) ++ (0 : BitVec 8)).toNat = 0 from rfl,
    Nat.zero_add] at hfolds
  have hsum : (halfwords (withChecksum q.length checksum (q ++ b :: b' :: tail))).sum =
      (halfwords q).sum + (halfwords tail).sum + checksum.toNat := by
    rw [withChecksum_append, halfwords_append_cons heven, hbytes]
    omega
  have hall := hfolds.add (folds_self (B := 65536) checksum.isLt)
  rw [← hsum] at hall
  rw [(folds_internetSum _).unique hall, onesAdd, hchecksum]
  omega

theorem withChecksum_append_left (q : List (BitVec 8)) (hk : k + 1 < bs.length) (checksum : BitVec 16) :
    withChecksum (q.length + k) checksum (q ++ bs) = q ++ withChecksum k checksum bs := by
  obtain ⟨q', b, b', tail, rfl, rfl⟩ := exists_append hk
  rw [← List.length_append, ← List.append_assoc, withChecksum_append, withChecksum_append, List.append_assoc]

/-! ### `insert_checksum` -/

section

variable {w : Word N} {ws : List (Word N)} (checksum : BitVec 16)

theorem setByte_append (q : List (BitVec 8)) (c b : BitVec 8) (bs : List (BitVec 8)) (ls : List Lane) :
    setByte q.length c ((q ++ b :: bs).map Lane.kept ++ ls) = (q ++ c :: bs).map Lane.kept ++ ls := by
  induction q with
  | nil => rfl
  | cons a q ih =>
    show Lane.kept a :: setByte q.length c ((q ++ b :: bs).map Lane.kept ++ ls) = _
    rw [ih]
    rfl

theorem setHalfword_lanes {b b' : BitVec 8} {tail : List (BitVec 8)} {ls : List Lane}
    (hw : w.lanes = (q ++ b :: b' :: tail).map Lane.kept ++ ls) :
    (setHalfword q.length (reverse16 checksum) w).lanes =
      (q ++ checksum.extractLsb' 8 8 :: checksum.extractLsb' 0 8 :: tail).map Lane.kept ++ ls := by
  have hlow : (reverse16 checksum).extractLsb' 0 8 = checksum.extractLsb' 8 8 := BitVec.extractLsb'_append_eq_right
  have hhigh : (reverse16 checksum).extractLsb' 8 8 = checksum.extractLsb' 0 8 := BitVec.extractLsb'_append_eq_left
  show setByte (q.length + 1) _ (setByte q.length _ w.lanes) = _
  have hsecond := setByte_append (q ++ [checksum.extractLsb' 8 8]) (checksum.extractLsb' 0 8) b' tail ls
  rw [List.length_append, List.length_singleton, List.append_assoc, List.append_assoc] at hsecond
  rw [hlow, hhigh, hw, setByte_append]
  exact hsecond

theorem setHalfword_packet (hk : k + 1 < bs.length) (hN : k + 2 ≤ N) (h : Packet (w :: ws) bs) :
    Packet (setHalfword k (reverse16 checksum) w :: ws) (withChecksum k checksum bs) := by
  obtain ⟨q, b, b', tail, rfl, rfl⟩ := exists_append hk
  have hsplit : q ++ b :: b' :: tail = (q ++ [b, b']) ++ tail := by rw [List.append_assoc]; rfl
  rw [hsplit] at h
  rw [withChecksum_append]
  have hnew : Packet (setHalfword q.length (reverse16 checksum) w :: ws)
      ((q ++ [checksum.extractLsb' 8 8, checksum.extractLsb' 0 8]) ++ tail) :=
    h.replace (by simp; omega) rfl fun ls hls => setHalfword_lanes checksum hls
  rw [List.append_assoc] at hnew
  exact hnew

theorem insert_first (hk : k = if N > 16 then 16 else 0) (hN : k + 2 ≤ N) {s : InsertChecksum}
    (hs : s.state = 1) (hcount : s.wordCount = 0) (h : Packet ws bs) (hlen : k + 1 < bs.length)
    (checksums : List (BitVec 16)) (rest : List (Word N)) :
    ∃ os, Runs insertChecksum s ⟨checksum :: checksums, ws ++ rest⟩ os (.init N) ⟨checksums, rest⟩ ∧
      Packet os.flatten (withChecksum k checksum bs) := by
  obtain ⟨w, ws, rfl⟩ := List.exists_cons_of_ne_nil h.ne_nil
  have hfirst : insertChecksum s ⟨checksum :: checksums, w :: (ws ++ rest)⟩ =
      ({ s with state := if w.last then if N > 16 then 1 else 0 else 2 }, ⟨checksums, ws ++ rest⟩,
        [setHalfword k (reverse16 checksum) w]) := by
    simp [insertChecksum, hs, hk]
  have hbody : ∀ (u : InsertChecksum) (w : Word N) (rest : List (Word N)), u.state = 2 ∧ u.wordCount = 0 →
      ∃ t, insertChecksum u ⟨checksums, w :: rest⟩ = (t, ⟨checksums, rest⟩, [w]) ∧
        (w.last = false → t.state = 2 ∧ t.wordCount = 0) ∧ (w.last = true → t = .init N) := by
    intro u w rest hu
    refine ⟨{ u with state := if w.last then if N > 16 then 1 else 0 else 2 }, ?_, ?_, ?_⟩
    · simp [insertChecksum, hu.1]
    · intro hlast
      exact ⟨by simp [hlast], hu.2⟩
    · intro hlast
      simp [hlast, InsertChecksum.init, hu.2]
  obtain ⟨t, hrun, rfl⟩ := h.ends.runs_first (fun ws => (⟨checksums, ws⟩ : InsertIn N))
    (fun u => u.state = 2 ∧ u.wordCount = 0) (fun t => t = .init N) (fun w => [w]) hbody rest hfirst
    (fun hlast => ⟨by simp [hlast], hcount⟩) (fun hlast => by simp [hlast, InsertChecksum.init, hcount])
  refine ⟨_, hrun, ?_⟩
  rw [List.flatten_cons, Axi.flatten_singletons]
  exact setHalfword_packet checksum hlen hN h

theorem insert_word {s : InsertChecksum} (hs : s.state = 0) (checksums : List (BitVec 16)) (rest : List (Word N)) :
    insertChecksum s ⟨checksums, w :: rest⟩ =
      (if (s.wordCount + 1).toNat = 16 / N then { state := 1, wordCount := 0 }
        else { s with wordCount := s.wordCount + 1 }, ⟨checksums, rest⟩, [w]) := by
  unfold insertChecksum
  rw [if_pos hs]

/-- Induction on the words in front of the checksum. -/
theorem insert_skip (hN : 8 ≤ N) (hsmall : ¬N > 16) (j : Nat) (checksums : List (BitVec 16)) (rest : List (Word N)) :
    ∀ {s : InsertChecksum} {ws : List (Word N)} {bs : List (BitVec 8)}, s.state = 0 →
      s.wordCount.toNat + (j + 1) = 16 / N → Packet ws bs → N * (j + 1) + 1 < bs.length →
      ∃ os, Runs insertChecksum s ⟨checksum :: checksums, ws ++ rest⟩ os (.init N) ⟨checksums, rest⟩ ∧
        Packet os.flatten (withChecksum (N * (j + 1)) checksum bs) := by
  have hquot : 16 / N ≤ 2 := Nat.div_le_of_le_mul (by omega)
  induction j with
  | zero =>
    intro s ws bs hs hcount h hlen
    cases h with
    | last _ hw =>
      have hle := hw.length_le
      omega
    | @cons w ws b bs hlast hw h =>
      have hb : b.length = N := Axi.Word.length_full hw
      have hnext : (s.wordCount + 1).toNat = 16 / N := by
        rw [BitVec.toNat_add, Nat.mod_eq_of_lt (by show s.wordCount.toNat + 1 < 8; omega)]
        exact hcount
      have hcall := insert_word (w := w) hs (checksum :: checksums) (ws ++ rest)
      rw [if_pos hnext] at hcall
      rw [List.length_append, hb, Nat.mul_one] at hlen
      obtain ⟨os, hrun, hpacket⟩ := insert_first checksum (k := 0) (s := { state := 1, wordCount := 0 })
        (by rw [if_neg hsmall]) (by omega) rfl rfl h (by omega) checksums rest
      have hroom : 0 + 1 < bs.length := by omega
      have hall := withChecksum_append_left b hroom checksum
      rw [hb, Nat.add_zero] at hall
      refine ⟨_, .call hcall hrun, ?_⟩
      rw [Nat.mul_one, hall]
      exact .cons hlast hw hpacket
  | succ j ih =>
    intro s ws bs hs hcount h hlen
    cases h with
    | last _ hw =>
      have hle := hw.length_le
      rw [Nat.mul_succ] at hlen
      omega
    | @cons w ws b bs hlast hw h =>
      have hb : b.length = N := Axi.Word.length_full hw
      have hnext : (s.wordCount + 1).toNat = s.wordCount.toNat + 1 := by
        rw [BitVec.toNat_add, Nat.mod_eq_of_lt (by show s.wordCount.toNat + 1 < 8; omega)]
        rfl
      have hcall := insert_word (w := w) hs (checksum :: checksums) (ws ++ rest)
      rw [if_neg (by omega)] at hcall
      rw [List.length_append, hb, Nat.mul_succ] at hlen
      obtain ⟨os, hrun, hpacket⟩ := ih (s := { s with wordCount := s.wordCount + 1 }) hs
        (by show (s.wordCount + 1).toNat + _ = _; omega) h (by omega)
      have hroom : N * (j + 1) + 1 < bs.length := by omega
      have hall := withChecksum_append_left b hroom checksum
      rw [hb] at hall
      refine ⟨_, .call hcall hrun, ?_⟩
      rw [Nat.mul_succ, Nat.add_comm (N * (j + 1)), hall]
      exact .cons hlast hw hpacket

theorem insert_packet (hN : N = 8 ∨ N = 16 ∨ N = 32 ∨ N = 64) (h : Packet ws bs) (hlen : 17 < bs.length)
    (checksums : List (BitVec 16)) (rest : List (Word N)) :
    ∃ os, Runs insertChecksum (.init N) ⟨checksum :: checksums, ws ++ rest⟩ os (.init N) ⟨checksums, rest⟩ ∧
      Packet os.flatten (withChecksum 16 checksum bs) := by
  rcases hN with rfl | rfl | rfl | rfl
  · exact insert_skip checksum (by decide) (by decide) 1 checksums rest rfl rfl h hlen
  · exact insert_skip checksum (by decide) (by decide) 0 checksums rest rfl rfl h hlen
  · exact insert_first checksum rfl (by decide) rfl rfl h hlen checksums rest
  · exact insert_first checksum rfl (by decide) rfl rfl h hlen checksums rest

theorem insert_packets (hN : N = 8 ∨ N = 16 ∨ N = 32 ∨ N = 64) (h : Packets ws bss) :
    ∀ {checksums : List (BitVec 16)}, checksums.length = bss.length → (∀ bs ∈ bss, 17 < bs.length) →
      ∃ os, Runs insertChecksum (.init N) ⟨checksums, ws⟩ os (.init N) ⟨[], []⟩ ∧
        Packets os.flatten (List.zipWith (withChecksum 16) checksums bss) := by
  induction h with
  | nil =>
    intro checksums hlen _
    rw [List.length_eq_zero_iff.mp hlen]
    exact ⟨[], .refl _ _, .nil⟩
  | @cons ws ws' bs bss h _ ih =>
    intro checksums hlen hlong
    obtain ⟨hbs, hbss⟩ := List.forall_mem_cons.mp hlong
    cases checksums with
    | nil => cases hlen
    | cons checksum checksums =>
      obtain ⟨os, hrun, hpacket⟩ := insert_packet checksum hN h hbs checksums ws'
      obtain ⟨os', hrun', hpackets⟩ := ih (Nat.succ.inj hlen) hbss
      refine ⟨os ++ os', hrun.trans hrun', ?_⟩
      rw [List.flatten_append]
      exact .cons hpacket hpackets

end

/-! ## Round trip -/

/-- A field for the checksum: two bytes at an even offset, both zero. -/
structure ZeroAt (k : Nat) (bs : List (BitVec 8)) : Prop where
  even : k % 2 = 0
  lt : k + 1 < bs.length
  low : bs.getD k 0 = 0
  high : bs.getD (k + 1) 0 = 0

theorem ZeroAt.internetSum (h : ZeroAt k bs) :
    internetSum (withChecksum k (internetChecksum bs) bs) = 0xFFFF :=
  internetSum_withChecksum h.even h.lt h.low h.high

theorem ZeroAt.append (h : ZeroAt k bs) (hq : q.length % 2 = 0) :
    ZeroAt (q.length + k) (q ++ bs) := by
  have heven := h.even
  have hlt := h.lt
  refine ⟨by omega, by rw [List.length_append]; omega, ?_, ?_⟩
  · rw [List.getD_append_right _ _ _ _ (Nat.le_add_right _ k), Nat.add_sub_cancel_left, h.low]
  · rw [Nat.add_assoc, List.getD_append_right _ _ _ _ (Nat.le_add_right _ _), Nat.add_sub_cancel_left, h.high]

theorem inserted_accepted (hN : N = 4 ∨ N = 8 ∨ N = 16 ∨ N = 32) {ks : List Nat}
    (hzero : List.Forall₂ ZeroAt ks bss)
    (h : Packets ws (List.zipWith (fun k bs => withChecksum k (internetChecksum bs) bs) ks bss)) :
    ∃ os vs, Runs twoComplementSubchecksums (List.replicate N 0) ws os (List.replicate N 0) [] ∧
      Runs (toeCheckIpv4Checksum N) () (os.flatMap (·.subChecksumsFifoOut)) vs () [] ∧
      vs.flatten = bss.map fun _ => true := by
  obtain ⟨os, hrun, -, hout⟩ := subchecksums_packets h
  obtain ⟨vs, hcheck, hvs⟩ := check_packets hN hout
  refine ⟨os, vs, hrun, hcheck, ?_⟩
  rw [hvs]
  clear h hout hcheck hvs
  induction hzero with
  | nil => rfl
  | cons hone _ ih =>
    rw [List.zipWith_cons_cons, List.map_cons, List.map_cons, ih, decide_eq_true hone.internetSum]

/-- The checksum of a pseudo header and a segment, put into the segment. -/
theorem inserted_segments (hN : N = 4 ∨ N = 8 ∨ N = 16 ∨ N = 32) {parts : List (List (BitVec 8) × List (BitVec 8))}
    (heven : ∀ p ∈ parts, p.1.length % 2 = 0) (hzero : ∀ p ∈ parts, ZeroAt 16 p.2)
    (h : Packets ws (parts.map (·.2))) :
    ∃ os segments, Runs insertChecksum (.init (2 * N)) ⟨parts.map fun p => internetChecksum (p.1 ++ p.2), ws⟩ os
        (.init (2 * N)) ⟨[], []⟩ ∧
      Packets os.flatten segments ∧ segments.length = parts.length ∧
      List.zipWith (fun p segment => p.1 ++ segment) parts segments =
        List.zipWith (fun k bs => withChecksum k (internetChecksum bs) bs) (parts.map (·.1.length + 16))
          (parts.map fun p => p.1 ++ p.2) ∧
      List.Forall₂ ZeroAt (parts.map (·.1.length + 16)) (parts.map fun p => p.1 ++ p.2) := by
  have hlong : ∀ bs ∈ parts.map (·.2), 17 < bs.length := by
    intro bs hbs
    obtain ⟨p, hp, rfl⟩ := List.mem_map.mp hbs
    exact (hzero p hp).lt
  have hlen : (parts.map fun p => internetChecksum (p.1 ++ p.2)).length = (parts.map (·.2)).length := by
    rw [List.length_map, List.length_map]
  obtain ⟨os, hrun, hpackets⟩ := insert_packets (by omega) h hlen hlong
  refine ⟨os, _, hrun, hpackets, by simp, ?_, ?_⟩
  · rw [List.zipWith_map, List.zipWith_map, List.zipWith_self, List.zipWith_self, List.zipWith_map_right,
      List.zipWith_self]
    apply List.map_congr_left
    intro p hp
    exact (withChecksum_append_left p.1 (hzero p hp).lt _).symm
  · rw [List.forall₂_map_left_iff, List.forall₂_map_right_iff, List.forall₂_same]
    intro p hp
    exact (hzero p hp).append (heven p hp)

/-- The checksum of a packet depends on its bytes alone, and with it the packet is accepted. -/
theorem checksum_packets (hN : N = 4 ∨ N = 8 ∨ N = 16 ∨ N = 32) {bss : List (List (BitVec 8))} (h : Packets ws bss) :
    ∃ os cs vs, Runs twoComplementSubchecksums (List.replicate N 0) ws os (List.replicate N 0) [] ∧
      os.flatMap (·.dataOut) = ws ∧
      Runs (finalizeIpv4Checksum N) () (os.flatMap (·.subChecksumsFifoOut)) cs () [] ∧
      cs.flatten = bss.map internetChecksum ∧
      Runs (toeCheckIpv4Checksum N) () (os.flatMap (·.subChecksumsFifoOut)) vs () [] ∧
      vs.flatten = (bss.map fun bs => decide (internetSum bs = 0xFFFF)) ∧
      -- at any even offset that held zero, at any width
      (∀ (ks : List Nat) (M : Nat) (ws' : List (Word (2 * M))), M = 4 ∨ M = 8 ∨ M = 16 ∨ M = 32 →
        List.Forall₂ ZeroAt ks bss →
        Packets ws' (List.zipWith (fun k bs => withChecksum k (internetChecksum bs) bs) ks bss) →
        ∃ os vs, Runs twoComplementSubchecksums (List.replicate M 0) ws' os (List.replicate M 0) [] ∧
          Runs (toeCheckIpv4Checksum M) () (os.flatMap (·.subChecksumsFifoOut)) vs () [] ∧
          vs.flatten = bss.map fun _ => true) ∧
      -- and this is what `insert_checksum` does to a segment behind a pseudo header
      (∀ (parts : List (List (BitVec 8) × List (BitVec 8))) (ws' : List (Word (2 * N))),
        (parts.map fun p => p.1 ++ p.2) = bss → (∀ p ∈ parts, p.1.length % 2 = 0) → (∀ p ∈ parts, ZeroAt 16 p.2) →
        Packets ws' (parts.map (·.2)) →
        ∃ os segments, Runs insertChecksum (.init (2 * N)) ⟨cs.flatten, ws'⟩ os (.init (2 * N)) ⟨[], []⟩ ∧
          Packets os.flatten segments ∧ segments.length = parts.length ∧
          List.zipWith (fun p segment => p.1 ++ segment) parts segments =
            List.zipWith (fun k bs => withChecksum k (internetChecksum bs) bs) (parts.map (·.1.length + 16)) bss ∧
          List.Forall₂ ZeroAt (parts.map (·.1.length + 16)) bss) := by
  obtain ⟨os, hrun, hdata, hout⟩ := subchecksums_packets h
  obtain ⟨cs, hfinalize, hcs⟩ := finalize_packets hN hout
  obtain ⟨vs, hcheck, hvs⟩ := check_packets hN hout
  refine ⟨os, cs, vs, hrun, hdata, hfinalize, hcs, hcheck, hvs, ?_, ?_⟩
  · intro ks M ws' hM hzero h'
    exact inserted_accepted hM hzero h'
  · intro parts ws' hparts heven hzero h'
    subst hparts
    rw [hcs, List.map_map]
    exact inserted_segments hN heven hzero h'

/-- A packet of three words, the last one not full. -/
theorem checksum_packets_three :
    ∃ (ws : List (Word (2 * 4))) (bs : List (BitVec 8)), bs.length = 19 ∧
      ∃ os cs vs, Runs twoComplementSubchecksums (List.replicate 4 0) ws os (List.replicate 4 0) [] ∧
        Runs (finalizeIpv4Checksum 4) () (os.flatMap (·.subChecksumsFifoOut)) cs () [] ∧
        cs.flatten = [internetChecksum bs] ∧
        Runs (toeCheckIpv4Checksum 4) () (os.flatMap (·.subChecksumsFifoOut)) vs () [] ∧
        vs.flatten = [decide (internetSum bs = 0xFFFF)] := by
  have hfull : Packet (N := 2 * 4) [⟨List.replicate 8 (Lane.kept 1), false, rfl⟩,
      ⟨List.replicate 8 (Lane.kept 0xff), false, rfl⟩,
      ⟨[Lane.kept 0, Lane.kept 0, Lane.kept 7, ⟨9, false⟩, ⟨9, false⟩, {}, {}, {}], true, rfl⟩]
      (List.replicate 8 1 ++ (List.replicate 8 0xff ++ [0, 0, 7])) :=
    .cons rfl rfl (.cons rfl rfl (.last rfl ⟨[⟨9, false⟩, ⟨9, false⟩, {}, {}, {}], rfl, by unfold Axi.Unkept; decide⟩))
  obtain ⟨os, cs, vs, hrun, -, hfinalize, hcs, hcheck, hvs, -, -⟩ :=
    checksum_packets (Or.inl rfl) (.cons hfull .nil)
  exact ⟨_, _, rfl, os, cs, vs, hrun, hfinalize, hcs, hcheck, hvs⟩

end FpgaNetworkStack.Toe
