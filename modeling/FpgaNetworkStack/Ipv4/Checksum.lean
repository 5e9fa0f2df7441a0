import FpgaNetworkStack.IpHandler.CutLength

/-!
# The checksum of an IPv4 header at each width (`ipv4_utils.cpp`)

The halfwords of the header go into as many sums as a word has halfwords, and the sums of a packet are written when its
header has been read.
-/

namespace FpgaNetworkStack.Ipv4

open Lib
open Axi (Word Packet Ends Framed laneData laneData_cons length_laneData)
open Toe (reverse16)
open IpHandler (SubSums foldAdd foldAdd_toNat StandsFor Total)

variable {N : Nat} {w : Word N} {ws : List (Word N)}

/-! ## The versions for words of up to 256 bits -/

structure ComputeSums where
  ipSums : SubSums
  ipHeaderLen : BitVec 4 := 0
  wordCount : BitVec 3 := 0

@[ext]
structure SumsOut (N : Nat) where
  dataOut : List (Word N) := []
  subSumFifoOut : List SubSums := []

/-- The halfwords of a part of the word are added to the sums. -/
def addPart {m : Nat} (part : Nat → Bool) (data : BitVec m) (ipSums : SubSums) : SubSums :=
  ipSums.mapIdx fun i sum =>
    if part i then foldAdd sum ((reverse16 (data.extractLsb' (16 * i) 16)).setWidth 17) else sum

/-- The word number `i` of the packet is read by `word`; the last one resets the sums. -/
def computeWith (n : Nat) (word : ComputeSums → BitVec (8 * N) → ComputeSums × List SubSums) (s : ComputeSums)
    (dataIn : List (Word N)) : ComputeSums × List (Word N) × SumsOut N :=
  match dataIn with
  | [] => (s, [], {})
  | currWord :: rest =>
    let r := word s currWord.data
    ({ ipSums := if currWord.last then List.replicate n 0 else r.1.ipSums
       ipHeaderLen := r.1.ipHeaderLen
       wordCount := if currWord.last then 0 else r.1.wordCount },
      rest, { dataOut := [currWord], subSumFifoOut := r.2 })

/-- The words without a case of their own, of `h` times four bytes. -/
def defaultWord {m : Nat} (h : Nat) (s : ComputeSums) (data : BitVec m) : ComputeSums × List SubSums :=
  if s.ipHeaderLen = 0 then (s, [])
  else if s.ipHeaderLen.toNat < h then
    let ipSums := addPart (fun i => decide (i < 2 * s.ipHeaderLen.toNat)) data s.ipSums
    ({ s with ipSums := ipSums, ipHeaderLen := 0 }, [ipSums])
  else
    let ipSums := addPart (fun _ => true) data s.ipSums
    ({ s with ipSums := ipSums, ipHeaderLen := s.ipHeaderLen - BitVec.ofNat 4 h },
      if s.ipHeaderLen.toNat = h then [ipSums] else [])

def sumWord64 (skipChecksum : Bool) (s : ComputeSums) (data : BitVec (8 * 8)) : ComputeSums × List SubSums :=
  if s.wordCount = 0 then
    ({ ipSums := addPart (fun _ => true) data s.ipSums
       ipHeaderLen := data.extractLsb' 0 4 - 2
       wordCount := s.wordCount + 1 }, [])
  else if s.wordCount = 1 then
    ({ ipSums := addPart (fun i => !skipChecksum || i != 1) data s.ipSums
       ipHeaderLen := s.ipHeaderLen - 2
       wordCount := s.wordCount + 1 }, [])
  else defaultWord 2 s data

def sumWord128 (skipChecksum : Bool) (s : ComputeSums) (data : BitVec (8 * 16)) : ComputeSums × List SubSums :=
  if s.wordCount = 0 then
    ({ ipSums := addPart (fun i => !skipChecksum || i != 5) data s.ipSums
       ipHeaderLen := data.extractLsb' 0 4 - 4
       wordCount := s.wordCount + 1 }, [])
  else defaultWord 4 s data

def sumWord256 (skipChecksum : Bool) (s : ComputeSums) (data : BitVec (8 * 32)) : ComputeSums × List SubSums :=
  if s.wordCount = 0 then
    let ipHeaderLen := data.extractLsb' 0 4
    let ipSums := addPart (fun i => (!skipChecksum || i != 5) && decide (i / 2 < ipHeaderLen.toNat)) data s.ipSums
    if 8 < ipHeaderLen.toNat then
      ({ ipSums := ipSums, ipHeaderLen := ipHeaderLen - 8, wordCount := s.wordCount + 1 }, [])
    else ({ ipSums := ipSums, ipHeaderLen := 0, wordCount := s.wordCount + 1 }, [ipSums])
  else defaultWord 8 s data

/-- One call of `compute_ipv4_checksum` for each width. -/
def computeIpv4Checksum64 (skipChecksum : Bool) := computeWith 4 (sumWord64 skipChecksum)

def computeIpv4Checksum128 (skipChecksum : Bool) := computeWith 8 (sumWord128 skipChecksum)

def computeIpv4Checksum256 (skipChecksum : Bool) := computeWith 16 (sumWord256 skipChecksum)

/-! ## The version for 512 bits -/

structure ComputeSums512 where
  ipSums : SubSums := List.replicate 32 0
  ipHeaderLen : BitVec 4 := 0
  firstWord : Bool := true

def computeIpv4Checksum512 (skipChecksum : Bool) (s : ComputeSums512) (dataIn : List (Word 64)) :
    ComputeSums512 × List (Word 64) × SumsOut 64 :=
  match dataIn with
  | [] => (s, [], {})
  | currWord :: rest =>
    let ipHeaderLen := if s.firstWord then currWord.data.extractLsb' 0 4 else s.ipHeaderLen
    let part := fun i => (!skipChecksum || i != 5) && decide (i / 2 < ipHeaderLen.toNat)
    let ipSums := if s.firstWord then addPart part currWord.data s.ipSums else s.ipSums
    ({ ipSums := if currWord.last then List.replicate 32 0 else ipSums
       ipHeaderLen
       firstWord := currWord.last },
      rest, { dataOut := [currWord], subSumFifoOut := if s.firstWord then [ipSums] else [] })

/-! ## What is added to the sums -/

/-- Two bytes of a packet, the first one in the high bits. -/
def halfAt (bs : List (BitVec 8)) (i : Nat) : Nat := (bs.getD (2 * i) 0 ++ bs.getD (2 * i + 1) 0).toNat

theorem halfAt_lt (bs : List (BitVec 8)) (i : Nat) : halfAt bs i < 65536 := BitVec.isLt _

/-- The sum of a part of the first `m` halfwords. -/
def partSum (part : Nat → Bool) (bs : List (BitVec 8)) (m : Nat) : Nat :=
  ((List.range m).map fun i => if part i then halfAt bs i else 0).sum

variable {m i n total k len : Nat}

theorem partSum_congr {part part' : Nat → Bool} {bs bs' : List (BitVec 8)}
    (h : ∀ i, i < m → (if part i then halfAt bs i else 0) = if part' i then halfAt bs' i else 0) :
    partSum part bs m = partSum part' bs' m := by
  unfold partSum
  congr 1
  apply List.map_congr_left
  intro i hi
  exact h i (List.mem_range.mp hi)

theorem partSum_add (part : Nat → Bool) (bs : List (BitVec 8)) (m k : Nat) :
    partSum part bs (m + k) =
      partSum part bs m + ((List.range k).map fun i => if part (m + i) then halfAt bs (m + i) else 0).sum := by
  rw [partSum, List.range_add, List.map_append, List.sum_append, List.map_map]
  rfl

-- nothing is added behind the part
theorem partSum_le (part : Nat → Bool) {m k : Nat} (hle : m ≤ k) (bs : List (BitVec 8)) :
    partSum (fun i => part i && decide (i < m)) bs k = partSum part bs m := by
  obtain ⟨l, rfl⟩ := Nat.exists_eq_add_of_le hle
  have hzero : ((List.range l).map fun i => if (part (m + i) && decide (m + i < m)) = true then halfAt bs (m + i) else 0).sum
      = 0 := by
    apply List.sum_eq_zero
    intro x hx
    obtain ⟨i, -, rfl⟩ := List.mem_map.mp hx
    have hge : ¬m + i < m := by omega
    simp [hge]
  rw [partSum_add, hzero, Nat.add_zero]
  apply partSum_congr
  intro i hi
  simp [hi]

theorem reverse16_data (hi : 2 * i + 1 < N) :
    (reverse16 (w.data.extractLsb' (16 * i) 16)).toNat = halfAt (w.lanes.map (·.data)) i := by
  have hswap := IpHandler.reverse16_extract w.data (2 * i)
  have hidx : 8 * (2 * i) = 16 * i := by omega
  have hdata : w.data = Axi.headerOf N (w.lanes.map (·.data)) := rfl
  rw [hdata, Axi.headerOf_octet (by omega), Axi.headerOf_octet hi, hidx] at hswap
  rw [hdata, hswap, halfAt]

theorem addPart_total {l : SubSums} (hN : N = 2 * n) (h : Total l n total) (part : Nat → Bool) :
    Total (addPart part w.data l) n (total + partSum part (w.lanes.map (·.data)) n) := by
  obtain ⟨xs, hxs, hlen, hsum⟩ := h
  let added := (List.range n).map fun i =>
    if part i then (reverse16 (w.data.extractLsb' (16 * i) 16)).setWidth 17 else (0 : BitVec 17)
  let values := (List.range n).map fun i => if part i then halfAt (w.lanes.map (·.data)) i else 0
  have hl : l.length = n := hxs.length_eq.trans hlen
  have hadded : StandsFor added values := by
    apply List.forall₂_map_left_iff.mpr
    apply List.forall₂_map_right_iff.mpr
    apply List.forall₂_same.mpr
    intro i hi
    have hlt := List.mem_range.mp hi
    by_cases hpart : part i = true
    · have hval := reverse16_data (w := w) (i := i) (by omega)
      have hbound := halfAt_lt (w.lanes.map (·.data)) i
      have hwidth : ((reverse16 (w.data.extractLsb' (16 * i) 16)).setWidth 17).toNat = halfAt (w.lanes.map (·.data)) i := by
        rw [BitVec.toNat_setWidth, hval, Nat.mod_eq_of_lt (by omega)]
      rw [if_pos hpart, if_pos hpart, hwidth]
      exact folds_self hbound
    · rw [if_neg hpart, if_neg hpart]
      exact folds_zero (by decide)
  have heq : addPart part w.data l = List.zipWith foldAdd l added := by
    apply List.ext_getElem
    · simp [addPart, added, hl]
    · intro i hi hi'
      have hil : i < l.length := by
        rw [addPart, List.length_mapIdx] at hi
        exact hi
      have hlt : (l[i]).toNat < 65536 := by
        obtain ⟨-, hget⟩ := List.forall₂_iff_get.mp hxs
        exact (hget i hil (by omega)).lt
      simp only [addPart, List.getElem_mapIdx, List.getElem_zipWith, added, List.getElem_map, List.getElem_range]
      by_cases hpart : part i = true
      · rw [if_pos hpart, if_pos hpart]
      · rw [if_neg hpart, if_neg hpart]
        apply BitVec.eq_of_toNat_eq
        rw [foldAdd_toNat hlt (by decide), onesAdd]
        show (l[i]).toNat = ((l[i]).toNat + 0) % 65536 + ((l[i]).toNat + 0) / 65536
        omega
  refine ⟨List.zipWith (· + ·) xs values, ?_, ?_, ?_⟩
  · rw [heq]
    exact hxs.zipWith hadded
  · rw [List.length_zipWith, hlen, List.length_map, List.length_range, Nat.min_self]
  · rw [← List.sum_add_sum_eq_sum_zipWith_of_length_eq _ _ (by rw [hlen, List.length_map, List.length_range]), hsum]
    rfl

theorem total_zero (n : Nat) : Total (List.replicate n 0) n 0 := by
  refine ⟨List.replicate n 0, ?_, List.length_replicate, by simp⟩
  apply List.forall₂_iff_get.mpr
  refine ⟨by simp, fun i hi hi' => ?_⟩
  rw [List.get_eq_getElem, List.get_eq_getElem, List.getElem_replicate, List.getElem_replicate]
  exact folds_zero (by decide)

theorem halfAt_first (hN : N = 2 * n) (hi : i < n) (w : Word N) (ws : List (Word N)) :
    halfAt (laneData (w :: ws)) i = halfAt (w.lanes.map (·.data)) i := by
  have hlen : (w.lanes.map (·.data)).length = 2 * n := by rw [List.length_map, w.length_eq, hN]
  rw [halfAt, laneData_cons, List.getD_append _ _ _ _ (by omega), List.getD_append _ _ _ _ (by omega), ← halfAt]

theorem halfAt_more (hN : N = 2 * n) (i : Nat) (w : Word N) (ws : List (Word N)) :
    halfAt (laneData (w :: ws)) (n + i) = halfAt (laneData ws) i := by
  have hlen : (w.lanes.map (·.data)).length = 2 * n := by rw [List.length_map, w.length_eq, hN]
  have h0 : 2 * (n + i) - (w.lanes.map (·.data)).length = 2 * i := by omega
  have h1 : 2 * (n + i) + 1 - (w.lanes.map (·.data)).length = 2 * i + 1 := by omega
  rw [halfAt, laneData_cons, List.getD_append_right _ _ _ _ (by omega), List.getD_append_right _ _ _ _ (by omega), h0,
    h1, ← halfAt]

theorem partSum_first (hN : N = 2 * n) (hk : k ≤ n) (part : Nat → Bool) (w : Word N) (ws : List (Word N)) :
    partSum part (laneData (w :: ws)) k = partSum part (w.lanes.map (·.data)) k := by
  apply partSum_congr
  intro i hi
  rw [halfAt_first hN (Nat.lt_of_lt_of_le hi hk)]

theorem partSum_laneData (hN : N = 2 * n) (part : Nat → Bool) (w : Word N) (ws : List (Word N)) (k : Nat) :
    partSum part (laneData (w :: ws)) (n + k) =
      partSum part (w.lanes.map (·.data)) n + partSum (fun i => part (n + i)) (laneData ws) k := by
  rw [partSum_add, partSum_first hN (Nat.le_refl n)]
  simp only [halfAt_more hN]
  rfl

/-! ## The words behind the first ones -/

/-- Between two packets. -/
structure ComputeSums.Idle (n : Nat) (s : ComputeSums) : Prop where
  ipSums : s.ipSums = List.replicate n 0
  wordCount : s.wordCount = 0

section

variable {h : Nat} {c : BitVec 3} {word : ComputeSums → BitVec (8 * N) → ComputeSums × List SubSums}

theorem computeWith_last {n : Nat} (word : ComputeSums → BitVec (8 * N) → ComputeSums × List SubSums) {s : ComputeSums}
    (hlast : w.last = true) (rest : List (Word N)) :
    ∃ t, computeWith n word s (w :: rest) = (t, rest, { dataOut := [w], subSumFifoOut := (word s w.data).2 }) ∧
      t.Idle n := by
  refine ⟨_, rfl, ?_, ?_⟩
  · rw [hlast]
    rfl
  · rw [hlast]
    rfl

theorem computeWith_more {n : Nat} (word : ComputeSums → BitVec (8 * N) → ComputeSums × List SubSums) {s : ComputeSums}
    (hlast : w.last = false) (rest : List (Word N)) :
    computeWith n word s (w :: rest) =
      ((word s w.data).1, rest, { dataOut := [w], subSumFifoOut := (word s w.data).2 }) := by
  rw [computeWith, hlast]
  rfl

variable {s : ComputeSums}

theorem defaultWord_done (hdone : s.ipHeaderLen = 0) {m : Nat} (data : BitVec m) :
    defaultWord h s data = (s, []) := if_pos hdone

theorem defaultWord_ends (hN : N = 4 * h) (hlt : h < 16) (hne : s.ipHeaderLen ≠ 0)
    (hle : s.ipHeaderLen.toNat ≤ h) (w : Word N) :
    ∃ r, defaultWord h s w.data = ({ s with ipSums := r, ipHeaderLen := 0 }, [r]) ∧
      ∀ total, Total s.ipSums (2 * h) total →
        Total r (2 * h) (total + partSum (fun _ => true) (w.lanes.map (·.data)) (2 * s.ipHeaderLen.toNat)) := by
  by_cases hless : s.ipHeaderLen.toNat < h
  · refine ⟨addPart (fun i => decide (i < 2 * s.ipHeaderLen.toNat)) w.data s.ipSums, ?_, ?_⟩
    · rw [defaultWord, if_neg hne, if_pos hless]
    · intro total htotal
      have hadd := addPart_total (w := w) (by omega) htotal fun i => decide (i < 2 * s.ipHeaderLen.toNat)
      have hpart := partSum_le (fun _ => true) (m := 2 * s.ipHeaderLen.toNat) (k := 2 * h) (by omega)
        (w.lanes.map (·.data))
      simp only [Bool.true_and] at hpart
      rwa [hpart] at hadd
  · have heq : s.ipHeaderLen.toNat = h := by omega
    refine ⟨addPart (fun _ => true) w.data s.ipSums, ?_, ?_⟩
    · have hzero : s.ipHeaderLen - BitVec.ofNat 4 h = 0 := by
        rw [← heq, BitVec.ofNat_toNat, BitVec.setWidth_eq]
        exact BitVec.sub_self _
      rw [defaultWord, if_neg hne, if_neg hless]
      dsimp only
      rw [if_pos heq, hzero]
    · intro total htotal
      rw [heq]
      exact addPart_total (by omega) htotal _

theorem defaultWord_more (hN : N = 4 * h) (hless : h < s.ipHeaderLen.toNat) (w : Word N) :
    ∃ sums, defaultWord h s w.data =
        ({ s with ipSums := sums, ipHeaderLen := s.ipHeaderLen - BitVec.ofNat 4 h }, []) ∧
      ∀ total, Total s.ipSums (2 * h) total →
        Total sums (2 * h) (total + partSum (fun _ => true) (w.lanes.map (·.data)) (2 * h)) := by
  have hne : s.ipHeaderLen ≠ 0 := by
    intro hzero
    rw [hzero] at hless
    exact Nat.not_lt_zero h hless
  refine ⟨addPart (fun _ => true) w.data s.ipSums, ?_, ?_⟩
  · rw [defaultWord, if_neg hne, if_neg (by omega)]
    dsimp only
    rw [if_neg (by omega)]
  · intro total htotal
    exact addPart_total (by omega) htotal _

/-- What the rest of a packet makes of the sums and the length that is left. -/
structure Records (h : Nat) (ws : List (Word N)) (s : ComputeSums) (records : List SubSums) : Prop where
  none : s.ipHeaderLen = 0 ∨ ws.length * h < s.ipHeaderLen.toNat → records = []
  one : s.ipHeaderLen ≠ 0 → s.ipHeaderLen.toNat ≤ ws.length * h → ∃ r, records = [r] ∧
    ∀ total, Total s.ipSums (2 * h) total →
      Total r (2 * h) (total + partSum (fun _ => true) (laneData ws) (2 * s.ipHeaderLen.toNat))

theorem records_none (hnone : s.ipHeaderLen = 0 ∨ ws.length * h < s.ipHeaderLen.toNat) : Records h ws s [] := by
  constructor
  · exact fun _ => rfl
  · intro hne hle
    rcases hnone with hzero | hlt
    · exact absurd hzero hne
    · exact absurd hle (Nat.not_le.mpr hlt)

theorem records_one {r : SubSums} (hne : s.ipHeaderLen ≠ 0) (hle : s.ipHeaderLen.toNat ≤ ws.length * h)
    (hr : ∀ total, Total s.ipSums (2 * h) total →
      Total r (2 * h) (total + partSum (fun _ => true) (laneData ws) (2 * s.ipHeaderLen.toNat))) : Records h ws s [r] := by
  constructor
  · intro hnone
    rcases hnone with hzero | hlt
    · exact absurd hzero hne
    · exact absurd hle (Nat.not_le.mpr hlt)
  · exact fun _ _ => ⟨r, rfl, hr⟩

/-- The rest of a packet: the sums are written when the header has been read, if the packet goes on that long. -/
theorem rest_records (hN : N = 4 * h) (hlt : h < 16)
    (hword : ∀ s data, s.wordCount = c → word s data = defaultWord h s data) (hends : Ends ws) (rest : List (Word N)) :
    ∀ {s : ComputeSums}, s.wordCount = c →
      ∃ os t, Runs (computeWith (2 * h) word) s (ws ++ rest) os t rest ∧ t.Idle (2 * h) ∧
        Records h ws s (os.flatMap (·.subSumFifoOut)) := by
  induction hends with
  | @last w hlast =>
    intro s hs
    obtain ⟨t, hcall, ht⟩ := computeWith_last (n := 2 * h) word (s := s) hlast rest
    rw [hword s _ hs] at hcall
    refine ⟨_, t, .one hcall, ht, ?_⟩
    rw [List.flatMap_singleton]
    by_cases hzero : s.ipHeaderLen = 0
    · rw [defaultWord_done hzero]
      exact records_none (.inl hzero)
    · by_cases hle : s.ipHeaderLen.toNat ≤ h
      · obtain ⟨r, hr, htotal⟩ := defaultWord_ends hN hlt hzero hle w
        rw [hr]
        apply records_one hzero (by rw [List.length_singleton]; omega)
        intro total hsums
        rw [partSum_first (n := 2 * h) (by omega) (by omega)]
        exact htotal total hsums
      · obtain ⟨sums, hsums, -⟩ := defaultWord_more hN (Nat.lt_of_not_le hle) w
        rw [hsums]
        exact records_none (.inr (by rw [List.length_singleton]; omega))
  | @cons w ws hlast _ ih =>
    intro s hs
    have hcall := computeWith_more (n := 2 * h) word (s := s) hlast (ws ++ rest)
    rw [hword s _ hs] at hcall
    by_cases hzero : s.ipHeaderLen = 0
    · rw [defaultWord_done hzero] at hcall
      obtain ⟨os, t, hrun, ht, hrecords⟩ := ih hs
      refine ⟨_, t, .call hcall hrun, ht, ?_⟩
      rw [List.flatMap_cons, hrecords.none (.inl hzero)]
      exact records_none (.inl hzero)
    · by_cases hle : s.ipHeaderLen.toNat ≤ h
      · obtain ⟨r, hr, htotal⟩ := defaultWord_ends hN hlt hzero hle w
        rw [hr] at hcall
        obtain ⟨os, t, hrun, ht, hrecords⟩ := ih (s := { s with ipSums := r, ipHeaderLen := 0 }) hs
        refine ⟨_, t, .call hcall hrun, ht, ?_⟩
        rw [List.flatMap_cons, hrecords.none (.inl rfl)]
        apply records_one hzero (by rw [List.length_cons, Nat.succ_mul]; omega)
        intro total hsums
        rw [partSum_first (n := 2 * h) (by omega) (by omega)]
        exact htotal total hsums
      · obtain ⟨sums, hsums, htotal⟩ := defaultWord_more hN (Nat.lt_of_not_le hle) w
        rw [hsums] at hcall
        obtain ⟨os, t, hrun, ht, hrecords⟩ :=
          ih (s := { s with ipSums := sums, ipHeaderLen := s.ipHeaderLen - BitVec.ofNat 4 h }) hs
        refine ⟨_, t, .call hcall hrun, ht, ?_⟩
        rw [List.flatMap_cons, List.nil_append]
        have hlen : (s.ipHeaderLen - BitVec.ofNat 4 h).toNat = s.ipHeaderLen.toNat - h := by
          have hk := s.ipHeaderLen.isLt
          rw [BitVec.toNat_sub, BitVec.toNat_ofNat]
          omega
        have hne : s.ipHeaderLen - BitVec.ofNat 4 h ≠ 0 := by
          intro hz
          rw [hz] at hlen
          have : s.ipHeaderLen.toNat - h = 0 := hlen.symm
          omega
        have hrec := hrecords.one hne
        have hnone := hrecords.none
        simp only [hlen] at hrec hnone
        by_cases hshort : (w :: ws).length * h < s.ipHeaderLen.toNat
        · rw [List.length_cons, Nat.succ_mul] at hshort
          rw [hnone (.inr (by omega))]
          exact records_none (.inr (by rw [List.length_cons, Nat.succ_mul]; exact hshort))
        · have hlong := Nat.le_of_not_lt hshort
          rw [List.length_cons, Nat.succ_mul] at hlong
          obtain ⟨r, hr, hall⟩ := hrec (by omega)
          rw [hr]
          apply records_one hzero (Nat.le_of_not_lt hshort)
          intro total htot
          have hk : 2 * s.ipHeaderLen.toNat = 2 * h + 2 * (s.ipHeaderLen.toNat - h) := by omega
          rw [hk, partSum_laneData (n := 2 * h) (by omega), ← Nat.add_assoc]
          exact hall _ (htotal total htot)

end

/-! ## The header of a packet -/

/-- The header length, in words of four bytes. -/
def ihl (ip : List (BitVec 8)) : Nat := ((ip.getD 0 0).extractLsb' 0 4).toNat

/-- The halfwords of the header, without the checksum field when that is skipped. -/
def summedHalfwords (skipChecksum : Bool) (ip : List (BitVec 8)) : List Nat :=
  ((List.range (2 * ihl ip)).filter fun i => !skipChecksum || i != 5).map (halfAt ip)

def headerSum (skipChecksum : Bool) (ip : List (BitVec 8)) : Nat := onesSum 65536 (summedHalfwords skipChecksum ip)

/-- The record of a packet; nothing is asked of the sums when the header is shorter than a header can be. -/
def RecordOf (skipChecksum : Bool) (p : Framed N) (sums : SubSums) : Prop :=
  5 ≤ ihl p.bytes → onesSum 65536 (sums.map (·.toNat)) = headerSum skipChecksum p.bytes

/-- A packet with its fixed header and its header of the length it says. -/
structure Measured (p : Framed N) : Prop where
  fixed : 20 ≤ p.bytes.length
  header : 4 * ihl p.bytes ≤ p.bytes.length

theorem ihl_lt (ip : List (BitVec 8)) : ihl ip < 16 := BitVec.isLt _

theorem ihl_first {bytes : List (BitVec 8)} (hN : 0 < N) (h : Packet (w :: ws) bytes) (hpos : 0 < bytes.length) :
    (w.data.extractLsb' 0 4).toNat = ihl bytes := by
  rw [ihl, ← h.first_octet hN hpos]
  congr 1
  apply BitVec.eq_of_getLsbD_eq
  intro i hi
  simp [hi]

theorem sum_map_filter (part : Nat → Bool) (f : Nat → Nat) (l : List Nat) :
    ((l.filter part).map f).sum = (l.map fun i => if part i then f i else 0).sum := by
  induction l with
  | nil => rfl
  | cons a l ih =>
    by_cases ha : part a = true
    · rw [List.filter_cons_of_pos ha, List.map_cons, List.map_cons, List.sum_cons, List.sum_cons, ih, if_pos ha]
    · rw [List.filter_cons_of_neg ha, List.map_cons, List.sum_cons, ih, if_neg ha, Nat.zero_add]

-- what the sums stand for is their sum
theorem folds_sums {l : SubSums} {xs : List Nat} (h : StandsFor l xs) :
    ∀ {a x : Nat}, Folds 65536 a x → Folds 65536 ((l.map (·.toNat)).foldl (onesAdd 65536) a) (x + xs.sum) := by
  induction h with
  | nil => exact fun ha => ha
  | @cons e y l ys he _ ih =>
    intro a x ha
    rw [List.map_cons, List.foldl_cons, List.sum_cons, ← Nat.add_assoc]
    exact ih (ha.add he)

theorem record_sum {skipChecksum : Bool} {ip : List (BitVec 8)} {sums : SubSums}
    (h : Total sums n (partSum (fun i => !skipChecksum || i != 5) ip (2 * ihl ip))) :
    onesSum 65536 (sums.map (·.toNat)) = headerSum skipChecksum ip := by
  obtain ⟨xs, hxs, -, hsum⟩ := h
  have hfolds := folds_sums hxs (folds_zero (B := 65536) (by decide))
  rw [Nat.zero_add, hsum, partSum, ← sum_map_filter] at hfolds
  refine hfolds.eq_onesSum (by decide) ?_
  intro x hx
  obtain ⟨i, -, rfl⟩ := List.mem_map.mp hx
  exact halfAt_lt ip i

theorem partSum_packet {bytes : List (BitVec 8)} (h : Packet ws bytes) (part : Nat → Bool) {m : Nat}
    (hm : 2 * m ≤ bytes.length) : partSum part (laneData ws) m = partSum part bytes m := by
  obtain ⟨unkept, hdata⟩ : ∃ unkept, laneData ws = bytes ++ unkept := h.lanes
  apply partSum_congr
  intro i hi
  rw [halfAt, hdata, List.getD_append _ _ _ _ (by omega), List.getD_append _ _ _ _ (by omega), ← halfAt]

theorem counted_ne {skipChecksum : Bool} (h : i ≠ 5) : (!skipChecksum || i != 5) = true := by
  rw [bne_iff_ne.mpr h, Bool.or_true]

theorem counted_shift (skipChecksum : Bool) {m k : Nat} (h : m + k = 5) (i : Nat) :
    (!skipChecksum || m + i != 5) = (!skipChecksum || i != k) := by
  congr 1
  rw [← h, Bool.eq_iff_iff, bne_iff_ne, bne_iff_ne, Ne, Nat.add_left_cancel_iff]

/-! ## Each version -/

/-- However the words come in, there is one record for each packet. -/
def Sums {σ : Type} (compute : σ → List (Word N) → σ × List (Word N) × SumsOut N) (idle : σ → Prop) (s : σ)
    (skipChecksum : Bool) (ps : List (Framed N)) : Prop :=
  ∃ out, Completes compute {} (·.subSumFifoOut) idle s [] (ps.flatMap Framed.words) out ∧
    List.Forall₂ (RecordOf skipChecksum) ps out

/-- The header has the least length, or the packet is so long that the length that has wrapped around is counted down. -/
def Counted (p : Framed N) : Prop :=
  5 ≤ ihl p.bytes ∨ ihl p.bytes ≤ 3 ∧ 4 * (16 + ihl p.bytes) ≤ p.words.length * N

theorem computeWith_waits (n : Nat) (word : ComputeSums → BitVec (8 * N) → ComputeSums × List SubSums) :
    Waits (computeWith n word) {} := by
  intro s dataIn
  cases dataIn with
  | nil => exact .inl rfl
  | cons currWord rest => exact .inr fun more => rfl

section

variable {skipChecksum : Bool} {h : Nat} {p : Framed N}

/-- What is written behind the first sixteen bytes, of which the length has been taken off. -/
theorem records_counted (hN : N = 4 * h) (hp : Measured p) {s : ComputeSums} {records : List SubSums}
    (hrecords : Records h ws s records) (hlen : s.ipHeaderLen.toNat = (ihl p.bytes + 12) % 16)
    (hused : p.words.length * h = ws.length * h + 4)
    (htotal : 5 ≤ ihl p.bytes → ∃ total, Total s.ipSums (2 * h) total ∧
      total + partSum (fun _ => true) (laneData ws) (2 * (ihl p.bytes - 4)) =
        partSum (fun i => !skipChecksum || i != 5) p.bytes (2 * ihl p.bytes)) :
    records.length ≤ 1 ∧ ((∃ r, records = [r] ∧ RecordOf skipChecksum p r) ↔ Counted p) := by
  have hihl := ihl_lt p.bytes
  have hheader := hp.header
  have hbound := p.packet.length_bytes.1
  have hwords : p.words.length * N = 4 * (ws.length * h + 4) := by
    calc p.words.length * N
      _ = p.words.length * (4 * h) := congrArg _ hN
      _ = 4 * (ws.length * h + 4) := by rw [Nat.mul_left_comm, hused]
  have hzero : s.ipHeaderLen = 0 ↔ s.ipHeaderLen.toNat = 0 := by
    rw [← BitVec.toNat_inj]
    rfl
  rw [hwords] at hbound
  by_cases hnone : s.ipHeaderLen = 0 ∨ ws.length * h < s.ipHeaderLen.toNat
  · rw [hrecords.none hnone]
    refine ⟨Nat.zero_le 1, iff_of_false ?_ ?_⟩
    · rintro ⟨r, hr, -⟩
      cases hr
    · rw [hzero, hlen] at hnone
      rw [Counted, hwords]
      omega
  · have hne : s.ipHeaderLen ≠ 0 := fun heq => hnone (.inl heq)
    have hle : s.ipHeaderLen.toNat ≤ ws.length * h := Nat.le_of_not_lt fun hlt => hnone (.inr hlt)
    obtain ⟨r, hr, hsums⟩ := hrecords.one hne hle
    rw [hr]
    refine ⟨Nat.le_refl 1, iff_of_true ⟨r, rfl, ?_⟩ ?_⟩
    · intro hleast
      obtain ⟨total, hstart, hsum⟩ := htotal hleast
      have hrecord := hsums total hstart
      have hk : s.ipHeaderLen.toNat = ihl p.bytes - 4 := by omega
      rw [hk, hsum] at hrecord
      exact record_sum hrecord
    · rw [hzero, hlen] at hnone
      rw [Counted, hwords]
      omega

end

theorem packet64 (skipChecksum : Bool) {s : ComputeSums} (hs : s.Idle 4) {p : Framed 8} (hp : Measured p)
    (rest : List (Word 8)) :
    ∃ os t, Runs (computeIpv4Checksum64 skipChecksum) s (p.words ++ rest) os t rest ∧ t.Idle 4 ∧
      (os.flatMap (·.subSumFifoOut)).length ≤ 1 ∧
      ((∃ r, os.flatMap (·.subSumFifoOut) = [r] ∧ RecordOf skipChecksum p r) ↔ Counted p) := by
  obtain ⟨sums, len, count⟩ := s
  obtain ⟨rfl, rfl⟩ : sums = List.replicate 4 0 ∧ count = 0 := ⟨hs.ipSums, hs.wordCount⟩
  have hfixed := hp.fixed
  obtain ⟨w, more, q, bs, hwords, hbytes, hq, hlast, hmore⟩ := p.packet.uncons (by omega)
  rw [hbytes, List.length_append, hq] at hfixed
  obtain ⟨v, ws, q', bs', rfl, -, -, hlast', hws⟩ := hmore.uncons (by omega)
  let s₁ : ComputeSums :=
    { ipSums := addPart (fun _ => true) w.data (List.replicate 4 0), ipHeaderLen := w.data.extractLsb' 0 4 - 2
      wordCount := 1 }
  let s₂ : ComputeSums :=
    { ipSums := addPart (fun i => !skipChecksum || i != 1) v.data s₁.ipSums, ipHeaderLen := s₁.ipHeaderLen - 2
      wordCount := 2 }
  have hcall : computeIpv4Checksum64 skipChecksum ⟨List.replicate 4 0, len, 0⟩ (w :: (v :: ws ++ rest)) =
      (s₁, v :: ws ++ rest, { dataOut := [w] }) := computeWith_more _ hlast _
  have hcall' : computeIpv4Checksum64 skipChecksum s₁ (v :: (ws ++ rest)) = (s₂, ws ++ rest, { dataOut := [v] }) :=
    computeWith_more _ hlast' _
  have hword : ∀ s data, s.wordCount = 2 → sumWord64 skipChecksum s data = defaultWord 2 s data := by
    intro s data hcount
    rw [sumWord64, if_neg (by rw [hcount]; decide), if_neg (by rw [hcount]; decide)]
  obtain ⟨os, t, hrun, ht, hrecords⟩ := rest_records (h := 2) (by decide) (by decide) hword hws.ends rest (s := s₂) rfl
  rw [hwords]
  refine ⟨_, t, .call hcall (.call hcall' hrun), ht, ?_⟩
  apply records_counted (by decide) hp hrecords
  · have hihl := ihl_first (by decide) (hwords ▸ p.packet) (Nat.lt_of_lt_of_le (by decide) hp.fixed)
    show (w.data.extractLsb' 0 4 - 2 - 2).toNat = _
    rw [← hihl]
    generalize w.data.extractLsb' 0 4 = nibble
    bv_omega
  · rw [hwords, List.length_cons, List.length_cons]
    omega
  · intro hleast
    have hfirst := addPart_total (w := w) (n := 4) rfl (total_zero 4) fun _ => true
    have hsecond := addPart_total (w := v) (n := 4) rfl hfirst fun i => !skipChecksum || i != 1
    refine ⟨_, hsecond, ?_⟩
    have hk : 2 * ihl p.bytes = 4 + (4 + 2 * (ihl p.bytes - 4)) := by omega
    have hpart : partSum (fun _ => true) (w.lanes.map (·.data)) 4 =
        partSum (fun i => !skipChecksum || i != 5) (w.lanes.map (·.data)) 4 := by
      apply partSum_congr
      intro i hi
      rw [if_pos rfl, if_pos (counted_ne (by omega))]
    have hshift : (fun i => !skipChecksum || 4 + i != 5) = fun i => !skipChecksum || i != 1 :=
      funext (counted_shift skipChecksum rfl)
    have hbehind : (fun i => !skipChecksum || 4 + (4 + i) != 5) = fun _ => true :=
      funext fun i => counted_ne (by omega)
    rw [← partSum_packet p.packet _ (Nat.le_trans (by omega) hp.header), hwords, hk, partSum_laneData (n := 4) rfl,
      partSum_laneData (n := 4) rfl, hshift, hbehind, ← hpart, Nat.zero_add, ← Nat.add_assoc]

theorem packet128 (skipChecksum : Bool) {s : ComputeSums} (hs : s.Idle 8) {p : Framed 16} (hp : Measured p)
    (rest : List (Word 16)) :
    ∃ os t, Runs (computeIpv4Checksum128 skipChecksum) s (p.words ++ rest) os t rest ∧ t.Idle 8 ∧
      (os.flatMap (·.subSumFifoOut)).length ≤ 1 ∧
      ((∃ r, os.flatMap (·.subSumFifoOut) = [r] ∧ RecordOf skipChecksum p r) ↔ Counted p) := by
  obtain ⟨sums, len, count⟩ := s
  obtain ⟨rfl, rfl⟩ : sums = List.replicate 8 0 ∧ count = 0 := ⟨hs.ipSums, hs.wordCount⟩
  have hfixed := hp.fixed
  obtain ⟨w, ws, q, bs, hwords, -, -, hlast, hws⟩ := p.packet.uncons (by omega)
  let s₁ : ComputeSums :=
    { ipSums := addPart (fun i => !skipChecksum || i != 5) w.data (List.replicate 8 0)
      ipHeaderLen := w.data.extractLsb' 0 4 - 4, wordCount := 1 }
  have hcall : computeIpv4Checksum128 skipChecksum ⟨List.replicate 8 0, len, 0⟩ (w :: (ws ++ rest)) =
      (s₁, ws ++ rest, { dataOut := [w] }) := computeWith_more _ hlast _
  have hword : ∀ s data, s.wordCount = 1 → sumWord128 skipChecksum s data = defaultWord 4 s data := by
    intro s data hcount
    rw [sumWord128, if_neg (by rw [hcount]; decide)]
  obtain ⟨os, t, hrun, ht, hrecords⟩ := rest_records (h := 4) (by decide) (by decide) hword hws.ends rest (s := s₁) rfl
  rw [hwords]
  refine ⟨_, t, .call hcall hrun, ht, ?_⟩
  apply records_counted (by decide) hp hrecords
  · have hihl := ihl_first (by decide) (hwords ▸ p.packet) (Nat.lt_of_lt_of_le (by decide) hp.fixed)
    show (w.data.extractLsb' 0 4 - 4).toNat = _
    rw [← hihl]
    generalize w.data.extractLsb' 0 4 = nibble
    bv_omega
  · rw [hwords, List.length_cons]
    omega
  · intro hleast
    have hfirst := addPart_total (w := w) (n := 8) rfl (total_zero 8) fun i => !skipChecksum || i != 5
    refine ⟨_, hfirst, ?_⟩
    have hk : 2 * ihl p.bytes = 8 + 2 * (ihl p.bytes - 4) := by omega
    have hbehind : (fun i => !skipChecksum || 8 + i != 5) = fun _ => true := funext fun i => counted_ne (by omega)
    rw [← partSum_packet p.packet _ (Nat.le_trans (by omega) hp.header), hwords, hk, partSum_laneData (n := 8) rfl,
      hbehind, Nat.zero_add]

-- the part of a word that is header
theorem partSum_header {part : Nat → Bool} (hle : 2 * len ≤ n) (bs : List (BitVec 8)) :
    partSum (fun i => part i && decide (i / 2 < len)) bs n = partSum part bs (2 * len) := by
  have hiff : (fun i => part i && decide (i / 2 < len)) = fun i => part i && decide (i < 2 * len) := by
    funext i
    congr 1
    apply decide_eq_decide.mpr
    omega
  rw [hiff, partSum_le part hle]

theorem packet256 (skipChecksum : Bool) {s : ComputeSums} (hs : s.Idle 16) {p : Framed 32} (hp : Measured p)
    (rest : List (Word 32)) :
    ∃ os t r, Runs (computeIpv4Checksum256 skipChecksum) s (p.words ++ rest) os t rest ∧ t.Idle 16 ∧
      os.flatMap (·.subSumFifoOut) = [r] ∧ RecordOf skipChecksum p r := by
  obtain ⟨sums, len, count⟩ := s
  obtain ⟨rfl, rfl⟩ : sums = List.replicate 16 0 ∧ count = 0 := ⟨hs.ipSums, hs.wordCount⟩
  have hihl := ihl_lt p.bytes
  have hheader := hp.header
  have hword : ∀ s data, s.wordCount = 1 → sumWord256 skipChecksum s data = defaultWord 8 s data := by
    intro s data hcount
    rw [sumWord256, if_neg (by rw [hcount]; decide)]
  obtain ⟨w, ws, hwords⟩ := List.exists_cons_of_ne_nil p.packet.ne_nil
  have hpacket := p.packet
  rw [hwords] at hpacket ⊢
  have hlen := ihl_first (by decide) hpacket (Nat.lt_of_lt_of_le (by decide) hp.fixed)
  let part := fun i => (!skipChecksum || i != 5) && decide (i / 2 < ihl p.bytes)
  let sums := addPart part w.data (List.replicate 16 0)
  have hsums : Total sums 16 (0 + partSum part (w.lanes.map (·.data)) 16) := addPart_total rfl (total_zero 16) part
  rw [Nat.zero_add] at hsums
  by_cases hlong : 8 < ihl p.bytes
  · -- the header goes on in the next word
    have hfirst : sumWord256 skipChecksum ⟨List.replicate 16 0, len, 0⟩ w.data =
        (⟨sums, w.data.extractLsb' 0 4 - 8, 1⟩, []) := by
      rw [sumWord256, if_pos rfl]
      dsimp only
      rw [hlen, if_pos hlong]
      rfl
    obtain ⟨w', ws', q, bs, heq, -, -, hlast, hws⟩ := hpacket.uncons (by omega)
    obtain ⟨rfl, rfl⟩ := List.cons.inj heq
    have hcall := computeWith_more (n := 16) (sumWord256 skipChecksum) (s := ⟨List.replicate 16 0, len, 0⟩) hlast
      (ws ++ rest)
    rw [hfirst] at hcall
    obtain ⟨os, t, hrun, ht, hrecords⟩ := rest_records (h := 8) (by decide) (by decide) hword hws.ends rest
      (s := ⟨sums, w.data.extractLsb' 0 4 - 8, 1⟩) rfl
    have hleft : (w.data.extractLsb' 0 4 - 8).toNat = ihl p.bytes - 8 := by
      rw [← hlen] at hlong ⊢
      generalize w.data.extractLsb' 0 4 = nibble at hlong ⊢
      bv_omega
    have hbound := hpacket.length_bytes.1
    rw [List.length_cons] at hbound
    have hne : w.data.extractLsb' 0 4 - 8 ≠ 0 := by
      intro hzero
      rw [hzero] at hleft
      have : ihl p.bytes - 8 = 0 := hleft.symm
      omega
    have henough : (w.data.extractLsb' 0 4 - 8).toNat ≤ ws.length * 8 := by
      rw [hleft]
      omega
    obtain ⟨r, hr, htotal⟩ := hrecords.one hne henough
    refine ⟨_, t, r, .call hcall hrun, ht, hr, fun _ => record_sum (n := 16) ?_⟩
    have hrecord := htotal _ hsums
    have hk : 2 * ihl p.bytes = 16 + 2 * (ihl p.bytes - 8) := by omega
    have hbehind : (fun i => !skipChecksum || 16 + i != 5) = fun _ => true := funext fun i => counted_ne (by omega)
    have hpart : partSum part (w.lanes.map (·.data)) 16 =
        partSum (fun i => !skipChecksum || i != 5) (w.lanes.map (·.data)) 16 := by
      apply partSum_congr
      intro i hi
      have hin : i / 2 < ihl p.bytes := by omega
      simp only [part, decide_eq_true hin, Bool.and_true]
    rw [hleft, hpart] at hrecord
    rw [← partSum_packet hpacket _ (by omega), hk, partSum_laneData (n := 16) rfl, hbehind]
    exact hrecord
  · have hfirst : sumWord256 skipChecksum ⟨List.replicate 16 0, len, 0⟩ w.data = (⟨sums, 0, 1⟩, [sums]) := by
      rw [sumWord256, if_pos rfl]
      dsimp only
      rw [hlen, if_neg hlong]
      rfl
    have hrecord : RecordOf skipChecksum p sums := by
      intro _
      apply record_sum (n := 16)
      rw [partSum_header (by omega), ← partSum_first (n := 16) rfl (by omega) _ w ws,
        partSum_packet hpacket _ (by omega)] at hsums
      exact hsums
    cases hpacket.ends with
    | last hlast =>
      obtain ⟨t, hcall, ht⟩ := computeWith_last (n := 16) (sumWord256 skipChecksum)
        (s := ⟨List.replicate 16 0, len, 0⟩) hlast rest
      rw [hfirst] at hcall
      exact ⟨_, t, sums, .one hcall, ht, rfl, hrecord⟩
    | cons hlast hends =>
      have hcall := computeWith_more (n := 16) (sumWord256 skipChecksum)
        (s := ⟨List.replicate 16 0, len, 0⟩) hlast (ws ++ rest)
      rw [hfirst] at hcall
      obtain ⟨os, t, hrun, ht, hrecords⟩ := rest_records (h := 8) (by decide) (by decide) hword hends rest
        (s := ⟨sums, 0, 1⟩) rfl
      refine ⟨_, t, sums, .call hcall hrun, ht, ?_, hrecord⟩
      rw [List.flatMap_cons, hrecords.none (.inl rfl)]
      rfl

/-! ## 512 bits -/

structure ComputeSums512.Idle (s : ComputeSums512) : Prop where
  ipSums : s.ipSums = List.replicate 32 0
  firstWord : s.firstWord = true

theorem body512 (skipChecksum : Bool) (s : ComputeSums512) (w : Word 64) (rest : List (Word 64))
    (hs : s.firstWord = false) :
    ∃ t, computeIpv4Checksum512 skipChecksum s (w :: rest) = (t, rest, { dataOut := [w] }) ∧
      (w.last = false → t.firstWord = false) ∧ (w.last = true → t.Idle) := by
  refine ⟨{ ipSums := if w.last then List.replicate 32 0 else s.ipSums, ipHeaderLen := s.ipHeaderLen
            firstWord := w.last }, ?_, fun hlast => hlast, ?_⟩
  · simp [computeIpv4Checksum512, hs]
  · intro hlast
    exact ⟨if_pos hlast, hlast⟩

theorem sums512 (skipChecksum : Bool) {s : ComputeSums512} (hs : s.Idle) {p : Framed 64} (hp : Measured p)
    (rest : List (Word 64)) :
    ∃ os t r, Runs (computeIpv4Checksum512 skipChecksum) s (p.words ++ rest) os t rest ∧ t.Idle ∧
      os.flatMap (·.dataOut) = p.words ∧ os.flatMap (·.subSumFifoOut) = [r] ∧
      Total r 32 (partSum (fun i => !skipChecksum || i != 5) p.bytes (2 * ihl p.bytes)) := by
  have hihl := ihl_lt p.bytes
  have hheader := hp.header
  obtain ⟨w, ws, hwords⟩ := List.exists_cons_of_ne_nil p.packet.ne_nil
  have hpacket := p.packet
  rw [hwords] at hpacket ⊢
  have hlen := ihl_first (by decide) hpacket (Nat.lt_of_lt_of_le (by decide) hp.fixed)
  let part := fun i => (!skipChecksum || i != 5) && decide (i / 2 < ihl p.bytes)
  let sums := addPart part w.data (List.replicate 32 0)
  have hsums : Total sums 32 (0 + partSum part (w.lanes.map (·.data)) 32) := addPart_total rfl (total_zero 32) part
  let t : ComputeSums512 :=
    { ipSums := if w.last then List.replicate 32 0 else sums, ipHeaderLen := w.data.extractLsb' 0 4
      firstWord := w.last }
  have hcall : computeIpv4Checksum512 skipChecksum s (w :: (ws ++ rest)) =
      (t, ws ++ rest, { dataOut := [w], subSumFifoOut := [sums] }) := by
    simp [computeIpv4Checksum512, hs.ipSums, hs.firstWord, t, sums, part, hlen]
  obtain ⟨u, hrun, hu⟩ := Ends.runs_first (fun ws => ws) (fun s : ComputeSums512 => s.firstWord = false)
    ComputeSums512.Idle _ (body512 skipChecksum) hpacket.ends rest hcall (fun hlast => hlast)
    fun hlast => ⟨if_pos hlast, hlast⟩
  rw [Nat.zero_add, partSum_header (by omega), ← partSum_first (n := 32) rfl (by omega) _ w ws,
    partSum_packet hpacket _ (by omega)] at hsums
  refine ⟨_, u, sums, hrun, hu, ?_, ?_, hsums⟩
  · rw [List.flatMap_cons, List.flatMap_map]
    exact congrArg (w :: ·) (List.flatMap_singleton' ws)
  · rw [List.flatMap_cons, List.flatMap_map, List.flatMap_eq_nil_iff.mpr fun _ _ => rfl]
    rfl

theorem packet512 (skipChecksum : Bool) {s : ComputeSums512} (hs : s.Idle) {p : Framed 64} (hp : Measured p)
    (rest : List (Word 64)) :
    ∃ os t r, Runs (computeIpv4Checksum512 skipChecksum) s (p.words ++ rest) os t rest ∧ t.Idle ∧
      os.flatMap (·.subSumFifoOut) = [r] ∧ RecordOf skipChecksum p r := by
  obtain ⟨os, t, r, hrun, ht, -, hout, htotal⟩ := sums512 skipChecksum hs hp rest
  exact ⟨os, t, r, hrun, ht, hout, fun _ => record_sum htotal⟩

/-! ## All widths -/

theorem computeIpv4Checksum512_waits (skipChecksum : Bool) : Waits (computeIpv4Checksum512 skipChecksum) {} := by
  intro s dataIn
  cases dataIn with
  | nil => exact .inl rfl
  | cons currWord rest => exact .inr fun more => rfl

theorem length_le_one_and_iff {β : Type} {P : Prop} {R : β → Prop} {rs : List β} {r : β} (hrs : rs = [r]) (hr : R r)
    (hP : P) : rs.length ≤ 1 ∧ ((∃ r, rs = [r] ∧ R r) ↔ P) := by
  rw [hrs]
  exact ⟨Nat.le_refl 1, iff_of_true ⟨r, rfl, hr⟩ hP⟩

/-- With words of 256 and 512 bits there is one record for each packet.  With words of 64 and 128 bits that is so exactly
when the length of no packet is four, or wraps around without being counted down. -/
theorem compute_ipv4_checksum_iff (skipChecksum : Bool) :
    (∀ ps : List (Framed 8), (∀ p ∈ ps, Measured p) →
      (Sums (computeIpv4Checksum64 skipChecksum) (ComputeSums.Idle 4) ⟨List.replicate 4 0, 0, 0⟩ skipChecksum ps ↔
        ∀ p ∈ ps, Counted p)) ∧
    (∀ ps : List (Framed 16), (∀ p ∈ ps, Measured p) →
      (Sums (computeIpv4Checksum128 skipChecksum) (ComputeSums.Idle 8) ⟨List.replicate 8 0, 0, 0⟩ skipChecksum ps ↔
        ∀ p ∈ ps, Counted p)) ∧
    (∀ ps : List (Framed 32), (∀ p ∈ ps, Measured p) →
      Sums (computeIpv4Checksum256 skipChecksum) (ComputeSums.Idle 16) ⟨List.replicate 16 0, 0, 0⟩ skipChecksum ps) ∧
    (∀ ps : List (Framed 64), (∀ p ∈ ps, Measured p) →
      Sums (computeIpv4Checksum512 skipChecksum) ComputeSums512.Idle {} skipChecksum ps) := by
  have hall {σ : Type} {N : Nat} {compute : σ → List (Word N) → σ × List (Word N) × SumsOut N} {idle : σ → Prop} {s : σ}
      {ps : List (Framed N)}
      (h : (∃ out, Completes compute {} (·.subSumFifoOut) idle s [] (ps.flatMap Framed.words) out ∧
        List.Forall₂ (RecordOf skipChecksum) ps out) ↔ ∀ p ∈ ps, True) : Sums compute idle s skipChecksum ps :=
    h.mpr fun _ _ => trivial
  refine ⟨?_, ?_, ?_, ?_⟩
  · intro ps hps
    refine completes_iff_forall₂ (List.flatMap Framed.words) (computeWith_waits 4 _) rfl rfl (fun _ _ => rfl) ?_ ps
      ⟨rfl, rfl⟩ hps
    intro s p ps hs hp
    exact packet64 skipChecksum hs hp (ps.flatMap Framed.words)
  · intro ps hps
    refine completes_iff_forall₂ (List.flatMap Framed.words) (computeWith_waits 8 _) rfl rfl (fun _ _ => rfl) ?_ ps
      ⟨rfl, rfl⟩ hps
    intro s p ps hs hp
    exact packet128 skipChecksum hs hp (ps.flatMap Framed.words)
  · intro ps hps
    apply hall
    refine completes_iff_forall₂ (List.flatMap Framed.words) (computeWith_waits 16 _) rfl rfl (fun _ _ => rfl) ?_ ps
      ⟨rfl, rfl⟩ hps
    intro s p ps hs hp
    obtain ⟨os, t, r, hrun, ht, hos, hr⟩ := packet256 skipChecksum hs hp (ps.flatMap Framed.words)
    exact ⟨os, t, hrun, ht, length_le_one_and_iff hos hr trivial⟩
  · intro ps hps
    apply hall
    refine completes_iff_forall₂ (List.flatMap Framed.words) (computeIpv4Checksum512_waits skipChecksum) rfl rfl
      (fun _ _ => rfl) ?_ ps ⟨rfl, rfl⟩ hps
    intro s p ps hs hp
    obtain ⟨os, t, r, hrun, ht, hos, hr⟩ := packet512 skipChecksum hs hp (ps.flatMap Framed.words)
    exact ⟨os, t, hrun, ht, length_le_one_and_iff hos hr trivial⟩

/-- Twenty bytes, the first of which has the header length. -/
def headerWith (first : BitVec 8) : List (BitVec 8) :=
  [first, 0, 0, 20, 0, 0, 0, 0, 0x40, 0x06, 0x9C, 0x12, 0x0A, 0x01, 0xD4, 0xD1, 0xFF, 0xFF, 0xFF, 0xFF]

/-- The twenty bytes in words of sixteen bytes and in one of sixty-four. -/
def words128 (first : BitVec 8) : Framed 16 :=
  .full ((headerWith first).take 16) rfl (.single ((headerWith first).drop 16) (by simp [headerWith]))

def word512 (first : BitVec 8) : Framed 64 := .single (headerWith first) (by simp [headerWith])

theorem compute_ipv4_checksum_iff_header :
    Sums (computeIpv4Checksum128 true) (ComputeSums.Idle 8) ⟨List.replicate 8 0, 0, 0⟩ true [words128 0x45] ∧
      Sums (computeIpv4Checksum512 false) ComputeSums512.Idle {} false [word512 0x44] := by
  constructor
  · have hmeasured : ∀ p ∈ [words128 0x45], Measured p := by
      intro p hp
      rw [List.mem_singleton.mp hp]
      constructor <;> decide
    apply ((compute_ipv4_checksum_iff true).2.1 _ hmeasured).mpr
    intro p hp
    rw [List.mem_singleton.mp hp]
    exact .inl (by decide)
  · apply (compute_ipv4_checksum_iff false).2.2.2
    intro p hp
    rw [List.mem_singleton.mp hp]
    constructor <;> decide

/-- Nothing is written for a packet with header length four. -/
theorem record_missing : ¬ ∀ (skipChecksum : Bool) (ps : List (Framed 16)), (∀ p ∈ ps, Measured p) →
    Sums (computeIpv4Checksum128 skipChecksum) (ComputeSums.Idle 8) ⟨List.replicate 8 0, 0, 0⟩ skipChecksum ps := by
  intro h
  have hmeasured : ∀ p ∈ [words128 0x44], Measured p := by
    intro p hp
    rw [List.mem_singleton.mp hp]
    constructor <;> decide
  obtain ⟨out, hcompletes, hout⟩ := h false [words128 0x44] hmeasured
  obtain ⟨os, t, hrun, -, hlen, hiff⟩ := packet128 false (s := ⟨List.replicate 8 0, 0, 0⟩) ⟨rfl, rfl⟩
    (hmeasured _ List.mem_cons_self) []
  obtain ⟨-, -, hos⟩ := hcompletes.of_run rfl ⟨hrun, rfl⟩
  rw [hos] at hiff
  cases hout with
  | @cons p r ps rs hr hnil =>
    cases hnil
    rcases hiff.mp ⟨r, rfl, hr⟩ with hleast | ⟨hshort, -⟩
    · exact absurd hleast (by decide)
    · exact absurd hshort (by decide)

end FpgaNetworkStack.Ipv4
