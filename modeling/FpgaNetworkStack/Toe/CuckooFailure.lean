import FpgaNetworkStack.Toe.CuckooMap

/-!
# Insertions that fail (`hash_table.cpp`)

An insertion is given up after `MAX_TRIALS` rounds, when every round has already written to the tables.  The new entry
and the victims of all rounds but the last are stored then, and the last victim is gone.
-/

namespace FpgaNetworkStack.Toe

open Lib

/-! ## The displacements of an insertion -/

section Walk

variable {κ : Type} [DecidableEq κ] {w : Nat} (hashes : κ → Fin NUM_TABLES → BitVec w) (tables : CuckooTables κ w)
  (victimBit : BitVec 1) (cur : HtEntry κ)

/-- The slot that a key gets in round `n` when none of its slots is free. -/
def slotAt (n : Nat) (key : κ) : Fin NUM_TABLES × BitVec w :=
  let pos := victimPos (hashes key) (Fin.ofNat NUM_TABLES n) (victimBit + BitVec.ofNat 1 n)
  (pos, hashes key pos)

/-- The entry of a slot after the entries `puts` were put into their slots, the last one first. -/
def content (puts : List ((Fin NUM_TABLES × BitVec w) × HtEntry κ)) (slot : Fin NUM_TABLES × BitVec w) : HtEntry κ :=
  match puts.find? fun put => put.1 == slot with
  | some put => put.2
  | none => tables slot.1 slot.2

/-- The first `n` displacements, if no slot is free: what was put where, and the entry that is without a slot then. -/
def displace : Nat → List ((Fin NUM_TABLES × BitVec w) × HtEntry κ) × HtEntry κ
  | 0 => ([], cur)
  | n + 1 =>
    let puts := (displace n).1
    let carried := (displace n).2
    let slot := slotAt hashes victimBit n carried.key
    ((slot, carried) :: puts, content tables puts slot)

end Walk

variable {κ : Type} [DecidableEq κ] {w : Nat} {hashes : κ → Fin NUM_TABLES → BitVec w} {tables : CuckooTables κ w}
  {victimBit : BitVec 1} {cur : HtEntry κ} {m : κ → Option (BitVec 16)}

theorem content_cons (puts : List ((Fin NUM_TABLES × BitVec w) × HtEntry κ)) (e : HtEntry κ) (pos : Fin NUM_TABLES) :
    (fun i a => content tables (((pos, hashes e.key pos), e) :: puts) (i, a)) =
      CuckooTables.store hashes (fun i a => content tables puts (i, a)) pos e := by
  funext i a
  rw [content, List.find?_cons]
  by_cases h : i = pos ∧ a = hashes e.key pos
  · obtain ⟨rfl, rfl⟩ := h
    rw [store_self, beq_self_eq_true]
  · rw [store_of_ne h]
    have hne : (((pos, hashes e.key pos) : Fin NUM_TABLES × BitVec w) == (i, a)) = false := by
      apply beq_false_of_ne
      intro heq
      exact h ⟨(congrArg Prod.fst heq).symm, (congrArg Prod.snd heq).symm⟩
    rw [hne]
    rfl

theorem ofNat_succ (n : Nat) : Fin.ofNat NUM_TABLES n + 1 = Fin.ofNat NUM_TABLES (n + 1) := by
  apply Fin.ext
  show (n % 9 + 1 % 9) % 9 = (n + 1) % 9
  omega

theorem bit_succ (n : Nat) : victimBit + BitVec.ofNat 1 n + 1 = victimBit + BitVec.ofNat 1 (n + 1) := by
  rw [BitVec.ofNat_add, BitVec.add_assoc]
  rfl

/-- The tables after `n` displacements. -/
def displaced (hashes : κ → Fin NUM_TABLES → BitVec w) (tables : CuckooTables κ w) (victimBit : BitVec 1)
    (cur : HtEntry κ) (n : Nat) : CuckooTables κ w :=
  fun i a => content tables (displace hashes tables victimBit cur n).1 (i, a)

/-- Each displacement stores the entry that is without a slot, and the entry of the slot is the next one. -/
theorem displaced_succ (hashes : κ → Fin NUM_TABLES → BitVec w) (tables : CuckooTables κ w) (victimBit : BitVec 1)
    (cur : HtEntry κ) (n : Nat) :
    let e := (displace hashes tables victimBit cur n).2
    let pos := victimPos (hashes e.key) (Fin.ofNat NUM_TABLES n) (victimBit + BitVec.ofNat 1 n)
    displaced hashes tables victimBit cur (n + 1) = (displaced hashes tables victimBit cur n).store hashes pos e ∧
      (displace hashes tables victimBit cur (n + 1)).2 = displaced hashes tables victimBit cur n pos (hashes e.key pos) :=
  ⟨content_cons _ _ _, rfl⟩

/-- What holds between two rounds: the tables are the old ones with the new entry, but for the entry that is without a
slot. -/
structure Carried (hashes : κ → Fin NUM_TABLES → BitVec w) (tables : CuckooTables κ w) (m : κ → Option (BitVec 16))
    (e : HtEntry κ) : Prop where
  valid : e.valid = true
  value : m e.key = some e.value
  represents : RepresentsMap hashes tables (Function.update m e.key none)

theorem Carried.store {e : HtEntry κ} (h : Carried hashes tables m e) (pos : Fin NUM_TABLES)
    (hv : (tables pos (hashes e.key pos)).valid = true) :
    Carried hashes (tables.store hashes pos e) m (tables pos (hashes e.key pos)) := by
  have hslot := h.represents.stored_slot _ _ hv
  have hne : (tables pos (hashes e.key pos)).key ≠ e.key := by
    intro hk
    rw [hk, Function.update_self] at hslot
    cases hslot
  have hstore := h.represents.store pos h.valid (Function.update_self _ _ _)
  rw [evict, if_pos hv] at hstore
  generalize tables pos (hashes e.key pos) = old at hv hslot hne hstore ⊢
  rw [Function.update_of_ne hne] at hslot
  refine ⟨hv, hslot, ?_⟩
  have hback : Function.update (Function.update m old.key none) e.key (some e.value) = Function.update m old.key none := by
    rw [Function.update_eq_self_iff, Function.update_of_ne hne.symm, h.value]
  rwa [Function.update_comm hne.symm, Function.update_idem, hback] at hstore

variable {value : BitVec 16}

theorem Carried.start {key : κ} (h : RepresentsMap hashes tables m) (hfresh : m key = none) :
    Carried hashes tables (Function.update m key (some value)) ⟨key, value, true⟩ := by
  refine ⟨rfl, Function.update_self _ _ _, ?_⟩
  rw [Function.update_idem, Function.update_eq_self_iff.mpr hfresh.symm]
  exact h

/-- An insertion that fails has displaced an entry in every round. -/
theorem insertLoop_fails {trials n : Nat} {start : CuckooTables κ w}
    (hcarried : Carried hashes (displaced hashes start victimBit cur n) m (displace hashes start victimBit cur n).2)
    (hfail : (insertLoop hashes trials (displaced hashes start victimBit cur n) (Fin.ofNat NUM_TABLES n)
      (victimBit + BitVec.ofNat 1 n) (displace hashes start victimBit cur n).2).2.2 = false) :
    Carried hashes (insertLoop hashes trials (displaced hashes start victimBit cur n) (Fin.ofNat NUM_TABLES n)
      (victimBit + BitVec.ofNat 1 n) (displace hashes start victimBit cur n).2).1 m
      (displace hashes start victimBit cur (n + trials)).2 := by
  induction trials generalizing n with
  | zero => exact hcarried
  | succ trials ih =>
    obtain ⟨htables, hnext⟩ := displaced_succ hashes start victimBit cur n
    rw [insertLoop] at hfail ⊢
    generalize (displace hashes start victimBit cur n).2 = e at hcarried hfail htables hnext ⊢
    split at hfail
    · cases hfail
    · next hnone =>
        have hfull := lastSlot_none hnone (victimPos (hashes e.key) (Fin.ofNat NUM_TABLES n) (victimBit + BitVec.ofNat 1 n))
        have hstep := hcarried.store (victimPos (hashes e.key) (Fin.ofNat NUM_TABLES n) (victimBit + BitVec.ofNat 1 n))
          (by simpa using hfull)
        rw [← htables, ← hnext] at hstep
        have hrest := ih hstep
        rw [htables, hnext, ← ofNat_succ, ← bit_succ, Nat.add_assoc, Nat.add_comm 1] at hrest
        exact hrest hfail

/-- The entry that is lost when an insertion fails. -/
def lost (hashes : κ → Fin NUM_TABLES → BitVec w) (t : HashTable κ w) (key : κ) (value : BitVec 16) : HtEntry κ :=
  (displace hashes t.cuckooTables t.victimBit ⟨key, value, true⟩ MAX_TRIALS).2

/-- After a failed insertion of a fresh key the new pair is stored, and the pair that is lost is not. -/
theorem insert_fails {t : HashTable κ w} {key : κ} (h : RepresentsMap hashes t.cuckooTables m)
    (hfresh : m key = none) (hfail : (t.insert hashes key value).2 = false) :
    Carried hashes (t.insert hashes key value).1.cuckooTables (Function.update m key (some value))
      (lost hashes t key value) := by
  have hbit : t.victimBit + BitVec.ofNat 1 0 = t.victimBit := BitVec.add_zero _
  have hstart : Carried hashes (displaced hashes t.cuckooTables t.victimBit ⟨key, value, true⟩ 0)
    (Function.update m key (some value)) ⟨key, value, true⟩ := Carried.start h hfresh
  have hcarried := @insertLoop_fails _ _ _ _ _ _ _ MAX_TRIALS 0 _ hstart
  rw [Nat.zero_add, hbit] at hcarried
  exact hcarried hfail

/-- A failed insertion keeps what lookups find exactly when the key was not there and comes back as the last victim. -/
theorem insert_fails_keeps_iff {t : HashTable κ w} {key : κ}
    (h : RepresentsMap hashes t.cuckooTables m) (hfail : (t.insert hashes key value).2 = false) :
    ((∀ k, (t.insert hashes key value).1.cuckooTables.lookup hashes k = t.cuckooTables.lookup hashes k) ∧
        (t.insert hashes key value).1.cuckooTables.lookup hashes key = none) ↔
      t.cuckooTables.lookup hashes key = none ∧ (lost hashes t key value).key = key := by
  rw [lookup_represents h]
  constructor
  · rintro ⟨hsame, hnone⟩
    have hfresh : m key = none := by rw [← lookup_represents h, ← hsame, hnone]
    refine ⟨hfresh, ?_⟩
    have hafter := (insert_fails h hfresh hfail).represents
    rw [lookup_represents hafter] at hnone
    by_contra hne
    rw [Function.update_of_ne (fun heq => hne heq.symm), Function.update_self] at hnone
    cases hnone
  · rintro ⟨hfresh, hkey⟩
    have hafter := (insert_fails h hfresh hfail).represents
    rw [hkey, Function.update_idem, Function.update_eq_self_iff.mpr hfresh.symm] at hafter
    refine ⟨fun k => ?_, ?_⟩
    · rw [lookup_represents hafter, lookup_represents h]
    · rw [lookup_represents hafter, hfresh]

/-! ## Every run -/

namespace HashCore

variable {hashes : BitVec KEY_SIZE → Fin NUM_TABLES → BitVec w} {t u : HashCore w} {l : Label}

/-- The step does not insert a key that is stored. -/
def insertsFresh (hashes : BitVec KEY_SIZE → Fin NUM_TABLES → BitVec w) (t : HashCore w) : Label → Bool
  | .core _ =>
    match t.lupReq, t.updReq with
    | [], request :: _ => request.op != .KV_INSERT || (t.table.cuckooTables.lookup hashes request.key).isNone
    | _, _ => true
  | _ => true

/-- What a step does to the tables. -/
inductive TableEffect (hashes : BitVec KEY_SIZE → Fin NUM_TABLES → BitVec w) (t u : HashCore w) : Prop where
  | none (htable : u.table = t.table)
  | insert (key : BitVec KEY_SIZE) (value : BitVec 16) (hfresh : t.table.cuckooTables.lookup hashes key = Option.none)
      (htable : u.table = (t.table.insert hashes key value).1)
  | delete (key : BitVec KEY_SIZE) (htable : u.table = (t.table.remove hashes key).1)

theorem core_tableEffect (undefined : BitVec 16) (hfresh : t.insertsFresh hashes (.core undefined) = true) :
    TableEffect hashes t (t.hashTableCore hashes undefined) := by
  cases hlup : t.lupReq with
  | cons request rest =>
    apply TableEffect.none
    simp only [hashTableCore, hlup]
  | nil =>
    cases hupd : t.updReq with
    | nil =>
      apply TableEffect.none
      simp only [hashTableCore, hlup, hupd]
    | cons request rest =>
      cases hop : request.op with
      | KV_INSERT =>
        simp only [insertsFresh, hlup, hupd, hop, bne_self_eq_false, Bool.false_or, Option.isNone_iff_eq_none]
          at hfresh
        apply TableEffect.insert request.key request.value hfresh
        simp only [hashTableCore, hlup, hupd, hop]
      | KV_DELETE =>
        apply TableEffect.delete request.key
        simp only [hashTableCore, hlup, hupd, hop]

theorem step_tableEffect (hfresh : t.insertsFresh hashes l = true) (hs : t.step hashes l = some u) :
    TableEffect hashes t u := by
  cases l with
  | core undefined =>
    cases hs
    exact core_tableEffect undefined hfresh
  | lookup | update =>
    cases hs
    exact .none rfl
  | readLookup | readUpdate =>
    simp only [step] at hs
    split at hs
    · cases hs
      exact .none rfl
    · cases hs

/-- As long as only keys that are not stored are inserted, the tables are a map, also after insertions that fail. -/
theorem represents_of_fresh (h : Reach (step hashes) (fun t l => t.insertsFresh hashes l = true) {} t) :
    ∃ m, RepresentsMap hashes t.table.cuckooTables m := by
  refine h.invariant (P := fun t => ∃ m, RepresentsMap hashes t.table.cuckooTables m) ?_ ?_
  · exact ⟨_, RepresentsMap.empty (e := ⟨0, 0, false⟩)⟩
  · intro t l u ⟨m, hm⟩ hfresh hs
    cases step_tableEffect hfresh hs with
    | none htable =>
      rw [htable]
      exact ⟨m, hm⟩
    | delete key htable =>
      rw [htable]
      exact ⟨_, remove_represents hm key⟩
    | insert key value hkey htable =>
      rw [htable]
      rw [lookup_represents hm] at hkey
      cases hsuccess : (t.table.insert hashes key value).2 with
      | true => exact ⟨_, insert_represents hm hkey hsuccess⟩
      | false => exact ⟨_, (insert_fails hm hkey hsuccess).represents⟩

/-- In every run in which only keys that are not stored are inserted, a failed insertion keeps what lookups find exactly
when its displacements end with the new key. -/
theorem failed_insert_keeps_iff (tabulationTable : Fin NUM_TABLES → Bool → Nat → BitVec MAX_ADDRESS_BITS)
    (h : Reach (step (calculateHashes tabulationTable))
      (fun t l => t.insertsFresh (calculateHashes tabulationTable) l = true) {} t)
    (key : BitVec KEY_SIZE) (value : BitVec 16)
    (hfail : (t.table.insert (calculateHashes tabulationTable) key value).2 = false) :
    ((∀ k, (t.table.insert (calculateHashes tabulationTable) key value).1.cuckooTables.lookup
          (calculateHashes tabulationTable) k = t.table.cuckooTables.lookup (calculateHashes tabulationTable) k) ∧
        (t.table.insert (calculateHashes tabulationTable) key value).1.cuckooTables.lookup
          (calculateHashes tabulationTable) key = none) ↔
      t.table.cuckooTables.lookup (calculateHashes tabulationTable) key = none ∧
        (lost (calculateHashes tabulationTable) t.table key value).key = key := by
  obtain ⟨m, hm⟩ := represents_of_fresh h
  exact insert_fails_keeps_iff hm hfail

/-- `tabulation_table.txt`: for each table the random numbers of the bits that are 0 and of those that are 1. -/
def tabulationNumbers : List (List Nat) :=
  [[0,538,3094,1878,2182,896,192,2780,2782,3828,1570,2127,3403,141,218,2169,2749,31,1570,273,1710,2813,2412,3811,3465,
    2158,376,2678,1703,2872,3728,3121,1075,194,3014,1344,2591,3098,4059,1496,1011,4024,2960,3085,2668,297,2587,3623,
    1117,1787,3139,1956,973,1126,1471,682,1992,3676,3724,248,3705,2066,2114,1306],
   [4041,2023,1090,371,3882,302,2050,1573,1134,3743,2169,1902,3854,205,3119,3154,3390,513,64,2819,3556,2578,3015,2971,
    4093,3639,955,1254,1437,2102,2421,3465,1687,3446,1103,1701,2200,1916,1176,730,629,2341,3286,135,2189,2041,3913,
    3065,2271,3648,2559,3449,654,871,2927,534,372,1124,12,1696,110,2907,3841,982],
   [740,1300,3633,2670,615,2790,1580,1588,2046,604,2405,3463,2417,3913,2277,606,4027,1674,580,2313,1032,2000,1900,
    3936,516,818,1307,2577,519,2667,2546,3289,1015,1951,1594,832,116,3693,1746,581,3880,1680,537,3627,377,664,291,
    1496,1036,553,3207,1864,1431,1852,3313,3816,2669,881,2783,3722,1024,3526,1930,2072],
   [2459,3348,3095,1893,3896,2591,1799,3377,2822,2876,4043,3909,3486,1185,2201,2107,423,1695,2362,3590,1802,2989,3560,
    2931,3279,2893,3038,78,3629,2150,1897,267,2922,2002,2734,2793,817,3754,3546,3645,2228,570,1844,4052,882,1826,1293,
    2108,3610,1801,1915,3304,1495,866,4092,629,2582,2524,2,3,3167,2979,1307,1710],
   [2795,2787,840,3425,2903,3394,387,334,3129,2578,875,874,332,1592,3900,3881,1596,1102,2835,1163,3182,3210,1730,1155,
    794,46,785,4027,999,3357,558,1630,2461,724,3392,646,4046,1053,956,416,898,2599,2850,3255,2851,3084,2742,2594,231,
    2450,929,1305,2866,481,3123,2155,2268,2408,1350,2879,585,662,1987,3523],
   [3331,2280,3026,1294,554,2164,1272,2408,2122,1764,1060,1516,1609,1830,1949,1588,1143,320,1514,1040,2751,2769,2105,
    2984,2952,3869,1887,3850,1317,1885,2118,2708,1645,2480,4040,616,2744,1408,2218,2141,3396,61,1123,2633,2236,3759,
    1092,3973,1010,3456,2842,1866,3346,90,658,2895,2899,1788,2385,3079,4061,2849,1144,3087],
   [701,17,2030,327,667,3699,3207,3058,1787,25,2395,2123,273,2228,1596,884,1580,2567,2699,2905,2206,1148,3342,1523,
    2810,1270,38,425,2133,3178,903,226,289,656,2964,1216,207,1957,1872,2129,1828,615,1171,3414,2849,2366,2790,1356,
    235,4042,2221,6,3506,120,1546,2005,2360,3026,2782,2196,145,501,3986,771],
   [1439,2515,2488,515,2264,3907,1461,3432,3990,1060,1030,1738,3330,3677,1001,3115,2846,1850,1079,2725,477,858,465,
    2240,24,720,2454,1769,337,2815,1537,3425,506,3986,121,329,2024,3151,3825,1024,1473,3150,2047,3068,2752,2792,3099,
    148,944,907,2304,2673,2525,1521,920,957,2674,679,3047,654,195,2711,511,3887],
   [1983,2543,3743,73,2431,2956,2034,219,1808,2126,3161,267,1813,4002,1915,1347,1826,3044,841,701,1525,3849,3952,1044,
    288,507,2155,655,2120,430,3447,1509,1736,1340,2922,2362,3571,3105,3426,2866,1593,3830,2480,1483,2209,1863,1645,
    984,340,1726,1934,1186,429,886,3285,2160,2739,3537,998,2914,1079,1568,331,1883],
   [953,3257,2012,13,1090,2722,1741,765,3946,549,3259,3875,701,2482,261,1423,1197,2087,3382,3417,2975,1349,3285,2587,
    185,169,627,3141,252,2127,3805,903,837,364,2865,2893,2026,1072,2914,1549,821,952,1786,1923,3527,4002,1820,140,
    2145,129,3085,2423,3370,1349,950,2197,1763,1653,4044,3960,3483,3553,1276,607],
   [4086,2619,1917,3817,2829,3339,2218,2346,652,3871,3364,636,168,1407,450,395,2124,91,2299,3509,2117,2762,3019,2860,
    93,786,2748,1416,271,576,3772,907,1556,2400,685,107,2830,3122,2923,316,2415,3790,3808,1763,2072,3404,3765,2464,
    2964,2127,2010,661,3998,2352,1119,2176,2861,2732,399,2247,2501,2735,2028,2341],
   [2412,1807,619,2057,2995,129,211,2138,1313,143,1004,439,1568,2260,2446,2503,3830,3162,2101,1993,2662,2854,1669,
    1994,1965,2910,2188,1133,2480,1147,2881,2172,3843,964,1693,2447,3207,3769,2791,3363,2160,943,588,3684,1029,2668,
    19,3833,1127,3517,1142,3901,2075,503,1705,2877,1787,441,3138,409,1807,1411,1216,3103],
   [1386,1354,227,2347,1987,829,468,3990,3541,2014,1504,3296,664,653,236,611,1917,1558,3619,1737,1688,2667,1262,246,
    3335,3676,3766,3691,3154,699,2344,128,3290,2138,3529,1135,3561,2403,1594,3325,2153,3849,1720,2375,3068,3607,1384,
    776,3043,2944,3601,298,2908,3600,1472,368,659,1707,394,2763,2304,3330,3597,3151],
   [2601,3672,3597,1992,463,1546,1567,2816,498,314,586,1956,2902,974,1601,3997,2575,2790,3722,1484,3519,3253,1756,301,
    2042,1981,1846,2046,3034,3820,1229,598,450,328,3983,1671,976,3945,3413,811,530,804,1389,2357,1803,2398,1773,1508,
    1565,2458,1759,609,2745,4077,2859,1649,3478,3356,3249,1532,39,1965,2617,2648],
   [2641,3272,1545,1465,1595,1369,2840,593,1194,2731,3499,1289,590,2466,22,3771,1564,2115,1410,1081,1191,3414,509,
    2599,199,1876,1543,638,3095,2727,47,3255,2297,1182,1702,1313,2107,2945,3449,949,1904,1529,204,302,829,2319,3405,
    1730,3438,1200,742,1464,3826,2414,1511,1896,2571,3868,1662,206,1822,2440,3065,3539],
   [536,428,2725,3413,2380,2697,4022,77,3774,797,3963,2142,1141,2948,2418,3428,3418,2702,2991,2633,1431,2190,2720,
    1324,3560,1811,3760,1133,3898,480,1703,3425,3942,1363,2155,2195,3350,3808,2715,996,3856,2444,516,1011,3632,803,
    667,3424,2467,2552,3435,2751,1603,3568,2733,473,0,2769,2575,1861,2352,132,1439,3502],
   [1518,2709,2361,245,3049,1144,1812,722,376,3675,4064,2433,135,2830,1995,2332,3668,1779,2820,832,1973,1115,3879,
    1000,3904,1953,520,3938,3510,890,28,3205,206,3932,2627,2348,561,528,3377,2055,2686,2068,2156,484,3698,2739,1136,
    1583,1603,3404,995,505,2983,2654,824,3476,92,432,769,1478,3193,2945,2729,2379],
   [1438,643,1196,692,916,2749,1657,3631,2373,1400,1790,2865,3417,3243,3477,1155,1084,696,2185,299,4090,3072,500,674,
    1741,3167,874,1777,135,3806,434,1090,1974,3247,1054,876,1156,1559,852,3803,3129,2525,2358,1459,3718,810,467,3240,
    2859,74,3063,469,3665,2681,1416,1566,880,1356,72,3745,3217,1611,2990,3406]]

def tabulationTable (i : Fin NUM_TABLES) (bit : Bool) (k : Nat) : BitVec MAX_ADDRESS_BITS :=
  BitVec.ofNat MAX_ADDRESS_BITS ((tabulationNumbers.getD (2 * i.val + bit.toNat) []).getD k 0)

/-- Ten keys with the same address in every table, for the 64 entries of each table that 1000 sessions get. -/
def collidingKeys : List (BitVec KEY_SIZE) :=
  [0, 34843006377524652, 47230244936952593, 81290416185424612, 158318583933797130, 298742733983310849,
    587214766277787745, 1160207724403237075, 2316957220859524951, 4620989459015637241]

/-- The first nine of them are inserted, with their positions as values. -/
def fillSlots : List Label :=
  (collidingKeys.take NUM_TABLES).zipIdx.flatMap fun x =>
    [.update ⟨.KV_INSERT, x.1, BitVec.ofNat 16 x.2, .RX⟩, .core 0]

theorem fillSlots_run :
    (runIf (step (calculateHashes tabulationTable)) (fun t l => t.insertsFresh (calculateHashes tabulationTable) l = true)
        ({} : HashCore 6) fillSlots).map (fun t =>
      ((t.table.insert (calculateHashes tabulationTable) (collidingKeys.getD 9 0) 9).2,
        t.table.cuckooTables.lookup (calculateHashes tabulationTable) (collidingKeys.getD 2 0),
        (t.table.insert (calculateHashes tabulationTable) (collidingKeys.getD 9 0) 9).1.cuckooTables.lookup
          (calculateHashes tabulationTable) (collidingKeys.getD 2 0))) = some (false, some 2, none) := by
  decide +kernel

theorem failed_insert_loses_key : ¬ ∀ t : HashCore 6, Reach (step (calculateHashes tabulationTable)) anyStep {} t →
    ∀ (key : BitVec KEY_SIZE) (value : BitVec 16),
      (t.table.insert (calculateHashes tabulationTable) key value).2 = false →
      (∀ k, (t.table.insert (calculateHashes tabulationTable) key value).1.cuckooTables.lookup
          (calculateHashes tabulationTable) k = t.table.cuckooTables.lookup (calculateHashes tabulationTable) k) ∧
        (t.table.insert (calculateHashes tabulationTable) key value).1.cuckooTables.lookup
          (calculateHashes tabulationTable) key = none := by
  intro hall
  obtain ⟨t, ht, hx⟩ := Option.map_eq_some_iff.mp fillSlots_run
  simp only [Prod.mk.injEq] at hx
  obtain ⟨hfail, hbefore, hafter⟩ := hx
  have hsame := (hall t (reach_of_runIf ht).any _ _ hfail).1 (collidingKeys.getD 2 0)
  rw [hafter, hbefore] at hsame
  cases hsame

theorem failed_insert_keeps_iff_tenth : ∃ t : HashCore 6,
    t.table.cuckooTables.lookup (calculateHashes tabulationTable) (collidingKeys.getD 2 0) = some 2 ∧
    (((∀ k, (t.table.insert (calculateHashes tabulationTable) (collidingKeys.getD 9 0) 9).1.cuckooTables.lookup
          (calculateHashes tabulationTable) k = t.table.cuckooTables.lookup (calculateHashes tabulationTable) k) ∧
        (t.table.insert (calculateHashes tabulationTable) (collidingKeys.getD 9 0) 9).1.cuckooTables.lookup
          (calculateHashes tabulationTable) (collidingKeys.getD 9 0) = none) ↔
      t.table.cuckooTables.lookup (calculateHashes tabulationTable) (collidingKeys.getD 9 0) = none ∧
        (lost (calculateHashes tabulationTable) t.table (collidingKeys.getD 9 0) 9).key = collidingKeys.getD 9 0) := by
  obtain ⟨t, ht, hx⟩ := Option.map_eq_some_iff.mp fillSlots_run
  simp only [Prod.mk.injEq] at hx
  exact ⟨t, hx.2.1, failed_insert_keeps_iff tabulationTable (reach_of_runIf ht) _ _ hx.1⟩

end HashCore

end FpgaNetworkStack.Toe
