import FpgaNetworkStack.Icmp.Queues

/-!
# What the queues hold of the echo packets

A packet waits in `packageBuffer1` for its verdict, which comes when all of it is there.  What is left of the valid ones
goes to `insertChecksum`, and there is a checksum for each of them.
-/

namespace FpgaNetworkStack.Icmp

open Lib
open Axi (Word Ends Framed overlay)

/-- The words of a packet that has all of its header and fits into `packageBuffer1`. -/
structure Sized (ws : List (Word 8)) : Prop where
  ends : Ends ws
  least : 4 ≤ ws.length
  most : ws.length ≤ 64

variable {ws : List (Word 8)}

theorem Ends.cons_inv {w : Word 8} (h : Ends (w :: ws)) :
    w.last = true ∧ ws = [] ∨ w.last = false ∧ Ends ws := by
  cases h with
  | last hlast => exact .inl ⟨hlast, rfl⟩
  | cons hlast hrest => exact .inr ⟨hlast, hrest⟩

theorem Ends.snoc (h : ∀ w ∈ ws, w.last = false) {w : Word 8} (hw : w.last = true) :
    Ends (ws ++ [w]) := by
  induction ws with
  | nil => exact .last hw
  | cons v ws ih =>
    obtain ⟨hv, hws⟩ := List.forall_mem_cons.mp h
    exact .cons hv (ih hws)

theorem Sized.uncons (h : Sized ws) : ∃ w rest, ws = w :: rest ∧ w.last = false ∧ Ends rest := by
  obtain ⟨hends, hlow, -⟩ := h
  cases hends with
  | last _ => exact absurd hlow (by rw [List.length_singleton]; decide)
  | cons hlast hrest => exact ⟨_, _, rfl, hlast, hrest⟩

variable {ps : List (List (Word 8))}

theorem sized_head (hps : ∀ p ∈ ps, Sized p) {w : Word 8} {more : List (Word 8)}
    (h : ps.flatten = w :: more) :
    ∃ rest, ∃ ps' : List (List (Word 8)), w.last = false ∧ Ends rest ∧ Sized (w :: rest) ∧ more = rest ++ ps'.flatten ∧ ∀ p ∈ ps', Sized p := by
  cases ps with
  | nil => cases h
  | cons p ps =>
    obtain ⟨hp, hps'⟩ := List.forall_mem_cons.mp hps
    obtain ⟨v, rest, rfl, hlast, hrest⟩ := hp.uncons
    rw [List.flatten_cons, List.cons_append] at h
    obtain ⟨rfl, rfl⟩ := List.cons.inj h
    exact ⟨rest, ps, hlast, hrest, hp, rfl, hps'⟩

/-! ## `check_icmp_checksum` -/

/-- `q` has been written of the packet at hand, and `rest` has not been read. -/
inductive CheckIcmp.At (s : CheckIcmp) : List (Word 8) → List (Word 8) → Prop
  | idle (hwrite : s.writeLastOne = false) (hcompute : s.computeCs = false) (hcount : s.wordCount = 0) : At s [] []
  | reading {q rest : List (Word 8)} (hwrite : s.writeLastOne = false) (hcompute : s.computeCs = false)
      (hcount : s.wordCount.toNat = q.length + 1) (hprev : s.prevWord.last = false) (hq : ∀ w ∈ q, w.last = false)
      (hrest : Ends rest) (hlow : 4 ≤ q.length + 1 + rest.length) (hhigh : q.length + 1 + rest.length ≤ 64) : At s q rest
  | last {q : List (Word 8)} (hwrite : s.writeLastOne = true) (hcompute : s.computeCs = true) (hcount : s.wordCount = 0)
      (hprev : s.prevWord.last = true) (hq : ∀ w ∈ q, w.last = false) (hlow : 4 ≤ q.length + 1)
      (hhigh : q.length + 1 ≤ 64) : At s q []
  | computing {q : List (Word 8)} (hwrite : s.writeLastOne = false) (hcompute : s.computeCs = true)
      (hcount : s.wordCount = 0) (hq : Sized q) : At s q []

theorem CheckIcmp.At.length_le {s : CheckIcmp} {q rest : List (Word 8)} (h : s.At q rest) : q.length ≤ 64 := by
  cases h with
  | idle _ _ _ => decide
  | reading | last => omega
  | computing _ _ _ hq => exact hq.most

theorem CheckIcmp.word_behind {s : CheckIcmp} (hcount : s.wordCount ≠ 0) (hprev : s.prevWord.last = false) (w : Word 8) :
    ∃ v, (s.word w).2 = [v] ∧ v.last = false ∧ (s.word w).1.prevWord.last = w.last := by
  by_cases h1 : s.wordCount = 1
  · exact ⟨s.prevWord, by simp [CheckIcmp.word, h1], hprev, by simp [CheckIcmp.word, h1]⟩
  · by_cases h2 : s.wordCount = 2
    · exact ⟨withDestination s.prevWord w, by simp [CheckIcmp.word, h2], rfl, by simp [CheckIcmp.word, h2]; rfl⟩
    · refine ⟨s.prevWord, ?_, hprev, ?_⟩ <;> simp only [CheckIcmp.word, if_neg hcount, if_neg h1, if_neg h2]

/-- What a call does: it reads and writes words of the packet, or tells whether it is valid. -/
inductive CheckIcmp.Calls (s : CheckIcmp) (dataIn later q rest : List (Word 8))
    (r : CheckIcmp × List (Word 8) × CheckIcmpOut) : Prop
  | waits (hr : r = (s, dataIn, {})) (hempty : dataIn = [])
  | words {q' rest' : List (Word 8)} {ps : List (List (Word 8))} (hat : r.1.At q' rest')
      (hinput : r.2.1 ++ later = rest' ++ ps.flatten) (hps : ∀ p ∈ ps, Sized p) (hdata : q ++ r.2.2.dataOut = q')
      (hvalid : r.2.2.validFifoOut = []) (hchecksum : r.2.2.checksumFifoOut = [])
      (hne : ¬(r.1 = s ∧ r.2.1 = dataIn))
  | verdict (valid : Bool) (hq : Sized q) (hrest : rest = []) (hat : r.1.At [] []) (hinput : r.2.1 = dataIn)
      (hdata : r.2.2.dataOut = []) (hvalid : r.2.2.validFifoOut = [valid])
      (hchecksum : r.2.2.checksumFifoOut.length = if valid then 1 else 0)

theorem check_calls {s : CheckIcmp} {q rest dataIn later : List (Word 8)} (h : s.At q rest)
    (hinput : dataIn ++ later = rest ++ ps.flatten) (hps : ∀ p ∈ ps, Sized p) :
    s.Calls dataIn later q rest (checkIcmpChecksum s dataIn) := by
  cases h with
  | idle hwrite hcompute hcount =>
    cases dataIn with
    | nil => exact .waits (by simp [checkIcmpChecksum, hwrite, hcompute]) rfl
    | cons w dataIn =>
      obtain ⟨rest, ps', hlast, hrest, hsized, hmore, hps'⟩ := sized_head hps hinput.symm
      have hlow := hsized.least
      have hhigh := hsized.most
      rw [List.length_cons] at hlow hhigh
      rw [check_read hwrite hcompute, hlast]
      have hword : s.word w = ({ s with sums := List.replicate 4 0, prevWord := w }, []) := by
        rw [CheckIcmp.word, if_pos hcount]
      rw [hword, hcount]
      refine .words (.reading rfl rfl rfl hlast (fun w hw => absurd hw List.not_mem_nil) hrest ?_ ?_) hmore hps' rfl
        rfl rfl ?_
      · show 4 ≤ 0 + 1 + rest.length
        omega
      · show 0 + 1 + rest.length ≤ 64
        omega
      · exact fun heq => absurd heq.2 (List.cons_ne_self w dataIn).symm
  | @reading q rest hwrite hcompute hcount hprev hq hrest hlow hhigh =>
    cases dataIn with
    | nil => exact .waits (by simp [checkIcmpChecksum, hwrite, hcompute]) rfl
    | cons w dataIn =>
      obtain ⟨v, rest, rfl⟩ : ∃ v rest', rest = v :: rest' := by cases hrest <;> exact ⟨_, _, rfl⟩
      obtain ⟨rfl, hmore⟩ := List.cons.inj hinput
      rw [List.length_cons] at hlow hhigh
      have hne : s.wordCount ≠ 0 := by
        intro heq
        rw [heq] at hcount
        exact absurd hcount (Nat.zero_ne_add_one _)
      obtain ⟨x, hx, hxlast, hprev'⟩ := CheckIcmp.word_behind hne hprev w
      have hqx : ∀ u ∈ q ++ [x], u.last = false := by
        intro u hu
        rcases List.mem_append.mp hu with hu | hu
        · exact hq u hu
        · rw [List.mem_singleton.mp hu]
          exact hxlast
      rw [check_read hwrite hcompute, hx]
      refine .words (show CheckIcmp.At _ (q ++ [x]) rest from ?_) hmore hps rfl rfl rfl
        (fun heq => absurd heq.2 (List.cons_ne_self w dataIn).symm)
      rcases Ends.cons_inv hrest with ⟨hlast, rfl⟩ | ⟨hlast, hends⟩
      · rw [hlast]
        refine .last rfl rfl rfl (hprev'.trans hlast) hqx ?_ ?_
        · rw [List.length_append, List.length_singleton]
          exact hlow
        · rw [List.length_append, List.length_singleton]
          exact hhigh
      · rw [hlast]
        have hnext : (s.wordCount + 1).toNat = q.length + 2 := by
          rw [BitVec.toNat_add, hcount]
          show (q.length + 1 + 1) % 65536 = q.length + 2
          omega
        refine .reading rfl rfl ?_ (hprev'.trans hlast) hqx hends ?_ ?_ <;>
          rw [List.length_append, List.length_singleton]
        · exact hnext
        · omega
        · omega
  | @last q hwrite hcompute hcount hprev hq hlow hhigh =>
    have hcall : checkIcmpChecksum s dataIn = ({ s with writeLastOne := false }, dataIn, { dataOut := [s.prevWord] }) := by
      simp [checkIcmpChecksum, hwrite]
    rw [hcall]
    refine .words (.computing rfl hcompute hcount ⟨Ends.snoc hq hprev, ?_, ?_⟩) hinput hps rfl rfl rfl ?_
    · rw [List.length_append]
      exact hlow
    · rw [List.length_append]
      exact hhigh
    · intro heq
      have hfalse := congrArg CheckIcmp.writeLastOne heq.1
      rw [hwrite] at hfalse
      cases hfalse
  | @computing q hwrite hcompute hcount hq =>
    have hcall : checkIcmpChecksum s dataIn = (s.compute.1, dataIn, s.compute.2) := by
      simp [checkIcmpChecksum, hwrite, hcompute]
    rw [hcall]
    -- three steps of the sum, and the verdict
    have hstep {t : CheckIcmp} (ht : t = { s with
          sums := t.sums, icmpChecksum := t.icmpChecksum, state := s.state + 1 }) (hs : s.compute = (t, {})) :
        s.Calls dataIn later q [] (s.compute.1, dataIn, s.compute.2) := by
      rw [hs]
      refine .words (.computing ?_ ?_ ?_ hq) hinput hps (List.append_nil q) rfl rfl ?_
      · rw [ht]
        exact hwrite
      · rw [ht]
        exact hcompute
      · rw [ht]
        exact hcount
      · intro heq
        have hstate := congrArg CheckIcmp.state heq.1
        rw [ht] at hstate
        exact absurd hstate (by show s.state + 1 ≠ s.state; simp)
    by_cases h0 : s.state = 0
    · exact hstep rfl (by rw [CheckIcmp.compute, if_pos h0])
    · by_cases h1 : s.state = 1
      · exact hstep rfl (by rw [CheckIcmp.compute, if_neg h0, if_pos h1])
      · by_cases h2 : s.state = 2
        · exact hstep rfl (by rw [CheckIcmp.compute, if_neg h0, if_neg h1, if_pos h2])
        · rw [CheckIcmp.compute, if_neg h0, if_neg h1, if_neg h2]
          dsimp only
          split
          · exact .verdict true hq rfl (.idle hwrite rfl hcount) rfl rfl rfl rfl
          · exact .verdict false hq rfl (.idle hwrite rfl hcount) rfl rfl rfl rfl

/-! ## `dropper` -/

/-- The words of the valid packets. -/
def chosen : List Bool → List (List (Word 8)) → List (Word 8)
  | true :: valids, p :: ps => p ++ chosen valids ps
  | false :: valids, _ :: ps => chosen valids ps
  | _, _ => []

theorem chosen_snoc {valids : List Bool} (h : valids.length = ps.length) (valid : Bool)
    (p : List (Word 8)) : chosen (valids ++ [valid]) (ps ++ [p]) = chosen valids ps ++ if valid then p else [] := by
  induction valids generalizing ps with
  | nil =>
    rw [List.length_eq_zero_iff.mp h.symm]
    cases valid
    · rfl
    · exact List.append_nil p
  | cons v valids ih =>
    obtain ⟨p', ps, rfl⟩ := List.exists_cons_of_length_eq_add_one h.symm
    have hmore := ih (Nat.succ.inj h)
    cases v with
    | true =>
      show p' ++ chosen (valids ++ [valid]) (ps ++ [p]) = p' ++ chosen valids ps ++ _
      rw [hmore, List.append_assoc]
    | false => exact hmore

/-- `r` is left of the packet at hand. -/
def Dropper.Left (s : Dropper) (r : List (Word 8)) : Prop := if s.isFirstWord then r = [] else Ends r

def Dropper.passed (s : Dropper) (r : List (Word 8)) : List (Word 8) := if s.drop then [] else r

/-- What a call does: nothing without a verdict, else a word moves on. -/
inductive Dropper.Calls (s : Dropper) (i : DropperIn) (r : List (Word 8)) (qs : List (List (Word 8))) (q : List (Word 8))
    (out : Dropper × DropperIn × List (Word 8)) : Prop
  | waits (hout : out = (s, i, [])) (hr : r = []) (hqs : qs = [])
  | moves {r' : List (Word 8)} {qs' : List (List (Word 8))} (hdata : out.2.1.dataIn = r' ++ qs'.flatten ++ q)
      (hleft : out.1.Left r') (hsized : ∀ p ∈ qs', Sized p) (hvalid : out.2.1.validFifoIn.length = qs'.length)
      (hshort : out.2.1.validFifoIn.length ≤ i.validFifoIn.length)
      (hsame : out.2.2 ++ (out.1.passed r' ++ chosen out.2.1.validFifoIn qs') = s.passed r ++ chosen i.validFifoIn qs)
      (hless : out.2.1.dataIn.length < i.dataIn.length) (hone : out.2.2.length ≤ 1)

theorem Dropper.eq_init {s : Dropper} (h : s.isFirstWord = true) : s = {} := by
  obtain ⟨first, drop, fresh⟩ := s
  cases h
  cases fresh rfl
  rfl

theorem dropper_calls (unread : Bool) {s : Dropper} {r q : List (Word 8)} {qs : List (List (Word 8))} {valids : List Bool}
    (hleft : s.Left r) (hqs : ∀ p ∈ qs, Sized p) (hlen : valids.length = qs.length) :
    s.Calls ⟨r ++ qs.flatten ++ q, valids⟩ r qs q (dropper unread s ⟨r ++ qs.flatten ++ q, valids⟩) := by
  cases hfirst : s.isFirstWord with
  | true =>
    have hr : r = [] := by
      rw [Dropper.Left, hfirst] at hleft
      exact hleft
    subst hr
    cases Dropper.eq_init hfirst
    cases qs with
    | nil =>
      rw [List.length_eq_zero_iff.mp hlen]
      refine .waits ?_ rfl rfl
      cases q with
      | nil => rfl
      | cons w q => cases unread <;> rfl
    | cons p qs =>
      obtain ⟨valid, valids, rfl⟩ := List.exists_cons_of_length_eq_add_one hlen
      obtain ⟨hp, hqs'⟩ := List.forall_mem_cons.mp hqs
      obtain ⟨w, rest, rfl, hlast, hrest⟩ := hp.uncons
      have hcall : dropper unread {} ⟨[] ++ ((w :: rest) :: qs).flatten ++ q, valid :: valids⟩ =
          (⟨false, !valid, Bool.noConfusion⟩, ⟨rest ++ qs.flatten ++ q, valids⟩, if valid then [w] else []) := by
        simp [dropper, hlast]
      rw [hcall]
      refine .moves (show rest ++ qs.flatten ++ q = rest ++ qs.flatten ++ q from rfl) hrest hqs' (Nat.succ.inj hlen) (Nat.le_succ _) ?_ ?_ ?_
      · cases valid <;> rfl
      · simp
      · cases valid
        · exact Nat.zero_le 1
        · exact Nat.le_refl 1
  | false =>
    have hends : Ends r := by
      rw [Dropper.Left, hfirst] at hleft
      exact hleft
    obtain ⟨w, rest, rfl⟩ : ∃ w rest, r = w :: rest := by cases hends <;> exact ⟨_, _, rfl⟩
    have hcall : dropper unread s ⟨(w :: rest) ++ qs.flatten ++ q, valids⟩ =
        (if w.last then {} else s, ⟨rest ++ qs.flatten ++ q, valids⟩, if s.drop then [] else [w]) := by
      simp [dropper, hfirst]
    rw [hcall]
    have hone : (if s.drop then [] else [w] : List (Word 8)).length ≤ 1 := by
      cases s.drop
      · exact Nat.le_refl 1
      · exact Nat.zero_le 1
    rcases Ends.cons_inv hends with ⟨hlast, rfl⟩ | ⟨hlast, hmore⟩
    · rw [hlast, if_pos rfl]
      refine .moves (show [] ++ qs.flatten ++ q = [] ++ qs.flatten ++ q from rfl) rfl hqs hlen (Nat.le_refl _) ?_ ?_ hone
      · unfold Dropper.passed
        cases s.drop <;> rfl
      · simp
    · rw [hlast, if_neg Bool.false_ne_true]
      refine .moves (show rest ++ qs.flatten ++ q = rest ++ qs.flatten ++ q from rfl) ?_ hqs hlen (Nat.le_refl _) ?_ ?_ hone
      · rw [Dropper.Left, hfirst]
        exact hmore
      · unfold Dropper.passed
        cases s.drop <;> rfl
      · simp

/-! ## The invariant -/

/-- What is left of the valid packets behind the verdicts comes to `insertChecksum` with a checksum for each packet. -/
structure EchoParts (n : IcmpNet) (r : List (Word 8)) (qs : List (List (Word 8))) (q rest : List (Word 8))
    (ps : List (List (Word 8))) : Prop where
  input : n.dataIn ++ n.dataLater = rest ++ ps.flatten
  later : ∀ p ∈ ps, Sized p
  check : n.check.At q rest
  buffer : n.packageBuffer1 = r ++ qs.flatten ++ q
  judged : ∀ p ∈ qs, Sized p
  verdicts : n.validFifo.length = qs.length
  left : n.drop.Left r
  replies : Walk (n.insert.count 0) (n.dataStreams 0 ++ (n.drop.passed r ++ chosen n.validFifo qs)) 0
    (n.checksumStreams 0).length

def IcmpNet.Echo (n : IcmpNet) : Prop := ∃ r qs q rest ps, EchoParts n r qs q rest ps

theorem put_self {α : Type} (k : Fin 2) (queues : Fin 2 → List α) (items : List α) :
    put k queues items k = queues k ++ items := Function.update_self ..

theorem put_other {α : Type} {j k : Fin 2} (h : j ≠ k) (queues : Fin 2 → List α) (items : List α) :
    put k queues items j = queues j := Function.update_of_ne h ..

section

variable {n : IcmpNet} (unread : Bool)

theorem echo_start {ps : List (Framed 8)} (hps : ∀ p ∈ ps, Sized p.words) (qs : Fin 2 → List (Framed 8)) :
    (serverStart ps qs).Echo := by
  refine ⟨[], [], [], [], ps.map (·.words), ?_, ?_, .idle rfl rfl rfl, rfl, fun p hp => absurd hp List.not_mem_nil, rfl,
    rfl, .nil rfl rfl⟩
  · exact (List.flatMap_def ..)
  · exact List.forall_mem_map.mpr hps

theorem echo_check (h : n.Echo) : (n.call unread .check).Echo := by
  obtain ⟨r, qs, q, rest, ps, hparts⟩ := h
  obtain ⟨hinput, hps, hcheck, hbuffer, hqs, hverdicts, hleft, hreplies⟩ := hparts
  rcases check_calls hcheck hinput hps with ⟨hr, -⟩ | ⟨hat, hinput', hps', hdata, hvalid, hchecksum, -⟩ |
    ⟨valid, hq, hrest, hat, hinput', hdata, hvalid, hchecksum⟩
  · refine ⟨r, qs, q, rest, ps, ?_, hps, ?_, ?_, hqs, ?_, hleft, ?_⟩
    all_goals simp only [IcmpNet.call, hr, List.append_nil, put_self]
    · exact hinput
    · exact hcheck
    · exact hbuffer
    · exact hverdicts
    · exact hreplies
  · refine ⟨r, qs, _, _, _, hinput', hps', hat, ?_, hqs, ?_, hleft, ?_⟩
    all_goals simp only [IcmpNet.call, hvalid, hchecksum, List.append_nil, put_self]
    · rw [hbuffer, List.append_assoc, hdata]
    · exact hverdicts
    · exact hreplies
  · -- the packet is complete
    refine ⟨r, qs ++ [q], [], [], ps, ?_, hps, hat, ?_, ?_, ?_, hleft, ?_⟩
    · show (checkIcmpChecksum n.check n.dataIn).2.1 ++ n.dataLater = _
      rw [hinput', hinput, hrest]
    · show n.packageBuffer1 ++ _ = _
      rw [hdata, hbuffer, List.flatten_append, List.flatten_singleton, List.append_nil, List.append_nil, List.append_assoc]
    · exact List.forall_mem_append.mpr ⟨hqs, List.forall_mem_singleton.mpr hq⟩
    · show (n.validFifo ++ _).length = _
      rw [hvalid, List.length_append, List.length_append, hverdicts]
      rfl
    · have hpacket := Walk.rest hq.ends (c := 0) (by have := hq.least; omega) (by have := hq.most; omega)
      show Walk _ (n.dataStreams 0 ++ (n.drop.passed r ++ chosen (n.validFifo ++ _) _)) 0 (put 0 n.checksumStreams _ 0).length
      rw [hvalid, chosen_snoc hverdicts, put_self, List.length_append, hchecksum, ← List.append_assoc (n.drop.passed r),
        ← List.append_assoc]
      cases valid with
      | true => exact hreplies.append hpacket
      | false => exact hreplies.append (.nil rfl rfl)

theorem echo_dropper (h : n.Echo) : (n.call unread .dropper).Echo := by
  obtain ⟨r, qs, q, rest, ps, hparts⟩ := h
  obtain ⟨hinput, hps, hcheck, hbuffer, hqs, hverdicts, hleft, hreplies⟩ := hparts
  have hcalls := dropper_calls unread (q := q) hleft hqs hverdicts
  rw [← hbuffer] at hcalls
  rcases hcalls with ⟨hout, -, -⟩ | ⟨hdata, hleft', hqs', hvalid, -, hsame, -, -⟩
  · refine ⟨r, qs, q, rest, ps, hinput, hps, hcheck, ?_, hqs, ?_, ?_, ?_⟩
    all_goals simp only [IcmpNet.call, hout, List.append_nil, put_self]
    · exact hbuffer
    · exact hverdicts
    · exact hleft
    · exact hreplies
  · refine ⟨_, _, q, rest, ps, hinput, hps, hcheck, hdata, hqs', hvalid, hleft', ?_⟩
    show Walk _ (put 0 n.dataStreams _ 0 ++ _) 0 _
    rw [put_self, List.append_assoc]
    refine Eq.subst (motive := fun ws => Walk _ (n.dataStreams 0 ++ ws) 0 _) hsame.symm ?_
    exact hreplies

theorem echo_data {w : Word 8} {later : List (Word 8)} (h : n.Echo) (hlater : n.dataLater = w :: later) :
    IcmpNet.Echo { n with dataLater := later, dataIn := n.dataIn ++ [w] } := by
  obtain ⟨r, qs, q, rest, ps, hparts⟩ := h
  refine ⟨r, qs, q, rest, ps, ?_, hparts.later, hparts.check, hparts.buffer, hparts.judged, hparts.verdicts, hparts.left,
    hparts.replies⟩
  show n.dataIn ++ [w] ++ later = _
  rw [← hparts.input, hlater, List.append_assoc]
  rfl

end

theorem Echo.frame {n t : IcmpNet} (h : n.Echo) (hinput : t.dataIn = n.dataIn) (hlater : t.dataLater = n.dataLater)
    (hcheck : t.check = n.check) (hbuffer : t.packageBuffer1 = n.packageBuffer1) (hvalid : t.validFifo = n.validFifo)
    (hdrop : t.drop = n.drop)
    (hreplies : ∀ ws, Walk (n.insert.count 0) (n.dataStreams 0 ++ ws) 0 (n.checksumStreams 0).length →
      Walk (t.insert.count 0) (t.dataStreams 0 ++ ws) 0 (t.checksumStreams 0).length) : t.Echo := by
  obtain ⟨r, qs, q, rest, ps, hparts⟩ := h
  refine ⟨r, qs, q, rest, ps, ?_, hparts.later, ?_, ?_, hparts.judged, ?_, ?_, ?_⟩
  · rw [hinput, hlater]
    exact hparts.input
  · rw [hcheck]
    exact hparts.check
  · rw [hbuffer]
    exact hparts.buffer
  · rw [hvalid]
    exact hparts.verdicts
  · rw [hdrop]
    exact hparts.left
  · rw [hdrop, hvalid]
    exact hreplies _ hparts.replies

end FpgaNetworkStack.Icmp
