import FpgaNetworkStack.Icmp.EchoQueues

/-!
# What the queues hold of the error messages

For every packet `udpPortUnreachable` writes its words behind the ICMP header, three words of header, and one checksum;
`udpAddIpHeader` takes the words and the headers of one message after the other.
-/

namespace FpgaNetworkStack.Icmp

open Lib
open Axi (Word Ends Framed octets)

/-! ## Queues that are full -/

/-- The next write of `udpPortUnreachable` finds its queue full. -/
def Unreachable.Blocked (s : Unreachable) (full : UnreachableFull) : Prop :=
  match s.udpState with
  | .UDP_IDLE | .UDP_STREAM => full.data = true
  | .UDP_IP => full.data = true ∨ full.header = true
  | .UDP_CS => full.value = true

theorem unreachable_full (full : UnreachableFull) (s : Unreachable) (i : UnreachableIn) :
    udpPortUnreachable full s i = udpPortUnreachable {} s i ∨
      udpPortUnreachable full s i = (s, i, {}) ∧ s.Blocked full := by
  obtain ⟨data, header, value⟩ := full
  unfold Unreachable.Blocked
  cases hs : s.udpState with
  | UDP_IDLE =>
    cases data with
    | false => exact .inl (by simp only [udpPortUnreachable, hs])
    | true => exact .inr ⟨by simp [udpPortUnreachable, hs], rfl⟩
  | UDP_IP =>
    cases hi : i.input s.streamSource with
    | nil => exact .inl (by simp only [udpPortUnreachable, hs, hi])
    | cons w rest =>
      cases data with
      | true => exact .inr ⟨by simp [udpPortUnreachable, hs, hi], .inl rfl⟩
      | false =>
        cases header with
        | true => exact .inr ⟨by simp [udpPortUnreachable, hs, hi], .inr rfl⟩
        | false => exact .inl (by simp only [udpPortUnreachable, hs, hi])
  | UDP_STREAM =>
    cases hi : i.input s.streamSource with
    | nil => exact .inl (by simp only [udpPortUnreachable, hs, hi])
    | cons w rest =>
      cases data with
      | false => exact .inl (by simp only [udpPortUnreachable, hs, hi])
      | true => exact .inr ⟨by simp [udpPortUnreachable, hs, hi], rfl⟩
  | UDP_CS =>
    cases value with
    | false => exact .inl (by simp only [udpPortUnreachable, hs])
    | true => exact .inr ⟨by simp [udpPortUnreachable, hs], rfl⟩

theorem addIp_full (full : Bool) (s : AddIpHeader) (i : AddIpHeaderIn) :
    udpAddIpHeader full s i = udpAddIpHeader false s i ∨ udpAddIpHeader full s i = (s, i, []) ∧ full = true := by
  cases full with
  | false => exact .inl rfl
  | true =>
    refine .inr ⟨?_, rfl⟩
    obtain ⟨data, header⟩ := i
    cases hs : s.addIpState with
    | AIP_IDLE | AIP_IP => cases header <;> simp [udpAddIpHeader, hs]
    | AIP_MERGE => cases header <;> cases data <;> simp [udpAddIpHeader, hs]
    | AIP_STREAM => cases data <;> simp [udpAddIpHeader, hs]
    | AIP_RESIDUE => simp [udpAddIpHeader, hs]

/-! ## `udpAddIpHeader` -/

/-- The words of a message: the ICMP header and a packet of up to 1500 bytes. -/
structure Message (ws : List (Word 8)) : Prop where
  ends : Ends ws
  least : 5 ≤ ws.length
  most : ws.length ≤ 189

/-- With the next word to write of number `e`, there are `headers` and `data` to take, and `owed` checksums will be
needed for words that are not written. -/
inductive AddIpHeader.At (s : AddIpHeader) : (e headers : Nat) → (data : List (Word 8)) → (owed : Nat) → Prop
  | idle {e headers owed : Nat} {data : List (Word 8)} (hs : s.addIpState = .AIP_IDLE) (he : e = 0)
      {ms : List (List (Word 8))} (hms : ∀ m ∈ ms, Message m) (hheaders : headers = 3 * ms.length)
      (hdata : data = ms.flatten) (howed : owed = ms.length) : At s e headers data owed
  | ip {e headers owed : Nat} {data : List (Word 8)} (hs : s.addIpState = .AIP_IP) (he : e = 1) {m : List (Word 8)}
      {ms : List (List (Word 8))} (hm : Message m) (hms : ∀ m ∈ ms, Message m) (hheaders : headers = 2 + 3 * ms.length)
      (hdata : data = m ++ ms.flatten) (howed : owed = ms.length + 1) : At s e headers data owed
  | merge {e headers owed : Nat} {data : List (Word 8)} (hs : s.addIpState = .AIP_MERGE) (he : e = 2) {m : List (Word 8)}
      {ms : List (List (Word 8))} (hm : Message m) (hms : ∀ m ∈ ms, Message m) (hheaders : headers = 1 + 3 * ms.length)
      (hdata : data = m ++ ms.flatten) (howed : owed = ms.length + 1) : At s e headers data owed
  | stream {e headers owed : Nat} {data : List (Word 8)} (hs : s.addIpState = .AIP_STREAM) {r : List (Word 8)}
      (he : 3 ≤ e) (hsmall : e + r.length ≤ 191) {ms : List (List (Word 8))} (hr : Ends r) (hms : ∀ m ∈ ms, Message m)
      (hheaders : headers = 3 * ms.length) (hdata : data = r ++ ms.flatten) (howed : owed = ms.length) :
      At s e headers data owed
  | residue {e headers owed : Nat} {data : List (Word 8)} (hs : s.addIpState = .AIP_RESIDUE) (he : 3 ≤ e) (hsmall : e ≤ 191)
      {ms : List (List (Word 8))} (hms : ∀ m ∈ ms, Message m) (hheaders : headers = 3 * ms.length)
      (hdata : data = ms.flatten) (howed : owed = ms.length) : At s e headers data owed

section

variable {s : AddIpHeader} {e headers owed : Nat} {data m : List (Word 8)}

theorem AddIpHeader.At.more (h : s.At e headers data owed) (hm : Message m) : s.At e (headers + 3) (data ++ m) (owed + 1) := by
  have hall {ms : List (List (Word 8))} (hms : ∀ m ∈ ms, Message m) : ∀ m' ∈ ms ++ [m], Message m' :=
    List.forall_mem_append.mpr ⟨hms, List.forall_mem_singleton.mpr hm⟩
  have hlen (ms : List (List (Word 8))) : (ms ++ [m]).length = ms.length + 1 := by
    rw [List.length_append, List.length_singleton]
  have hflat (ms : List (List (Word 8))) : (ms ++ [m]).flatten = ms.flatten ++ m := by
    rw [List.flatten_append, List.flatten_singleton]
  cases h with
  | idle hs he hms hheaders hdata howed =>
    refine .idle hs he (hall hms) ?_ ?_ ?_
    · rw [hlen, hheaders, Nat.mul_succ]
    · rw [hflat, hdata]
    · rw [hlen, howed]
  | ip hs he hm' hms hheaders hdata howed =>
    refine .ip hs he hm' (hall hms) ?_ ?_ ?_
    · rw [hlen, hheaders, Nat.mul_succ, Nat.add_assoc]
    · rw [hflat, hdata, List.append_assoc]
    · rw [hlen, howed]
  | merge hs he hm' hms hheaders hdata howed =>
    refine .merge hs he hm' (hall hms) ?_ ?_ ?_
    · rw [hlen, hheaders, Nat.mul_succ, Nat.add_assoc]
    · rw [hflat, hdata, List.append_assoc]
    · rw [hlen, howed]
  | stream hs he hsmall hr hms hheaders hdata howed =>
    refine .stream hs he hsmall hr (hall hms) ?_ ?_ ?_
    · rw [hlen, hheaders, Nat.mul_succ]
    · rw [hflat, hdata, List.append_assoc]
    · rw [hlen, howed]
  | residue hs he hsmall hms hheaders hdata howed =>
    refine .residue hs he hsmall (hall hms) ?_ ?_ ?_
    · rw [hlen, hheaders, Nat.mul_succ]
    · rw [hflat, hdata]
    · rw [hlen, howed]

theorem ends_read {w : Word 8} {r rest later tail : List (Word 8)} (h : Ends r) (hdata : w :: rest ++ later = r ++ tail) :
    ∃ r', (w.last = true ∧ r' = [] ∨ w.last = false ∧ Ends r') ∧ r.length = r'.length + 1 ∧ rest ++ later = r' ++ tail := by
  cases h with
  | last hlast =>
    obtain ⟨rfl, hmore⟩ := List.cons.inj hdata
    exact ⟨[], .inl ⟨hlast, rfl⟩, rfl, hmore⟩
  | cons hlast hrest =>
    obtain ⟨rfl, hmore⟩ := List.cons.inj hdata
    exact ⟨_, .inr ⟨hlast, hrest⟩, rfl, hmore⟩

theorem Message.read {w : Word 8} {rest later tail : List (Word 8)} (h : Message m) (hdata : w :: rest ++ later = m ++ tail) :
    ∃ m', Ends m' ∧ m'.length ≤ 188 ∧ rest ++ later = m' ++ tail := by
  obtain ⟨hends, hlow, hhigh⟩ := h
  obtain ⟨m', hcases, hlen, hmore⟩ := ends_read hends hdata
  rcases hcases with ⟨-, rfl⟩ | ⟨-, hrest⟩
  · rw [List.length_nil] at hlen
    omega
  · exact ⟨m', hrest, by omega, hmore⟩

def AddIpHeader.Waiting (s : AddIpHeader) (i : AddIpHeaderIn) : Prop :=
  match s.addIpState with
  | .AIP_IDLE | .AIP_IP => i.header = []
  | .AIP_MERGE => i.header = [] ∨ i.data = []
  | .AIP_STREAM => i.data = []
  | .AIP_RESIDUE => False

/-- A call writes the next word of a message: `left` headers and the words `later` are still to come. -/
theorem addIp_call {header : List (BitVec 64)} {left : Nat} {later : List (Word 8)}
    (h : s.At e (header.length + left) (data ++ later) owed) :
    udpAddIpHeader false s ⟨data, header⟩ = (s, ⟨data, header⟩, []) ∧ s.Waiting ⟨data, header⟩ ∨
      ∃ t data' header' w owed', udpAddIpHeader false s ⟨data, header⟩ = (t, ⟨data', header'⟩, [w]) ∧
        (e ≤ 2 → w.last = false) ∧ e ≤ 1000 ∧ t.At (next e w) (header'.length + left) (data' ++ later) owed' ∧
        owed = owed' + (if e = 2 then 1 else 0) ∧ data'.length ≤ data.length ∧ header'.length ≤ header.length := by
  unfold AddIpHeader.Waiting
  cases h with
  | idle hs he hms hheaders hdata howed =>
    subst he
    cases header with
    | nil => exact .inl ⟨by simp only [udpAddIpHeader, hs], by rw [hs]⟩
    | cons x header =>
      rename_i ms
      obtain ⟨m, ms, rfl⟩ : ∃ m ms', ms = m :: ms' := by
        apply List.exists_cons_of_ne_nil
        rintro rfl
        rw [List.length_cons] at hheaders
        simp at hheaders
      obtain ⟨hm, hms'⟩ := List.forall_mem_cons.mp hms
      refine .inr ⟨{ s with addIpState := .AIP_IP, tempWord := withLength x }, data, header, withLength x, owed,
        by simp [udpAddIpHeader, hs], fun _ => rfl, by decide, .ip rfl rfl hm hms' ?_ hdata howed, rfl, Nat.le_refl _,
        Nat.le_succ _⟩
      rw [List.length_cons, List.length_cons] at hheaders
      omega
  | ip hs he hm hms hheaders hdata howed =>
    subst he
    cases header with
    | nil => exact .inl ⟨by simp only [udpAddIpHeader, hs], by rw [hs]⟩
    | cons x header =>
      refine .inr ⟨⟨.AIP_MERGE, withProtocol x, x.extractLsb' 32 32⟩, data, header, withProtocol x, owed,
        by simp [udpAddIpHeader, hs], fun _ => rfl, by decide, .merge rfl rfl hm hms ?_ hdata howed, rfl, Nat.le_refl _,
        Nat.le_succ _⟩
      rw [List.length_cons] at hheaders
      omega
  | merge hs he hm hms hheaders hdata howed =>
    subst he
    cases header with
    | nil => exact .inl ⟨by simp only [udpAddIpHeader, hs], by rw [hs]; exact .inl rfl⟩
    | cons x header =>
      cases data with
      | nil => exact .inl ⟨by simp only [udpAddIpHeader, hs], by rw [hs]; exact .inr rfl⟩
      | cons w data =>
        obtain ⟨m', hrest, hmost, hdata'⟩ := hm.read hdata
        have hnext : next 2 (halves (octets 4 s.sourceIP) w (Axi.length_octets 4 s.sourceIP)) = 3 := rfl
        refine .inr ⟨{ s with addIpState := .AIP_STREAM, tempWord := w }, data, header,
          halves (octets 4 s.sourceIP) w (Axi.length_octets 4 s.sourceIP), _, by simp [udpAddIpHeader, hs],
          fun _ => rfl, by decide, .stream rfl (by rw [hnext]) ?_ hrest hms ?_ hdata' rfl, howed, Nat.le_succ _,
          Nat.le_succ _⟩
        · rw [hnext]
          omega
        · rw [List.length_cons] at hheaders
          omega
  | stream hs he hsmall hr hms hheaders hdata howed =>
    cases data with
    | nil => exact .inl ⟨by simp only [udpAddIpHeader, hs], by rw [hs]⟩
    | cons w data =>
      obtain ⟨r', hends, hlen, hdata'⟩ := ends_read hr hdata
      have hlate : ¬e ≤ 2 := by omega
      have howes : owed = owed + if e = 2 then 1 else 0 := by rw [if_neg (by omega)]; rfl
      have hsame : (halves (upperHalf s.tempWord) w (length_upperHalf s.tempWord)).last = false := rfl
      rcases hends with ⟨hlast, rfl⟩ | ⟨hlast, hmore⟩
      · cases hempty : w.emptyFrom 4 with
        | true =>
          exact .inr ⟨{ s with addIpState := .AIP_IDLE, tempWord := w }, data, header, lastHalves s.tempWord w, owed,
            by simp [udpAddIpHeader, hs, hlast, hempty], fun h => absurd h hlate, by omega,
            .idle rfl rfl hms hheaders hdata' howed, howes, Nat.le_succ _, Nat.le_refl _⟩
        | false =>
          refine .inr ⟨{ s with addIpState := .AIP_RESIDUE, tempWord := w }, data, header,
          halves (upperHalf s.tempWord) w (length_upperHalf s.tempWord), owed,
            by simp [udpAddIpHeader, hs, hlast, hempty], fun h => absurd h hlate, by omega,
            .residue rfl ?_ ?_ hms hheaders hdata' howed, howes, Nat.le_succ _, Nat.le_refl _⟩ <;>
            rw [next, hsame, if_neg Bool.false_ne_true]
          · omega
          · rw [List.length_nil] at hlen
            omega
      · refine .inr ⟨{ s with addIpState := .AIP_STREAM, tempWord := w }, data, header,
            halves (upperHalf s.tempWord) w (length_upperHalf s.tempWord), owed,
          by simp [udpAddIpHeader, hs, hlast], fun h => absurd h hlate, by omega,
          .stream rfl ?_ ?_ hmore hms hheaders hdata' howed, howes, Nat.le_succ _, Nat.le_refl _⟩ <;>
          rw [next, hsame, if_neg Bool.false_ne_true]
        · omega
        · omega
  | residue hs he hsmall hms hheaders hdata howed =>
    have hlate : ¬e ≤ 2 := by omega
    refine .inr ⟨{ s with addIpState := .AIP_IDLE }, data, header, residue s.tempWord, owed,
      by simp [udpAddIpHeader, hs], fun h => absurd h hlate, by omega, .idle rfl rfl hms hheaders hdata howed, ?_,
      Nat.le_refl _, Nat.le_refl _⟩
    rw [if_neg (by omega)]
    rfl

theorem messages_nil {ws r : List (Word 8)} {ms : List (List (Word 8))} (hms : ∀ m ∈ ms, Message m) (hr : Ends r)
    (hws : ws = [] ∨ Ends ws) (hdata : ws = r ++ ms.flatten) : ms = [] ∧ ws = r := by
  have hends : Ends ws := by
    refine hws.resolve_left fun hnil => ?_
    rw [hnil] at hdata
    rw [(List.append_eq_nil_iff.mp hdata.symm).1] at hr
    cases hr
  obtain ⟨heq, hnil⟩ := Ends.append_inj hends hr ((List.append_nil ws).trans hdata)
  refine ⟨?_, heq⟩
  cases ms with
  | nil => rfl
  | cons m ms =>
    have hm := (hms m List.mem_cons_self).least
    rw [List.flatten_cons] at hnil
    rw [(List.append_eq_nil_iff.mp hnil.symm).1] at hm
    exact absurd hm (by decide)

/-- When the process waits there is room in its queues, and the rest of the message at hand has not been written. -/
theorem AddIpHeader.At.starved {header : List (BitVec 64)} {left : Nat} {ws : List (Word 8)}
    (h : s.At e (header.length + left) (data ++ ws) owed) (hwait : s.Waiting ⟨data, header⟩) (hleft : left ≤ 3)
    (hws : ws = [] ∨ Ends ws) :
    header.length ≤ 1 ∧ data.length ≤ 189 ∧ owed ≤ 1 ∧ (e ≠ 0 → left ≠ 0 ∨ ws ≠ []) := by
  unfold AddIpHeader.Waiting at hwait
  have hne {r : List (Word 8)} (hr : Ends r) : r ≠ [] := by
    rintro rfl
    cases hr
  cases h with
  | idle hs he hms hheaders hdata howed =>
    rename_i ms
    rw [hs] at hwait
    rw [show header = [] from hwait, List.length_nil] at hheaders ⊢
    have hone : ms.length ≤ 1 := by omega
    have hlen := congrArg List.length hdata
    rw [List.length_append] at hlen
    refine ⟨by decide, ?_, by omega, fun hne => absurd he hne⟩
    match ms, hone with
    | [], _ =>
      rw [List.flatten_nil, List.length_nil] at hlen
      omega
    | [m], _ =>
      have hmost := (hms m List.mem_cons_self).most
      rw [List.flatten_singleton] at hlen
      omega
  | ip hs he hm hms hheaders hdata howed =>
    rename_i m ms
    rw [hs] at hwait
    rw [show header = [] from hwait, List.length_nil] at hheaders ⊢
    have hnil : ms = [] := List.length_eq_zero_iff.mp (by omega)
    have hlen := congrArg List.length hdata
    rw [hnil, List.flatten_nil, List.append_nil, List.length_append] at hlen
    have hmost := hm.most
    exact ⟨by decide, by omega, by rw [howed, hnil]; decide, fun _ => .inl (by omega)⟩
  | merge hs he hm hms hheaders hdata howed =>
    rename_i m ms
    rw [hs] at hwait
    rcases hwait with hheader | hempty
    · rw [show header = [] from hheader, List.length_nil] at hheaders ⊢
      have hnil : ms = [] := List.length_eq_zero_iff.mp (by omega)
      have hlen := congrArg List.length hdata
      rw [hnil, List.flatten_nil, List.append_nil, List.length_append] at hlen
      have hmost := hm.most
      exact ⟨by decide, by omega, by rw [howed, hnil]; decide, fun _ => .inl (by omega)⟩
    · rw [show data = [] from hempty] at hdata ⊢
      obtain ⟨hnil, heq⟩ := messages_nil hms hm.ends hws hdata
      rw [hnil, List.length_nil] at hheaders howed
      exact ⟨by omega, by decide, by omega, fun _ => .inr (by rw [heq]; exact hne hm.ends)⟩
  | stream hs he hsmall hr hms hheaders hdata howed =>
    rename_i r ms
    rw [hs] at hwait
    rw [show data = [] from hwait] at hdata ⊢
    obtain ⟨hnil, heq⟩ := messages_nil hms hr hws hdata
    rw [hnil, List.length_nil] at hheaders howed
    exact ⟨by omega, by decide, by omega, fun _ => .inr (by rw [heq]; exact hne hr)⟩
  | residue hs he hsmall hms hheaders hdata howed =>
    rw [hs] at hwait
    exact hwait.elim

/-- When all checksums are needed for words that have been written, nothing is left but the rest of one message. -/
theorem AddIpHeader.At.single (h : s.At e headers data 0) : headers = 0 ∧ data.length ≤ 188 := by
  cases h with
  | idle hs he hms hheaders hdata howed =>
    rw [List.length_eq_zero_iff.mp howed.symm] at hheaders hdata
    exact ⟨hheaders, by rw [hdata]; decide⟩
  | ip hs he hm hms hheaders hdata howed => exact absurd howed.symm (Nat.succ_ne_zero _)
  | merge hs he hm hms hheaders hdata howed => exact absurd howed.symm (Nat.succ_ne_zero _)
  | stream hs he hsmall hr hms hheaders hdata howed =>
    rw [List.length_eq_zero_iff.mp howed.symm] at hheaders hdata
    rw [List.flatten_nil, List.append_nil] at hdata
    exact ⟨hheaders, by rw [hdata]; omega⟩
  | residue hs he hsmall hms hheaders hdata howed =>
    rw [List.length_eq_zero_iff.mp howed.symm] at hheaders hdata
    exact ⟨hheaders, by rw [hdata]; decide⟩

end

/-! ## `udpPortUnreachable` -/

/-- The words of header and the checksum that are still to be written for the packet at hand. -/
def Unreachable.headers (s : Unreachable) : Nat := if s.udpState = .UDP_IP then 3 - s.ipWordCounter.toNat else 0

def Unreachable.values (s : Unreachable) : Nat := if s.udpState = .UDP_IDLE then 0 else 1

theorem Unreachable.headers_le (s : Unreachable) : s.headers ≤ 3 := by
  rw [Unreachable.headers]
  split
  · exact Nat.sub_le 3 _
  · exact Nat.zero_le 3

theorem Unreachable.values_le (s : Unreachable) : s.values ≤ 1 := by
  rw [Unreachable.values]
  split
  · exact Nat.zero_le 1
  · exact Nat.le_refl 1

theorem Unreachable.Pending.nil_or_ends {s : Unreachable} {ws : List (Word 8)} (h : s.Pending ws) : ws = [] ∨ Ends ws := by
  unfold Unreachable.Pending at h
  cases hs : s.udpState with
  | UDP_IDLE | UDP_CS =>
    rw [hs] at h
    exact .inl h
  | UDP_IP =>
    rw [hs] at h
    exact .inr h.1
  | UDP_STREAM =>
    rw [hs] at h
    exact .inr h

theorem Unreachable.Pending.header_read {s : Unreachable} {w : Word 8} {ws : List (Word 8)} (h : s.Pending (w :: ws))
    (hs : s.udpState = .UDP_IP) (sum : BitVec 20) :
    (if s.ipWordCounter = 2 then { s with udpState := .UDP_STREAM, udpChecksum := sum }
      else { s with udpState := .UDP_IP, ipWordCounter := s.ipWordCounter + 1, udpChecksum := sum } : Unreachable).Pending ws ∧
    s.headers = (if s.ipWordCounter = 2 then { s with udpState := .UDP_STREAM, udpChecksum := sum }
      else { s with udpState := .UDP_IP, ipWordCounter := s.ipWordCounter + 1, udpChecksum := sum } : Unreachable).headers + 1 := by
  unfold Unreachable.Pending at h
  rw [hs] at h
  obtain ⟨hends, c, hc, hcounter, hlen⟩ := h
  rw [List.length_cons] at hlen
  have htail := Ends.tail hends (List.ne_nil_of_length_pos (by omega))
  have hnat : s.ipWordCounter.toNat = c := by
    rw [hcounter, BitVec.toNat_ofNat]
    omega
  have hheaders : s.headers = 3 - c := by rw [Unreachable.headers, if_pos hs, hnat]
  by_cases htwo : s.ipWordCounter = 2
  · have hc2 : c = 2 := by rw [← hnat, htwo]; rfl
    rw [if_pos htwo, hheaders, hc2]
    exact ⟨htail, rfl⟩
  · have hc2 : c ≠ 2 := fun heq => htwo (by rw [hcounter, heq]; rfl)
    have hcount : s.ipWordCounter + 1 = BitVec.ofNat 3 (c + 1) := by
      rw [hcounter, BitVec.ofNat_add]
      rfl
    have hnext : (s.ipWordCounter + 1).toNat = c + 1 := by
      rw [hcount, BitVec.toNat_ofNat]
      omega
    rw [if_neg htwo, hheaders]
    refine ⟨⟨htail, c + 1, by omega, hcount, by omega⟩, ?_⟩
    rw [Unreachable.headers, if_pos rfl, hnext]
    omega

/-! ## The invariant -/

/-- The words of the messages come to `insertChecksum`, and for each message a checksum is there or will be written. -/
structure MessageParts (n : IcmpNet) (ws : List (Word 8)) (ps : Fin 2 → List (Framed 8)) (e owed k : Nat) : Prop where
  pending : n.unreachable.Pending ws
  comes : Comes n.unreachable n.input [⟨n.inputLater⟩] ws ps
  later : ∀ k, ∀ p ∈ ps k, 4 ≤ p.words.length ∧ p.words.length ≤ 188
  addIp : n.addIp.At e (n.header.length + n.unreachable.headers) (n.data ++ ws) owed
  replies : Walk (n.insert.count 1) (n.dataStreams 1) e k
  values : (n.checksumStreams 1).length + n.unreachable.values = k + owed

def IcmpNet.Messages (n : IcmpNet) : Prop := ∃ ws ps e owed k, MessageParts n ws ps e owed k

section

variable {n : IcmpNet} (unread : Bool)

theorem messages_start (ps : List (Framed 8)) {qs : Fin 2 → List (Framed 8)}
    (hqs : ∀ k, ∀ p ∈ qs k, 4 ≤ p.words.length ∧ p.words.length ≤ 188) : (serverStart ps qs).Messages := by
  refine ⟨[], qs, 0, 0, 0, rfl, fun k => ?_, hqs,
    .idle rfl rfl (fun m (hm : m ∈ []) => absurd hm List.not_mem_nil) rfl rfl rfl, .nil rfl rfl, rfl⟩
  show [] ++ ((qs k).flatMap (·.words) ++ []) = _
  rw [List.append_nil, ite_self]

theorem messages_unreachable (h : n.Messages) : (n.call unread .unreachable).Messages := by
  obtain ⟨ws, ps, e, owed, k, hparts⟩ := h
  obtain ⟨hpending, hcomes, hps, haddIp, hreplies, hvalues⟩ := hparts
  -- nothing is read or written
  have hsame (hr : udpPortUnreachable n.full n.unreachable n.input = (n.unreachable, n.input, {})) :
      (n.call unread .unreachable).Messages := by
    refine ⟨ws, ps, e, owed, k, ?_, ?_, hps, ?_, ?_, ?_⟩
    all_goals simp only [IcmpNet.call, hr, List.append_nil, put_self]
    · exact hpending
    · exact hcomes
    · exact haddIp
    · exact hreplies
    · exact hvalues
  rcases unreachable_full n.full n.unreachable n.input with hcall | ⟨hcall, -⟩
  · have hcalls := unreachable_calls n.unreachable n.input
    rw [← hcall] at hcalls
    generalize hr : udpPortUnreachable n.full n.unreachable n.input = r at hcalls
    cases hcalls with
    | idle | waits => exact hsame hr
    | begins hs j hne =>
      have hnil : ws = [] := by
        unfold Unreachable.Pending at hpending
        rw [hs] at hpending
        exact hpending
      subst hnil
      obtain ⟨p, rest, hp, hnext⟩ := hcomes.begin hne
      obtain ⟨hlow, hhigh⟩ := hps j p (by rw [hp]; exact List.mem_cons_self)
      have hmore : ∀ i, ∀ q ∈ Function.update ps j rest i, 4 ≤ q.words.length ∧ q.words.length ≤ 188 := by
        intro i q hq
        by_cases hi : i = j
        · subst hi
          rw [Function.update_self] at hq
          exact hps i q (by rw [hp]; exact List.mem_cons_of_mem _ hq)
        · rw [Function.update_of_ne hi] at hq
          exact hps i q hq
      have hmessage : Message (wordOf (icmpHeader j) :: p.words) :=
        ⟨.cons rfl p.packet.ends, by rw [List.length_cons]; omega, by rw [List.length_cons]; omega⟩
      have hheaders : n.unreachable.headers = 0 := if_neg (by rw [hs]; exact UState.noConfusion)
      have hzero : n.unreachable.values = 0 := if_pos hs
      have hat := haddIp.more hmessage
      rw [hheaders, List.append_nil] at hat
      refine ⟨p.words, _, e, owed + 1, k, ?_, ?_, hmore, ?_, ?_, ?_⟩
      all_goals simp only [IcmpNet.call, hr, List.append_nil, put_self]
      · exact ⟨p.packet.ends, 0, by decide, rfl, hlow⟩
      · exact hnext _ rfl
      · rw [List.append_assoc]
        exact hat
      · exact hreplies
      · rw [hzero] at hvalues
        exact congrArg (· + 1) hvalues
    | header hs w rest hi =>
      obtain ⟨ws, rfl, hread⟩ := hcomes.read (hpending.ends (.inl hs)) hi
      obtain ⟨hnext, hheaders⟩ := hpending.header_read hs (n.unreachable.udpChecksum + wordSum w.data)
      refine ⟨ws, ps, e, owed, k, ?_, ?_, hps, ?_, ?_, ?_⟩
      all_goals simp only [IcmpNet.call, hr, List.append_nil, put_self]
      · exact hnext
      · refine hread _ ?_
        split <;> rfl
      · rw [List.length_append, List.length_singleton, List.append_assoc, Nat.add_assoc, Nat.add_comm 1, ← hheaders]
        exact haddIp
      · exact hreplies
      · rw [← hvalues, Unreachable.values, Unreachable.values, hs]
        split <;> rfl
    | stream hs w rest hi =>
      have hends := hpending.ends (.inr hs)
      obtain ⟨ws, rfl, hread⟩ := hcomes.read hends hi
      have hnone : n.unreachable.headers = 0 := if_neg (by rw [hs]; exact UState.noConfusion)
      rw [hnone] at haddIp
      have hone : n.unreachable.values = 1 := if_neg (by rw [hs]; exact UState.noConfusion)
      rw [hone] at hvalues
      refine ⟨ws, ps, e, owed, k, ?_, ?_, hps, ?_, ?_, ?_⟩
      all_goals simp only [IcmpNet.call, hr, List.append_nil, put_self]
      · rcases Ends.cons_inv hends with ⟨hlast, rfl⟩ | ⟨hlast, hmore⟩
        · rw [hlast]
          rfl
        · rw [hlast]
          exact hmore
      · exact hread _ rfl
      · rw [List.append_assoc]
        refine Eq.subst (motive := fun left => n.addIp.At e (n.header.length + left) _ owed) ?_ haddIp
        cases w.last <;> rfl
      · exact hreplies
      · rw [← hvalues]
        cases w.last <;> rfl
    | value hs =>
      have hnil : ws = [] := by
        unfold Unreachable.Pending at hpending
        rw [hs] at hpending
        exact hpending
      subst hnil
      have hnone : n.unreachable.headers = 0 := if_neg (by rw [hs]; exact UState.noConfusion)
      rw [hnone] at haddIp
      have hone : n.unreachable.values = 1 := if_neg (by rw [hs]; exact UState.noConfusion)
      rw [hone] at hvalues
      refine ⟨[], ps, e, owed, k, ?_, ?_, hps, ?_, ?_, ?_⟩
      all_goals simp only [IcmpNet.call, hr, List.append_nil, put_self]
      · rfl
      · exact hcomes
      · rw [List.append_nil] at haddIp
        exact haddIp
      · exact hreplies
      · rw [List.length_append]
        exact hvalues
  · exact hsame hcall

theorem messages_addIp (h : n.Messages) : (n.call unread .addIp).Messages := by
  obtain ⟨ws, ps, e, owed, k, hparts⟩ := h
  obtain ⟨hpending, hcomes, hps, haddIp, hreplies, hvalues⟩ := hparts
  have hsame (hr : udpAddIpHeader (decide (16 ≤ (n.dataStreams 1).length)) n.addIp ⟨n.data, n.header⟩ =
      (n.addIp, ⟨n.data, n.header⟩, [])) : (n.call unread .addIp).Messages := by
    refine ⟨ws, ps, e, owed, k, hpending, hcomes, hps, ?_, ?_, hvalues⟩
    all_goals simp only [IcmpNet.call, hr, List.append_nil, put_self]
    · exact haddIp
    · exact hreplies
  rcases addIp_full (decide (16 ≤ (n.dataStreams 1).length)) n.addIp ⟨n.data, n.header⟩ with hcall | ⟨hcall, -⟩
  · rcases addIp_call haddIp with ⟨hr, -⟩ | ⟨t, data, header, w, owed', hr, hearly, hsmall, hat, howed, -⟩
    · exact hsame (hcall.trans hr)
    · refine ⟨ws, ps, next e w, owed', k + if e = 2 then 1 else 0, hpending, hcomes, hps, ?_, ?_, ?_⟩
      all_goals simp only [IcmpNet.call, hcall, hr, put_self]
      · exact hat
      · exact hreplies.snoc hearly hsmall
      · rw [hvalues, howed]
        omega
  · exact hsame hcall

theorem messages_input {k : Fin 2} {w : Word 8} {later : List (Word 8)} (h : n.Messages) (hlater : n.inputLater k = w :: later) :
    IcmpNet.Messages { n with
      inputLater := Function.update n.inputLater k later, input := ⟨put k n.input.input [w]⟩ } := by
  obtain ⟨ws, ps, e, owed, l, hparts⟩ := h
  refine ⟨ws, ps, e, owed, l, hparts.pending, fun j => ?_, hparts.later, hparts.addIp, hparts.replies, hparts.values⟩
  rw [← hparts.comes j]
  show put k n.input.input [w] j ++ (Function.update n.inputLater k later j ++ []) = n.input.input j ++ (n.inputLater j ++ [])
  by_cases hj : j = k
  · subst hj
    rw [put_self, Function.update_self, hlater, List.append_assoc]
    rfl
  · rw [put_other hj, Function.update_of_ne hj]

end

theorem Messages.frame {n t : IcmpNet} (h : n.Messages) (hinput : t.input = n.input) (hlater : t.inputLater = n.inputLater)
    (hunreachable : t.unreachable = n.unreachable) (haddIp : t.addIp = n.addIp) (hheader : t.header = n.header)
    (hdata : t.data = n.data)
    (hreplies : ∀ {e k : Nat}, Walk (n.insert.count 1) (n.dataStreams 1) e k → ∃ l, Walk (t.insert.count 1) (t.dataStreams 1) e l ∧
      (t.checksumStreams 1).length + k = (n.checksumStreams 1).length + l) : t.Messages := by
  obtain ⟨ws, ps, e, owed, k, hparts⟩ := h
  obtain ⟨l, hwalk, hlen⟩ := hreplies hparts.replies
  refine ⟨ws, ps, e, owed, l, ?_, ?_, hparts.later, ?_, hwalk, ?_⟩
  · rw [hunreachable]
    exact hparts.pending
  · rw [hunreachable, hinput, hlater]
    exact hparts.comes
  · rw [haddIp, hheader, hunreachable, hdata]
    exact hparts.addIp
  · have hvalues := hparts.values
    rw [hunreachable]
    omega

end FpgaNetworkStack.Icmp
