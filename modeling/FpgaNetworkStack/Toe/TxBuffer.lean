import FpgaNetworkStack.Lib.Client
import FpgaNetworkStack.Lib.Pending
import FpgaNetworkStack.Lib.Reach
import FpgaNetworkStack.Toe.TxAppInterface
import FpgaNetworkStack.Toe.TxSarTable

/-!
# The transmit ring buffer

`tasi_metaLoader` reads the entry of `tx_app_table`, decides on the write and queues the new `mempt`;
acknowledgements move `ackd` in between.  The pointers of a session are followed as positions that do
not wrap: the buffer holds the positions from `ackd` up to `mempt`.
-/

namespace FpgaNetworkStack.Toe

open Lib

variable {b : Build} {sid : SessionID}

/-! ## The network -/

variable (b) in
structure AppNet where
  tasi : TasiMetaLoader
  fifo : TasiMetaLoaderIn b
  stateReq : List SessionID
  updReq : List (TxAppTxSarQuery b)
  ackPush : List (TxSarAckPush b)
  table : SessionID → TxAppTableEntry b
  /-- The entry as it was when the last read was answered. -/
  atRead : TxAppTableEntry b

namespace AppNet

def callTasi (t : AppNet b) : AppNet b × TasiMetaLoaderOut b :=
  let (tasi, fifo, out) := tasiMetaLoader b t.tasi t.fifo
  ({ t with
      tasi, fifo
      stateReq := t.stateReq ++ out.txApp2stateTableReq
      updReq := t.updReq ++ out.txApp2txSarUpdReq }, out)

def callTable (t : AppNet b) : AppNet b :=
  let (table, i, rsp) := txAppTable b t.table ⟨t.ackPush, t.updReq⟩
  { t with
    table, ackPush := i.txSar2txAppAckPush, updReq := i.txAppUpdReq
    fifo := { t.fifo with txSar2txAppUpdRsp := t.fifo.txSar2txAppUpdRsp ++ rsp }
    atRead :=
      match t.ackPush, t.updReq with
      | [], q :: _ => if q.write then t.atRead else t.table q.sessionID
      | _, _ => t.atRead }

/-- The update of `mempt` of session `sid` in a request. -/
def memptMove (sid : SessionID) (q : TxAppTxSarQuery b) : Option (BitVec b.windowBits) :=
  if q.write = true ∧ q.sessionID = sid then some q.mempt else none

/-- The update of `ackd` of session `sid` in an acknowledgement. -/
def ackdMove (sid : SessionID) (p : TxSarAckPush b) : Option (BitVec b.windowBits) :=
  if p.sessionID = sid then some p.ackd else none

/-- `mempt` once the queued requests are served. -/
def mempt (t : AppNet b) (sid : SessionID) : BitVec b.windowBits :=
  (t.updReq.filterMap (memptMove sid)).foldl (fun _ x => x) (t.table sid).mempt

/-- `ackd` once the queued acknowledgements are served. -/
def ackd (t : AppNet b) (sid : SessionID) : BitVec b.windowBits :=
  (t.ackPush.filterMap (ackdMove sid)).foldl (fun _ x => x) (t.table sid).ackd

/-- An acknowledgement the tx_sar table may push: for `sid` it advances, up to `mempt` at most, and
`sid` is not initialised again. -/
def admits (t : AppNet b) (sid : SessionID) (p : TxSarAckPush b) : Bool :=
  p.sessionID != sid ||
    !p.init && decide ((p.ackd - t.ackd sid).toNat ≤ (t.mempt sid - t.ackd sid).toNat)

variable (b) in
inductive Label where
  | request (m : AppTxMeta)
  | stateRsp (state : SessionState)
  | ackPush (p : TxSarAckPush b)
  | tasi
  | table

/-- The application, the state table and the source of acknowledgements are the environment. -/
def step (sid : SessionID) (t : AppNet b) : Label b → Option (AppNet b)
  | .request m => some { t with fifo := { t.fifo with
      appTxDataReqMetaData := t.fifo.appTxDataReqMetaData ++ [m] } }
  | .stateRsp state =>
    match t.stateReq with
    | [] => none
    | _ :: rest => some { t with
        stateReq := rest
        fifo := { t.fifo with stateTable2txAppRsp := t.fifo.stateTable2txAppRsp ++ [state] } }
  | .ackPush p => if t.admits sid p then some { t with ackPush := t.ackPush ++ [p] } else none
  | .tasi => some t.callTasi.1
  | .table => some t.callTable

/-! ## What the calls do -/

/-- What one call of the table can do. -/
inductive Served (t : AppNet b) : AppNet b → Prop
  | push (p : TxSarAckPush b) (rest : List (TxSarAckPush b)) (h : t.ackPush = p :: rest) :
      Served t { t with
        table := Function.update t.table p.sessionID ((t.table p.sessionID).push p), ackPush := rest }
  | write (q : TxAppTxSarQuery b) (rest : List (TxAppTxSarQuery b)) (hp : t.ackPush = [])
      (h : t.updReq = q :: rest) (hw : q.write = true) :
      Served t { t with
        table := Function.update t.table q.sessionID { t.table q.sessionID with mempt := q.mempt }
        updReq := rest }
  | read (q : TxAppTxSarQuery b) (rest : List (TxAppTxSarQuery b)) (hp : t.ackPush = [])
      (h : t.updReq = q :: rest) (hw : q.write = false) :
      Served t { t with
        updReq := rest
        fifo := { t.fifo with txSar2txAppUpdRsp :=
          t.fifo.txSar2txAppUpdRsp ++ [(t.table q.sessionID).reply q.sessionID] }
        atRead := t.table q.sessionID }
  | none (hp : t.ackPush = []) (h : t.updReq = []) : Served t t

theorem served (t : AppNet b) : Served t t.callTable := by
  obtain ⟨tasi, fifo, stateReq, updReq, ackPush, table, atRead⟩ := t
  unfold callTable txAppTable
  cases ackPush with
  | cons p rest => simpa using Served.push p rest rfl
  | nil =>
    cases updReq with
    | nil => simpa using Served.none rfl rfl
    | cons q rest =>
      cases hw : q.write with
      | true => simpa [hw] using Served.write q rest rfl rfl hw
      | false => simpa [hw] using Served.read q rest rfl rfl hw

/-- The answer to a request: an error and nothing else, or everything an accepted write causes. -/
inductive Answer (m : AppTxMeta) (state : SessionState) (r : TxAppTxSarReply b) :
    TasiMetaLoaderOut b → Prop
  | refused (h : state ≠ .ESTABLISHED ∨ r.noSpace m.length = true) (rsp : AppTxRsp)
      (he : rsp.error ≠ noError) : Answer m state r { appTxDataRsp := [rsp] }
  | accepted (hstate : state = .ESTABLISHED) (hs : r.noSpace m.length = false) (rsp : AppTxRsp)
      (he : rsp = ⟨m.sessionID, m.length, r.maxWriteLength.setWidth 30, noError⟩) :
      Answer m state r
        { tasiMeta2pkgPushCmd := [.new (pkgAddr b m.sessionID r.mempt) m.length]
          appTxDataRsp := [rsp]
          txAppStream2eventEngSetEvent :=
            [{ type := .TX, sessionID := m.sessionID, address := r.mempt, length := m.length }]
          txApp2txSarUpdReq := [.update m.sessionID (r.mempt + m.length.setWidth _)] }

theorem answer (m : AppTxMeta) (state : SessionState) (r : TxAppTxSarReply b) :
    Answer m state r (tasiAnswer m state r) := by
  unfold tasiAnswer
  dsimp only
  by_cases hstate : state ≠ .ESTABLISHED
  · rw [if_pos hstate]
    refine .refused (.inl hstate) _ ?_
    simp [errorNoConnection, noError]
  · rw [if_neg hstate]
    cases hs : r.noSpace m.length with
    | true =>
      rw [if_pos rfl]
      refine .refused (.inr hs) _ ?_
      simp [errorNoSpace, noError]
    | false =>
      rw [if_neg (by simp)]
      exact .accepted (not_not.mp hstate) hs _ rfl

/-- What one call of `tasi_metaLoader` can do. -/
inductive Called (t : AppNet b) : AppNet b × TasiMetaLoaderOut b → Prop
  | idle : Called t (t, {})
  | request (m : AppTxMeta) (rest : List AppTxMeta) (hs : t.tasi.taiState = .READ_REQUEST)
      (h : t.fifo.appTxDataReqMetaData = m :: rest) :
      Called t
        ({ t with
            tasi := ⟨.READ_META, m⟩, fifo := { t.fifo with appTxDataReqMetaData := rest }
            stateReq := t.stateReq ++ [m.sessionID]
            updReq := t.updReq ++ [.read m.sessionID] },
          { txApp2stateTableReq := [m.sessionID], txApp2txSarUpdReq := [.read m.sessionID] })
  | answer (r : TxAppTxSarReply b) (rs : List (TxAppTxSarReply b)) (state : SessionState)
      (states : List SessionState) (hs : t.tasi.taiState = .READ_META)
      (hr : t.fifo.txSar2txAppUpdRsp = r :: rs) (hstate : t.fifo.stateTable2txAppRsp = state :: states)
      (out : TasiMetaLoaderOut b) (ha : Answer t.tasi.tasiWriteMeta state r out) :
      Called t
        ({ t with
            tasi := { t.tasi with taiState := .READ_REQUEST }
            fifo := { t.fifo with txSar2txAppUpdRsp := rs, stateTable2txAppRsp := states }
            updReq := t.updReq ++ out.txApp2txSarUpdReq }, out)

theorem called (t : AppNet b) : Called t t.callTasi := by
  unfold callTasi tasiMetaLoader
  cases hs : t.tasi.taiState with
  | READ_REQUEST =>
    cases hm : t.fifo.appTxDataReqMetaData with
    | nil => simpa using Called.idle
    | cons m rest => exact Called.request m rest hs hm
  | READ_META =>
    cases hr : t.fifo.txSar2txAppUpdRsp with
    | nil => simpa using Called.idle
    | cons r rs =>
      cases hst : t.fifo.stateTable2txAppRsp with
      | nil => simpa using Called.idle
      | cons state states =>
        have ha := answer t.tasi.tasiWriteMeta state r
        dsimp only
        generalize tasiAnswer t.tasi.tasiWriteMeta state r = out at ha
        have hreq : out.txApp2stateTableReq = [] := by cases ha <;> rfl
        simpa [hreq] using Called.answer r rs state states hs hr hst _ ha

/-! ## The invariant -/

/-- What holds whatever the pointers are. -/
structure Engines (sid : SessionID) (t : AppNet b) : Prop where
  client : TableClient TxAppTxSarQuery.write (t.tasi.taiState == .READ_META) t.updReq t.fifo.txSar2txAppUpdRsp
  asked : ∀ q ∈ t.updReq, q.write = false → q.sessionID = t.tasi.tasiWriteMeta.sessionID
  reply : ∀ r ∈ t.fifo.txSar2txAppUpdRsp, r = t.atRead.reply t.tasi.tasiWriteMeta.sessionID
  once : ∀ p ∈ t.ackPush, p.sessionID = sid → p.init = false

/-- The pointers of `sid` as positions: the table has `ackd` at `A` and `mempt` at `M`, and the queued
updates take them to `B` and `P`.  The entry behind a reply for `sid` may have had an older `ackd`. -/
structure Window (sid : SessionID) (t : AppNet b) (A B M P : Nat) : Prop where
  ackd : (t.table sid).ackd = BitVec.ofNat _ A
  mempt : (t.table sid).mempt = BitVec.ofNat _ M
  push : Moves (ackdMove sid) A B t.ackPush
  upd : Moves (memptMove sid) M P t.updReq
  le : B ≤ P
  lt : P < A + b.bufferSize
  read : t.fifo.txSar2txAppUpdRsp ≠ [] → t.tasi.tasiWriteMeta.sessionID = sid →
    t.atRead.mempt = BitVec.ofNat _ P ∧
      ∃ R, t.atRead.ackd = BitVec.ofNat _ R ∧ R ≤ A ∧ P < R + b.bufferSize

variable {t : AppNet b}

theorem Engines.callTasi (h : Engines sid t) : Engines sid t.callTasi.1 := by
  have hcalled := t.called
  generalize t.callTasi = u at hcalled
  have hc := h.client
  cases hcalled with
  | idle => exact h
  | request m rest hs hm =>
    rw [hs] at hc
    refine ⟨hc.ask rfl, ?_, ?_, h.once⟩
    · intro q hq hf
      rcases List.mem_append.mp hq with hq | hq
      · rw [hc.writes q hq] at hf
        cases hf
      · rw [List.mem_singleton] at hq
        rw [hq]
        rfl
    · intro r hr
      rw [show ({ t.fifo with appTxDataReqMetaData := rest } : TasiMetaLoaderIn b).txSar2txAppUpdRsp = []
        from hc.rsps_eq_nil] at hr
      cases hr
  | answer r rs state states hs hr hstate out ha =>
    rw [hr] at hc
    obtain ⟨-, hreq, rfl⟩ := hc.take
    have hw : ∀ q ∈ out.txApp2txSarUpdReq, q.write = true := by
      intro q hq
      cases ha with
      | refused => cases hq
      | accepted =>
        rw [List.mem_singleton] at hq
        rw [hq]
        rfl
    refine ⟨?_, ?_, ?_, h.once⟩
    · show TableClient _ false (t.updReq ++ _) []
      rw [hreq]
      exact (TableClient.quiet (by simp)).push hw
    · intro q hq hf
      change q ∈ t.updReq ++ _ at hq
      rw [hreq] at hq
      rw [hw q hq] at hf
      cases hf
    · intro r' hr'
      cases hr'

theorem Engines.callTable (h : Engines sid t) : Engines sid t.callTable := by
  have hs := t.served
  generalize t.callTable = u at hs
  have hc := h.client
  cases hs with
  | push p rest hp =>
    exact ⟨hc, h.asked, h.reply, fun p' hp' => h.once p' (hp ▸ List.mem_cons_of_mem p hp')⟩
  | write q rest hp hq hw =>
    rw [hq] at hc
    exact ⟨hc.serve_write hw, fun q' hq' => h.asked q' (hq ▸ List.mem_cons_of_mem q hq'), h.reply, h.once⟩
  | read q rest hp hq hw =>
    rw [hq] at hc
    obtain ⟨hbusy, rfl, hrsp⟩ := hc.serve_read hw
    have hid := h.asked q (hq ▸ List.mem_cons_self) hw
    refine ⟨?_, ?_, ?_, h.once⟩
    · show TableClient _ (t.tasi.taiState == .READ_META) [] (t.fifo.txSar2txAppUpdRsp ++ _)
      rw [hbusy, hrsp]
      exact TableClient.answered _
    · intro q' hq'
      cases hq'
    · intro r hr
      rw [show t.fifo.txSar2txAppUpdRsp = [] from hrsp, List.nil_append, List.mem_singleton] at hr
      rw [hr, hid]
  | none hp hq => exact h

/-- The reply shows the pointers of the entry: with `TCP_NODELAY`, or when 16 bits hold them. -/
theorem reply_eq (hb : b.tcpNodelay = true ∨ b.windowScale = false) (entry : TxAppTableEntry b)
    (id : SessionID) : (entry.reply id).ackd = entry.ackd ∧ (entry.reply id).mempt = entry.mempt := by
  unfold TxAppTableEntry.reply
  split
  · exact ⟨rfl, rfl⟩
  · next hn =>
      have hw : b.windowBits = 16 := by
        rcases hb with hb | hb
        · exact absurd hb hn
        · simp [Build.windowBits, hb]
      constructor
      · apply BitVec.eq_of_toNat_eq
        have := entry.ackd.isLt
        simp [hw] at this ⊢
      · apply BitVec.eq_of_toNat_eq
        have := entry.mempt.isLt
        simp [hw] at this ⊢

theorem fits {r : TxAppTxSarReply b} {length : BitVec 16} {R P : Nat} (hs : r.noSpace length = false)
    (hR : r.ackd = BitVec.ofNat _ R) (hP : r.mempt = BitVec.ofNat _ P) (hle : R ≤ P)
    (hlt : P < R + b.bufferSize) : P + length.toNat < R + b.bufferSize := by
  simp only [TxAppTxSarReply.noSpace, Bool.or_eq_false_iff, decide_eq_false_iff_not] at hs
  have hmax := hs.1
  unfold Build.bufferSize at hlt ⊢
  rw [TxAppTxSarReply.maxWriteLength, hR, hP, ofNat_sub_sub_one_toNat hle hlt] at hmax
  omega

/-- With `TCP_NODELAY` a non-empty write also fits into the window of the peer. -/
theorem fits_window {r : TxAppTxSarReply b} {length : BitVec 16} (hb : b.tcpNodelay = true)
    (hs : r.noSpace length = false) (hl : length ≠ 0) :
    r.usedLength.toNat + length.toNat ≤ r.minWindow.toNat := by
  simp only [TxAppTxSarReply.noSpace, Bool.or_eq_false_iff, hb, Bool.true_and,
    decide_eq_false_iff_not] at hs
  have hpos : 0 < length.toNat := by
    apply Nat.pos_of_ne_zero
    intro h0
    exact hl (BitVec.eq_of_toNat_eq (by simpa using h0))
  have hwin := hs.2
  unfold TxAppTxSarReply.usableWindow at hwin
  split at hwin
  · next hlt =>
      rw [BitVec.toNat_sub_of_le (BitVec.le_def.mpr (Nat.le_of_lt hlt))] at hwin
      omega
  · simp at hwin
    omega

/-- The events of one call, for `sid`: none, or the one of an accepted write that starts at `P`. -/
inductive Accepts (sid : SessionID) (P P' : Nat) : List (Event b) → Prop
  | none (es : List (Event b)) (h : ∀ e ∈ es, e.sessionID ≠ sid) (hP : P' = P) : Accepts sid P P' es
  | write (e : Event b) (hid : e.sessionID = sid) (htype : e.type = .TX) (hrt : e.rtCount = 0)
      (haddr : e.address = BitVec.ofNat _ P) (hP : P' = P + e.length.toNat) : Accepts sid P P' [e]

variable {A B M P : Nat}

theorem Window.callTasi (hb : b.tcpNodelay = true ∨ b.windowScale = false)
    (h : Engines sid t) (hw : Window sid t A B M P) :
    ∃ P', Window sid t.callTasi.1 A B M P' ∧
      Accepts sid P P' t.callTasi.2.txAppStream2eventEngSetEvent := by
  have hcalled := t.called
  generalize t.callTasi = u at hcalled
  have hc := h.client
  cases hcalled with
  | idle => exact ⟨P, hw, .none _ (by simp) rfl⟩
  | request m rest hs hm =>
    rw [hs] at hc
    refine ⟨P, ⟨hw.ackd, hw.mempt, hw.push, hw.upd.append (Moves.skip ?_), hw.le, hw.lt, ?_⟩,
      .none _ (by simp) rfl⟩
    · intro q hq
      rw [List.mem_singleton] at hq
      rw [hq]
      exact if_neg (by simp [TxAppTxSarQuery.read])
    · intro hr
      exact absurd hc.rsps_eq_nil hr
  | answer r rs state states hs hr hstate out ha =>
    have hreply := h.reply r (by simp [hr])
    rw [hr] at hc
    obtain ⟨-, hreq, rfl⟩ := hc.take
    cases ha with
    | refused =>
      exact ⟨P, ⟨hw.ackd, hw.mempt, hw.push, hw.upd.append Moves.nil, hw.le, hw.lt, by simp⟩,
        .none _ (by simp) rfl⟩
    | accepted hst hsp rsp he =>
      by_cases hid : t.tasi.tasiWriteMeta.sessionID = sid
      · obtain ⟨hP, R, hR, hRA, hlt⟩ := hw.read (by simp [hr]) hid
        obtain ⟨hra, hrm⟩ := reply_eq hb t.atRead t.tasi.tasiWriteMeta.sessionID
        rw [← hreply] at hra hrm
        have hAB := hw.push.le
        have hBP := hw.le
        have hfit := fits hsp (hra.trans hR) (hrm.trans hP) (by omega) hlt
        refine ⟨P + t.tasi.tasiWriteMeta.length.toNat, ⟨hw.ackd, hw.mempt, hw.push,
          hw.upd.append (Moves.single (if_pos ⟨rfl, hid⟩) ?_ (Nat.le_add_right _ _)), by omega,
          by omega, by simp⟩, .write _ hid rfl rfl (hrm.trans hP) rfl⟩
        rw [TxAppTxSarQuery.update, hrm.trans hP, BitVec.ofNat_add, BitVec.ofNat_toNat]
      · refine ⟨P, ⟨hw.ackd, hw.mempt, hw.push, hw.upd.append (Moves.skip ?_), hw.le, hw.lt, by simp⟩,
          .none _ (by simpa using hid) rfl⟩
        intro q hq
        rw [List.mem_singleton] at hq
        rw [hq]
        exact if_neg fun h => hid h.2

theorem table_update {f : TxAppTableEntry b → TxAppTableEntry b} (t : AppNet b) (id : SessionID) :
    Function.update t.table id (f (t.table id)) sid =
      if id = sid then f (t.table sid) else t.table sid := by
  by_cases hid : id = sid
  · subst hid
    simp
  · rw [if_neg hid, Function.update_of_ne (fun h => hid h.symm)]

theorem Window.callTable (h : Engines sid t)
    (hw : Window sid t A B M P) : ∃ A' M', A ≤ A' ∧ Window sid t.callTable A' B M' P := by
  have hs := t.served
  generalize t.callTable = u at hs
  have hc := h.client
  have hAB := hw.push.le
  have hlt := hw.lt
  cases hs with
  | push p rest hp =>
    have hpush := hw.push
    have honce := h.once p (hp ▸ List.mem_cons_self)
    rw [hp] at hpush
    by_cases hid : p.sessionID = sid
    · have hsome : ackdMove sid p = some p.ackd := if_pos hid
      obtain ⟨x, hx, hAx, hpush⟩ := (Moves.cons_some hsome).mp hpush
      refine ⟨x, M, hAx, ?_, ?_, hpush, hw.upd, hw.le, by omega, ?_⟩
      · dsimp only
        rw [table_update (f := fun entry => entry.push p), if_pos hid, ← hx]
        simp [TxAppTableEntry.push, honce hid]
      · dsimp only
        rw [table_update (f := fun entry => entry.push p), if_pos hid, ← hw.mempt]
        simp [TxAppTableEntry.push, honce hid]
      · intro hr hid'
        obtain ⟨hP, R, hR, hRA, hRlt⟩ := hw.read hr hid'
        exact ⟨hP, R, hR, by omega, hRlt⟩
    · have hnone : ackdMove sid p = none := if_neg hid
      rw [Moves.cons_none hnone] at hpush
      refine ⟨A, M, Nat.le_refl A, ?_, ?_, hpush, hw.upd, hw.le, hw.lt, hw.read⟩
      · dsimp only
        rw [table_update (f := fun entry => entry.push p), if_neg hid]
        exact hw.ackd
      · dsimp only
        rw [table_update (f := fun entry => entry.push p), if_neg hid]
        exact hw.mempt
  | write q rest hp hq hwr =>
    have hupd := hw.upd
    rw [hq] at hupd hc
    -- no reply is held while an update is pending
    have hrsp : t.fifo.txSar2txAppUpdRsp = [] := by
      cases hr : t.fifo.txSar2txAppUpdRsp with
      | nil => rfl
      | cons r rs =>
        rw [hr] at hc
        cases hc.take.2.1
    by_cases hid : q.sessionID = sid
    · have hsome : memptMove sid q = some q.mempt := if_pos ⟨hwr, hid⟩
      obtain ⟨x, hx, hMx, hupd⟩ := (Moves.cons_some hsome).mp hupd
      refine ⟨A, x, Nat.le_refl A, ?_, ?_, hw.push, hupd, hw.le, hw.lt, fun hr => absurd hrsp hr⟩
      · dsimp only
        rw [table_update (f := fun entry => { entry with mempt := q.mempt }), if_pos hid]
        exact hw.ackd
      · dsimp only
        rw [table_update (f := fun entry => { entry with mempt := q.mempt }), if_pos hid]
        exact hx
    · have hnone : memptMove sid q = none := if_neg fun h => hid h.2
      rw [Moves.cons_none hnone] at hupd
      refine ⟨A, M, Nat.le_refl A, ?_, ?_, hw.push, hupd, hw.le, hw.lt, fun hr => absurd hrsp hr⟩
      · dsimp only
        rw [table_update (f := fun entry => { entry with mempt := q.mempt }), if_neg hid]
        exact hw.ackd
      · dsimp only
        rw [table_update (f := fun entry => { entry with mempt := q.mempt }), if_neg hid]
        exact hw.mempt
  | read q rest hp hq hwr =>
    have hupd := hw.upd
    have hasked := h.asked q (hq ▸ List.mem_cons_self) hwr
    have hnone : memptMove sid q = none := if_neg (by simp [hwr])
    rw [hq] at hupd hc
    rw [Moves.cons_none hnone] at hupd
    obtain ⟨-, rfl, -⟩ := hc.serve_read hwr
    refine ⟨A, M, Nat.le_refl A, hw.ackd, hw.mempt, hw.push, hupd, hw.le, hw.lt, ?_⟩
    -- the entry as it is now, all updates of `mempt` served
    intro _ hid
    rw [show q.sessionID = sid from hasked.trans hid]
    have hMP : M = P := hupd
    exact ⟨hMP ▸ hw.mempt, A, hw.ackd, Nat.le_refl A, hw.lt⟩
  | none hp hq => exact ⟨A, M, Nat.le_refl A, hw⟩

def Inv (sid : SessionID) (t : AppNet b) : Prop := Engines sid t ∧ ∃ A B M P, Window sid t A B M P

theorem Window.settled (hw : Window sid t A B M P) :
    t.ackd sid = BitVec.ofNat _ B ∧ t.mempt sid = BitVec.ofNat _ P := by
  constructor
  · rw [AppNet.ackd, hw.ackd]
    exact hw.push.settled
  · rw [AppNet.mempt, hw.mempt]
    exact hw.upd.settled

theorem Window.ackPush {p : TxSarAckPush b} (hw : Window sid t A B M P)
    (hp : t.admits sid p = true) :
    ∃ B', Window sid { t with ackPush := t.ackPush ++ [p] } A B' M P := by
  by_cases hid : p.sessionID = sid
  · obtain ⟨hB, hP⟩ := hw.settled
    have hAB := hw.push.le
    have hBP := hw.le
    have hlt := hw.lt
    unfold Build.bufferSize at hlt
    have hdist := ofNat_sub_toNat (w := b.windowBits) hBP (by omega)
    simp only [admits, hid, hB, hP, hdist, bne_self_eq_false, Bool.false_or, Bool.and_eq_true, Bool.not_eq_eq_eq_not, Bool.not_true, decide_eq_true_eq] at hp
    have hsome : ackdMove sid p = some p.ackd := if_pos hid
    refine ⟨B + (p.ackd - BitVec.ofNat _ B).toNat, hw.ackd, hw.mempt,
      hw.push.append (Moves.single hsome (eq_ofNat_add B p.ackd) (Nat.le_add_right _ _)), hw.upd,
      by omega, hw.lt, hw.read⟩
  · refine ⟨B, hw.ackd, hw.mempt, hw.push.append (Moves.skip ?_), hw.upd, hw.le, hw.lt, hw.read⟩
    intro q hq
    rw [List.mem_singleton] at hq
    rw [hq]
    exact if_neg hid

theorem inv_step {t u : AppNet b} {l : Label b} (hb : b.tcpNodelay = true ∨ b.windowScale = false)
    (h : Inv sid t) (hs : t.step sid l = some u) : Inv sid u := by
  obtain ⟨he, A, B, M, P, hw⟩ := h
  cases l with
  | request m =>
    cases hs
    exact ⟨{ he with }, A, B, M, P, hw.ackd, hw.mempt, hw.push, hw.upd, hw.le, hw.lt, hw.read⟩
  | stateRsp state =>
    simp only [step] at hs
    split at hs
    · cases hs
    · cases hs
      exact ⟨{ he with }, A, B, M, P, hw.ackd, hw.mempt, hw.push, hw.upd, hw.le, hw.lt, hw.read⟩
  | ackPush p =>
    simp only [step] at hs
    split at hs
    · next hp =>
        cases hs
        obtain ⟨B', hw'⟩ := hw.ackPush hp
        refine ⟨⟨he.client, he.asked, he.reply, ?_⟩, A, B', M, P, hw'⟩
        intro p' hp' hid
        rcases List.mem_append.mp hp' with hp' | hp'
        · exact he.once p' hp' hid
        · rw [List.mem_singleton] at hp'
          rw [hp'] at hid ⊢
          simp only [admits, hid, bne_self_eq_false, Bool.false_or, Bool.and_eq_true] at hp
          simpa using hp.1
    · cases hs
  | tasi =>
    cases hs
    obtain ⟨P', hw', -⟩ := hw.callTasi hb he
    exact ⟨he.callTasi, A, B, M, P', hw'⟩
  | table =>
    cases hs
    obtain ⟨A', M', -, hw'⟩ := hw.callTable he
    exact ⟨he.callTable, A', B, M', P, hw'⟩

/-! ## What an answer means for the buffer -/

/-- Bytes between `ackd` and `mempt`. -/
def used (entry : TxAppTableEntry b) : Nat := (entry.mempt - entry.ackd).toNat

/-- The addresses of session `id` from offset `off` on, wrapping at the end of the buffer. -/
def addresses (b : Build) (id : SessionID) (off : BitVec b.windowBits) (length : Nat) : List (BitVec 32) :=
  (List.range length).map fun k => pkgAddr b id (off + BitVec.ofNat _ k)

end AppNet

/-- The addresses a memory command writes. -/
def MmCmd.addresses (cmd : MmCmd) : List (BitVec 32) :=
  (List.range cmd.bbt.toNat).map fun k => cmd.saddr + BitVec.ofNat 32 k

/-- The memory commands into which `tasi_pkg_pusher` cuts a command. -/
def MmCmd.parts (b : Build) (cmd : MmCmd) : List MmCmd :=
  if cmd.crosses (b := b) then
    [.new cmd.saddr ((cmd.lengthFirst (b := b)).setWidth 16), cmd.second (cmd.lengthFirst (b := b))]
  else [cmd]

theorem pkgAddr_add {id : SessionID} {off : BitVec b.windowBits} {k : Nat}
    (h : off.toNat + k < b.bufferSize) :
    pkgAddr b id off + BitVec.ofNat 32 k = pkgAddr b id (off + BitVec.ofNat _ k) := by
  unfold Build.bufferSize at h
  unfold pkgAddr
  rw [← BitVec.ofNat_add, BitVec.toNat_add, BitVec.toNat_ofNat, Nat.mod_eq_of_lt (a := k) (by omega),
    Nat.mod_eq_of_lt h, Nat.add_assoc]

theorem pkgAddr_low (id : SessionID) (off : BitVec b.windowBits) :
    (pkgAddr b id off).setWidth b.windowBits = off := by
  apply BitVec.eq_of_toNat_eq
  have hoff := off.isLt
  unfold pkgAddr Build.bufferSize
  rw [BitVec.toNat_setWidth, BitVec.toNat_ofNat,
    Nat.mod_mod_of_dvd _ (Nat.pow_dvd_pow 2 b.windowBits_le), Nat.mul_add_mod_of_lt hoff]

theorem le_bufferSize (length : BitVec 16) : length.toNat < b.bufferSize := by
  have hl := length.isLt
  rcases b.bufferSize_eq with h | h <;> omega

theorem lengthFirst_toNat (id : SessionID) {off : BitVec b.windowBits} (length : BitVec 16)
    (h : 0 < off.toNat) :
    ((MmCmd.new (pkgAddr b id off) length).lengthFirst (b := b)).toNat = b.bufferSize - off.toNat := by
  have hoff := off.isLt
  unfold MmCmd.lengthFirst MmCmd.new
  rw [pkgAddr_low, BitVec.toNat_sub, BitVec.toNat_ofNat]
  unfold Build.bufferSize
  rw [Nat.mod_self, Nat.add_zero]
  exact Nat.mod_eq_of_lt (by omega)

theorem second_saddr (id : SessionID) (off : BitVec b.windowBits) (length : BitVec 16)
    (n : BitVec b.windowBits) :
    ((MmCmd.new (pkgAddr b id off) length).second n).saddr = pkgAddr b id 0 := by
  have hoff := off.isLt
  have hle : off.toNat < 2 ^ 32 := Nat.lt_of_lt_of_le hoff (Nat.pow_le_pow_right (by omega) b.windowBits_le)
  have hoff32 : off.setWidth 32 = BitVec.ofNat 32 off.toNat := by
    apply BitVec.eq_of_toNat_eq
    simp
  show pkgAddr b id off - ((pkgAddr b id off).setWidth _).setWidth 32 = _
  rw [pkgAddr_low, hoff32]
  unfold pkgAddr
  rw [BitVec.ofNat_add, BitVec.add_sub_cancel]
  simp

/-- The parts of a command write the addresses of the ring from its offset on. -/
theorem parts_addresses (id : SessionID) (off : BitVec b.windowBits) (length : BitVec 16) :
    ((MmCmd.new (pkgAddr b id off) length).parts b).flatMap MmCmd.addresses =
      AppNet.addresses b id off length.toNat := by
  have hl := length.isLt
  have hbs := le_bufferSize (b := b) length
  have hoff : off.toNat < b.bufferSize := off.isLt
  have hbbt : (length.setWidth 23).toNat = length.toNat := by
    rw [BitVec.toNat_setWidth, Nat.mod_eq_of_lt (by omega)]
  unfold MmCmd.parts
  by_cases hc : b.bufferSize < off.toNat + length.toNat
  · rw [if_pos (by simpa [MmCmd.crosses, MmCmd.new, pkgAddr_low, hbbt] using hc)]
    have hfirst := lengthFirst_toNat id length (show 0 < off.toNat by omega)
    generalize hcmd : MmCmd.new (pkgAddr b id off) length = cmd at hfirst
    have hsecond := second_saddr id off length (cmd.lengthFirst (b := b))
    rw [hcmd] at hsecond
    have hcbbt : cmd.bbt.toNat = length.toNat := by
      rw [← hcmd]
      exact hbbt
    -- what is left after the first part
    obtain ⟨rest, hrest⟩ := Nat.exists_eq_add_of_le (show b.bufferSize - off.toNat ≤ length.toNat by omega)
    have hn1 : (((cmd.lengthFirst (b := b)).setWidth 16).setWidth 23).toNat = b.bufferSize - off.toNat := by
      simp only [BitVec.toNat_setWidth, hfirst]
      omega
    have hn2 : (cmd.bbt - (cmd.lengthFirst (b := b)).setWidth 23).toNat = rest := by
      rw [BitVec.toNat_sub, BitVec.toNat_setWidth, hfirst, hcbbt]
      omega
    simp only [List.flatMap_cons, List.flatMap_nil, List.append_nil, MmCmd.addresses, AppNet.addresses]
    rw [show (cmd.second (cmd.lengthFirst (b := b))).bbt.toNat = rest from hn2, hsecond,
      show (MmCmd.new cmd.saddr ((cmd.lengthFirst (b := b)).setWidth 16)).bbt.toNat =
        b.bufferSize - off.toNat from hn1, hrest, List.range_add, List.map_append]
    congr 1
    · apply List.map_congr_left
      intro k hk
      rw [List.mem_range] at hk
      rw [← hcmd]
      exact pkgAddr_add (by omega)
    · rw [List.map_map]
      apply List.map_congr_left
      intro k hk
      rw [List.mem_range] at hk
      rw [pkgAddr_add (by simp; omega), Function.comp]
      congr 1
      -- `off` and the first part together make one turn of the ring
      have hturn : off + BitVec.ofNat _ (b.bufferSize - off.toNat) = 0 := by
        apply BitVec.eq_of_toNat_eq
        unfold Build.bufferSize at hoff ⊢
        rw [BitVec.toNat_add, BitVec.toNat_ofNat, Nat.add_mod_mod]
        rw [Nat.add_sub_cancel' (Nat.le_of_lt hoff)]
        simp
      rw [BitVec.ofNat_add, ← BitVec.add_assoc, hturn]
  · rw [if_neg (by simpa [MmCmd.crosses, MmCmd.new, pkgAddr_low, hbbt] using hc)]
    simp only [List.flatMap_cons, List.flatMap_nil, List.append_nil, MmCmd.addresses, AppNet.addresses,
      MmCmd.new, hbbt]
    apply List.map_congr_left
    intro k hk
    rw [List.mem_range] at hk
    exact pkgAddr_add (by omega)

/-! ## With the packet pusher -/

variable (b) in
structure BufferNet (W : Nat) where
  app : AppNet b
  pusher : TasiPkgPusher b W
  pushIn : TasiPkgPusherIn W
  /-- Every command `tasi_metaLoader` has issued. -/
  cmds : List MmCmd
  /-- Every command written to `txBufferWriteCmd`. -/
  written : List MmCmd

variable (b) in
inductive BufferLabel (W : Nat) where
  | app (l : AppNet.Label b)
  | data (word : AxiWord W)
  | pusher (emptyWord : AxiWord W)

namespace BufferNet

variable {W : Nat}

def step (sid : SessionID) (t : BufferNet b W) :
    BufferLabel b W → Option (BufferNet b W)
  | .app l =>
    let cmds := match l with
      | .tasi => t.app.callTasi.2.tasiMeta2pkgPushCmd
      | _ => []
    (t.app.step sid l).map fun app => { t with
      app
      pushIn := { t.pushIn with tasiMeta2pkgPushCmd := t.pushIn.tasiMeta2pkgPushCmd ++ cmds }
      cmds := t.cmds ++ cmds }
  | .data word => some { t with pushIn := { t.pushIn with appTxDataIn := t.pushIn.appTxDataIn ++ [word] } }
  | .pusher emptyWord =>
    let (pusher, pushIn, out) := tasiPkgPusher emptyWord t.pusher t.pushIn
    some { t with pusher, pushIn, written := t.written ++ out.txBufferWriteCmd }

/-- Commands the pusher still has to write for the command it works on. -/
def remaining (s : TasiPkgPusher b W) : List MmCmd :=
  match s.tasiPkgPushState with
  | .IMPROVE_TIMING => s.cmd.parts b
  | .CUT_FIRST => [s.cmd.second s.lengthFirstPkg]
  | _ => []

/-- The pusher writes the parts of every command, in order. -/
def Ordered (t : BufferNet b W) : Prop :=
  t.written ++ remaining t.pusher ++ t.pushIn.tasiMeta2pkgPushCmd.flatMap (MmCmd.parts b) =
    t.cmds.flatMap (MmCmd.parts b)

/-- One call of the pusher: what it writes and what remains is what remained before. -/
theorem pusher_remaining (emptyWord : AxiWord W) (s : TasiPkgPusher b W) (i : TasiPkgPusherIn W) :
    (tasiPkgPusher emptyWord s i).2.2.txBufferWriteCmd ++ remaining (tasiPkgPusher emptyWord s i).1 ++
        (tasiPkgPusher emptyWord s i).2.1.tasiMeta2pkgPushCmd.flatMap (MmCmd.parts b) =
      remaining s ++ i.tasiMeta2pkgPushCmd.flatMap (MmCmd.parts b) := by
  unfold tasiPkgPusher
  cases hs : s.tasiPkgPushState with
  | IDLE =>
    cases hc : i.tasiMeta2pkgPushCmd with
    | nil => simp [remaining, hs, hc]
    | cons cmd rest => simp [remaining, hs]
  | IMPROVE_TIMING =>
    dsimp only
    by_cases hc : s.cmd.crosses (b := b) = true
    · simp [remaining, hs, hc, MmCmd.parts]
    · simp [remaining, hs, hc, MmCmd.parts]
  | CUT_FIRST | ALIGN_SECOND =>
    cases hd : i.appTxDataIn with
    | nil => simp [remaining, hs]
    | cons word rest =>
      dsimp only
      split_ifs <;> simp [remaining, hs]
  | FWD_ALIGNED =>
    cases hd : i.appTxDataIn with
    | nil => simp [remaining, hs]
    | cons word rest => cases hl : word.last <;> simp [remaining, hs, hl]
  | RESIDUE => simp [remaining, hs]

theorem ordered_step {t u : BufferNet b W} {l : BufferLabel b W} (h : Ordered t)
    (hs : t.step sid l = some u) : Ordered u := by
  cases l with
  | app l =>
    simp only [step, Option.map_eq_some_iff] at hs
    obtain ⟨app, -, rfl⟩ := hs
    simp only [Ordered, List.flatMap_append] at h ⊢
    rw [← List.append_assoc, h]
  | data word =>
    cases hs
    exact h
  | pusher emptyWord =>
    have hrem := pusher_remaining emptyWord t.pusher t.pushIn
    simp only [step, Option.some.injEq] at hs
    subst hs
    generalize tasiPkgPusher emptyWord t.pusher t.pushIn = v at hrem
    simp only [Ordered, List.append_assoc] at h hrem ⊢
    rw [hrem, h]

end BufferNet

/-! ## Main result -/

open AppNet in
/-- What the answer `rsp` of the next call of `tasi_metaLoader` means for session `sid`. -/
structure Guarded (sid : SessionID) (t : AppNet b) (rsp : AppTxRsp) : Prop where
  /-- An accepted write goes to `length` addresses from `mempt` on. -/
  addresses : rsp.error = noError →
    (t.callTasi.2.tasiMeta2pkgPushCmd.flatMap (MmCmd.parts b)).flatMap MmCmd.addresses =
      AppNet.addresses b sid (t.table sid).mempt rsp.length.toNat
  /-- They lie behind the live range `[ackd, mempt)`. -/
  outside : rsp.error = noError → ∀ k < rsp.length.toNat,
    ((t.table sid).mempt + BitVec.ofNat _ k - (t.table sid).ackd).toNat = used (t.table sid) + k
  /-- The new `mempt` leaves the buffer less than full. -/
  mempt : rsp.error = noError →
    t.callTasi.2.txApp2txSarUpdReq =
        [.update sid ((t.table sid).mempt + rsp.length.setWidth _)] ∧
      ((t.table sid).mempt + rsp.length.setWidth _ - (t.table sid).ackd).toNat =
        used (t.table sid) + rsp.length.toNat ∧
      used (t.table sid) + rsp.length.toNat < b.bufferSize
  /-- A write that is not empty respects the window pushed last before the read. -/
  window : rsp.error = noError → b.tcpNodelay = true → rsp.length ≠ 0 →
    used t.atRead + rsp.length.toNat ≤ t.atRead.minWindow.toNat ∧ used (t.table sid) ≤ used t.atRead
  error : rsp.error ≠ noError →
    t.callTasi.2.tasiMeta2pkgPushCmd = [] ∧ t.callTasi.2.txAppStream2eventEngSetEvent = [] ∧
      t.callTasi.1.mempt sid = t.mempt sid

theorem AppNet.Inv.guarded {t : AppNet b} (hb : b.tcpNodelay = true ∨ b.windowScale = false)
    (h : AppNet.Inv sid t) {rsp : AppTxRsp} (hrsp : rsp ∈ t.callTasi.2.appTxDataRsp)
    (hid : rsp.sessionID = sid) : Guarded sid t rsp := by
  obtain ⟨he, A, B, M, P, hw⟩ := h
  have hcalled := t.called
  generalize hu : t.callTasi = u at hcalled hrsp
  cases hcalled with
  | idle => cases hrsp
  | request => cases hrsp
  | answer r rs state states hs hr hstate out ha =>
    have hreply := he.reply r (by simp [hr])
    have hc := he.client
    rw [hr] at hc
    obtain ⟨-, hreq, rfl⟩ := hc.take
    cases ha with
    | refused hno rsp' herr =>
      rw [List.mem_singleton] at hrsp
      subst hrsp
      exact ⟨fun h => absurd h herr, fun h => absurd h herr, fun h => absurd h herr,
        fun h => absurd h herr, fun _ => by rw [hu]; exact ⟨rfl, rfl, by simp [AppNet.mempt]⟩⟩
    | accepted hst hsp rsp' heq =>
      rw [List.mem_singleton, heq] at hrsp
      subst hrsp
      change t.tasi.tasiWriteMeta.sessionID = sid at hid
      obtain ⟨hP, R, hR, hRA, hlt⟩ := hw.read (by simp [hr]) hid
      obtain ⟨hra, hrm⟩ := reply_eq hb t.atRead t.tasi.tasiWriteMeta.sessionID
      rw [← hreply] at hra hrm
      have hAB := hw.push.le
      have hBP := hw.le
      -- no update of `mempt` is pending, so the reply shows the entry's `mempt`
      have hMP : M = P := by
        have hupd := hw.upd
        rw [hreq] at hupd
        exact hupd
      subst hMP
      have hmempt : r.mempt = (t.table sid).mempt := by rw [hrm, hP, hw.mempt]
      have hfit := fits hsp (hra.trans hR) (hrm.trans hP) (by omega) hlt
      have hltA := hw.lt
      unfold Build.bufferSize at hlt hfit hltA
      have hused : used (t.table sid) = M - A := by
        rw [used, hw.ackd, hw.mempt, ofNat_sub_toNat (by omega) hltA]
      have husedR : used t.atRead = M - R := by
        rw [used, hP, hR, ofNat_sub_toNat (by omega) hlt]
      have hpos (k : Nat) (hk : k ≤ t.tasi.tasiWriteMeta.length.toNat) :
          ((t.table sid).mempt + BitVec.ofNat _ k - (t.table sid).ackd).toNat =
            used (t.table sid) + k := by
        rw [hused, hw.ackd, hw.mempt, ← BitVec.ofNat_add, ofNat_sub_toNat (by omega) (by omega)]
        omega
      have hlen : t.tasi.tasiWriteMeta.length.setWidth b.windowBits =
          BitVec.ofNat _ t.tasi.tasiWriteMeta.length.toNat := by
        rw [BitVec.ofNat_toNat]
      refine ⟨fun _ => ?_, fun _ k hk => hpos k (Nat.le_of_lt hk), fun _ => ⟨?_, ?_, ?_⟩,
        fun _ hnd hl => ⟨?_, by omega⟩, fun h => absurd rfl h⟩
      · rw [hu]
        show (([_] : List MmCmd).flatMap (MmCmd.parts b)).flatMap MmCmd.addresses = _
        rw [List.flatMap_cons, List.flatMap_nil, List.append_nil, hid, parts_addresses, hmempt]
      · rw [hu]
        show [TxAppTxSarQuery.update t.tasi.tasiWriteMeta.sessionID (r.mempt + _)] =
          [.update sid ((t.table sid).mempt + t.tasi.tasiWriteMeta.length.setWidth _)]
        rw [hid, hmempt]
      · show ((t.table sid).mempt + t.tasi.tasiWriteMeta.length.setWidth _ - _).toNat = _
        rw [hlen]
        exact hpos _ (Nat.le_refl _)
      · show used (t.table sid) + t.tasi.tasiWriteMeta.length.toNat < 2 ^ b.windowBits
        rw [hused]
        omega
      · have hwin := fits_window hnd hsp hl
        have hmin : r.minWindow = t.atRead.minWindow := by
          rw [hreply]
          simp [TxAppTableEntry.reply, hnd]
        rw [TxAppTxSarReply.usedLength, hra, hrm, hmin] at hwin
        exact hwin

namespace BufferNet

variable {W : Nat}

/-- The moment after the push that initialises session `sid`: nothing else is on its way for `sid`. -/
structure Opened (sid : SessionID) (t : BufferNet b W) : Prop where
  engines : AppNet.Engines sid t.app
  entry : ∃ (entry : TxAppTableEntry b) (n minWindow : BitVec b.windowBits),
    t.app.table sid = entry.push ⟨sid, n, minWindow, true⟩
  push : ∀ p ∈ t.app.ackPush, p.sessionID ≠ sid
  upd : ∀ q ∈ t.app.updReq, q.write = true → q.sessionID ≠ sid
  read : t.app.fifo.txSar2txAppUpdRsp ≠ [] → t.app.tasi.tasiWriteMeta.sessionID ≠ sid
  ordered : Ordered t

theorem Opened.inv {t : BufferNet b W} (h : Opened sid t) : AppNet.Inv sid t.app := by
  obtain ⟨entry, n, minWindow, hentry⟩ := h.entry
  have hone : 1 < b.bufferSize := by
    rcases b.bufferSize_eq with hs | hs <;> omega
  refine ⟨h.engines, (n - 1).toNat, (n - 1).toNat, (n - 1).toNat + 1, (n - 1).toNat + 1, ?_, ?_,
    Moves.skip ?_, Moves.skip ?_, by omega, by omega, ?_⟩
  · rw [hentry, BitVec.ofNat_toNat, BitVec.setWidth_eq]
    rfl
  · rw [hentry, BitVec.ofNat_add, BitVec.ofNat_toNat, BitVec.setWidth_eq]
    exact (BitVec.sub_add_cancel n 1).symm
  · intro p hp
    exact if_neg (h.push p hp)
  · intro q hq
    exact if_neg fun hq' => h.upd q hq hq'.1 hq'.2
  · intro hr hid
    exact absurd hid (h.read hr)

/-- In every run after the initialisation of `sid`, with acknowledgements that advance inside
`[ackd, mempt]`, every answer keeps the unacknowledged bytes of `sid` safe, and the memory commands are
those of the accepted writes in order. -/
theorem tx_buffer_safe {t₀ t : BufferNet b W}
    (hb : b.tcpNodelay = true ∨ b.windowScale = false) (h₀ : Opened sid t₀)
    (h : Reach (step sid) anyStep t₀ t) :
    (∀ rsp ∈ t.app.callTasi.2.appTxDataRsp, rsp.sessionID = sid → Guarded sid t.app rsp) ∧
      t.written <+: t.cmds.flatMap (MmCmd.parts b) := by
  have hinv : AppNet.Inv sid t.app ∧ Ordered t := by
    refine h.invariant (P := fun t => AppNet.Inv sid t.app ∧ Ordered t) ⟨h₀.inv, h₀.ordered⟩ ?_
    intro u l v ⟨hu, ho⟩ _ hs
    refine ⟨?_, ordered_step ho hs⟩
    cases l with
    | app l =>
      simp only [step, Option.map_eq_some_iff] at hs
      obtain ⟨app, happ, rfl⟩ := hs
      exact AppNet.inv_step hb hu happ
    | data word =>
      cases hs
      exact hu
    | pusher emptyWord =>
      simp only [step, Option.some.injEq] at hs
      subst hs
      exact hu
  refine ⟨fun rsp hrsp hid => hinv.1.guarded hb hrsp hid, ?_⟩
  rw [← hinv.2, List.append_assoc]
  exact List.prefix_append _ _

variable (b) in
/-- Idle interface right after session `sid` was initialised with `not_ackd = n`. -/
def opened (W : Nat) (sid : SessionID) (n : BitVec b.windowBits) : BufferNet b W :=
  { app :=
      { tasi := .init, fifo := {}, stateReq := [], updReq := [], ackPush := []
        table := fun id =>
          if id = sid then (default : TxAppTableEntry b).push ⟨sid, n, initialCongWindow b, true⟩
          else default
        atRead := default }
    pusher := .init b W, pushIn := {}, cmds := [], written := [] }

theorem opened_opened (sid : SessionID) (n : BitVec b.windowBits) : Opened sid (opened b W sid n) := by
  refine ⟨⟨TableClient.quiet (by simp [opened]), by simp [opened], by simp [opened], by simp [opened]⟩,
    ⟨default, n, initialCongWindow b, by simp [opened]⟩, by simp [opened], by simp [opened],
    by simp [opened], rfl⟩

/-- A request for `length` bytes of session 0, up to the point where both replies are there. -/
def ask (length : BitVec 16) : List (BufferLabel .sample 64) :=
  [.app (.request ⟨0, length⟩), .app .tasi, .app .table, .app (.stateRsp .ESTABLISHED)]

def accept : List (BufferLabel .sample 64) := [.app .tasi, .app .table]

theorem tx_buffer_safe_write :
    ∃ t rsp, Reach (step 0) anyStep (opened .sample 64 0 1000) t ∧
      rsp ∈ t.app.callTasi.2.appTxDataRsp ∧ rsp.error = noError ∧ rsp.length = 300 ∧
      Guarded 0 t.app rsp := by
  have h : (run (step 0) (opened .sample 64 0 1000) (ask 100 ++ accept ++ ask 300)).map
      (fun t => t.app.callTasi.2.appTxDataRsp) = some [⟨0, 300, 262042, noError⟩] := by
    decide +kernel
  obtain ⟨t, ht, hp⟩ := Option.map_eq_some_iff.mp h
  refine ⟨t, _, reach_of_run ht, by rw [hp]; exact List.mem_cons_self, rfl, rfl, ?_⟩
  exact (tx_buffer_safe (.inl rfl) (opened_opened 0 1000) (reach_of_run ht)).1 _
    (by rw [hp]; exact List.mem_cons_self) rfl

-- The window shrinks below the bytes in flight, and an empty write is still accepted.
theorem empty_write_beyond_window :
    ∃ t rsp, Opened 0 (opened .sample 64 0 1000) ∧
      Reach (step 0) anyStep (opened .sample 64 0 1000) t ∧
      rsp ∈ t.app.callTasi.2.appTxDataRsp ∧ rsp.sessionID = 0 ∧ rsp.error = noError ∧
      ¬AppNet.used t.app.atRead + rsp.length.toNat ≤ t.app.atRead.minWindow.toNat := by
  have h : (run (step 0) (opened .sample 64 0 1000)
      (ask 100 ++ accept ++ [.app (.ackPush ⟨0, 1000, 50, false⟩), .app .table] ++ ask 0)).map
      (fun t => (t.app.callTasi.2.appTxDataRsp, AppNet.used t.app.atRead, t.app.atRead.minWindow)) =
      some ([⟨0, 0, 262043, noError⟩], 100, 50) := by
    decide +kernel
  obtain ⟨t, ht, hp⟩ := Option.map_eq_some_iff.mp h
  simp only [Prod.mk.injEq] at hp
  obtain ⟨hrsp, hused, hmin⟩ := hp
  refine ⟨t, _, opened_opened 0 1000, reach_of_run ht, by rw [hrsp]; exact List.mem_cons_self, rfl, rfl, ?_⟩
  rw [hused, hmin]
  decide

end BufferNet

end FpgaNetworkStack.Toe
