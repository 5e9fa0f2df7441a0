import FpgaNetworkStack.Udp.Engine

/-!
# The transmit side connected to the receive side

`m_axis_tx_meta` and `m_axis_tx_data` of one `udp` are `s_axis_rx_meta` and `s_axis_rx_data` of another.  Each
process may be called at any time; in whatever order they are called, the system comes to rest in one state.
-/

namespace FpgaNetworkStack.Udp

open Lib
open Axi (Word LShift RShift lshiftWordByOctet lshift_waits rshiftWordByOctet rshift_waits)
open Roce (IpUdpMeta)

variable {N : Nat} {port : BitVec 16}

/-- The bytes of the header that do not fill a word. -/
def shiftOffset (N : Nat) : Nat := (UDP_HEADER_SIZE % (8 * N)) / 8

structure UdpNet (N : Nat) where
  sAxisTxMeta : List IpUdpMeta
  sAxisTxData : List (Word N)
  lshift : LShift N := {}
  generate : GenerateUdp := {}
  process : ProcessUdp N := {}
  rshift : RShift N := .init (shiftOffset N)
  txUdpMetaFifo : List UdpMeta := []
  txShift2udpFifo : List (Word N) := []
  ipMeta : List IpMeta := []
  packets : List (Word N) := []
  rxUdp2shiftFifo : List (Word N) := []
  rxUdpMetaFifo : List UdpMeta := []
  mAxisRxMeta : List IpUdpMeta := []
  mAxisRxData : List (Word N) := []

inductive Proc where
  | splitTxMeta | lshift | generateUdp | processUdp | rshift | mergeRxMeta

/-- `split_tx_meta` and `merge_rx_meta` have no static variables. -/
def splitProc (_ : Unit) (i : List IpUdpMeta) : Unit × List IpUdpMeta × SplitOut := ((), splitTxMeta i)

def mergeProc (_ : Unit) (i : MergeIn) : Unit × MergeIn × List IpUdpMeta := ((), mergeRxMeta i)

def UdpNet.call (port : BitVec 16) (n : UdpNet N) : Proc → UdpNet N
  | .splitTxMeta =>
    let r := splitProc () n.sAxisTxMeta
    { n with
      sAxisTxMeta := r.2.1
      ipMeta := n.ipMeta ++ r.2.2.metaOut0
      txUdpMetaFifo := n.txUdpMetaFifo ++ r.2.2.metaOut1 }
  | .lshift =>
    let r := lshiftWordByOctet (shiftOffset N) n.lshift n.sAxisTxData
    { n with lshift := r.1, sAxisTxData := r.2.1, txShift2udpFifo := n.txShift2udpFifo ++ r.2.2 }
  | .generateUdp =>
    let r := generateUdp n.generate ⟨n.txUdpMetaFifo, n.txShift2udpFifo⟩
    { n with
      generate := r.1
      txUdpMetaFifo := r.2.1.metaIn
      txShift2udpFifo := r.2.1.input
      packets := n.packets ++ r.2.2 }
  | .processUdp =>
    let r := processUdp port n.process n.packets
    { n with
      process := r.1
      packets := r.2.1
      rxUdpMetaFifo := n.rxUdpMetaFifo ++ r.2.2.metaOut
      rxUdp2shiftFifo := n.rxUdp2shiftFifo ++ r.2.2.output }
  | .rshift =>
    let r := rshiftWordByOctet (shiftOffset N) n.rshift n.rxUdp2shiftFifo
    { n with rshift := r.1, rxUdp2shiftFifo := r.2.1, mAxisRxData := n.mAxisRxData ++ r.2.2 }
  | .mergeRxMeta =>
    let r := mergeProc () ⟨n.ipMeta, n.rxUdpMetaFifo⟩
    { n with
      ipMeta := r.2.1.ipMetaIn
      rxUdpMetaFifo := r.2.1.udpMetaIn
      mAxisRxMeta := n.mAxisRxMeta ++ r.2.2 }

def UdpNet.step (port : BitVec 16) (n : UdpNet N) (p : Proc) : Option (UdpNet N) := some (n.call port p)

def UdpNet.AtRest (port : BitVec 16) (n : UdpNet N) : Prop := ∀ p, n.call port p = n

/-! ## Processes wait for their input -/

instance : Append (GenerateUdpIn N) := ⟨fun i j => ⟨i.metaIn ++ j.metaIn, i.input ++ j.input⟩⟩

instance : Append MergeIn := ⟨fun i j => ⟨i.ipMetaIn ++ j.ipMetaIn, i.udpMetaIn ++ j.udpMetaIn⟩⟩

theorem generateUdpIn_append (ms ms' : List UdpMeta) (ws ws' : List (Word N)) :
    (⟨ms, ws⟩ ++ ⟨ms', ws'⟩ : GenerateUdpIn N) = ⟨ms ++ ms', ws ++ ws'⟩ := rfl

theorem generateUdp_waits : Waits (generateUdp (N := N)) [] := by
  rintro s ⟨ms, ws⟩
  cases hst : s.state with
  | META =>
    cases ms with
    | nil => exact .inl (by simp only [generateUdp, hst])
    | cons m ms =>
      right
      rintro ⟨ms', ws'⟩
      simp only [generateUdp, hst, generateUdpIn_append, List.cons_append]
  | HEADER => exact .inr fun _ => by simp only [generateUdp, hst]
  | PARTIAL_HEADER | BODY =>
    cases ws with
    | nil => exact .inl (by simp only [generateUdp, hst])
    | cons w ws =>
      right
      rintro ⟨ms', ws'⟩
      simp only [generateUdp, hst, generateUdpIn_append, List.cons_append]

theorem processUdp_waits (port : BitVec 16) : Waits (processUdp (N := N) port) {} := by
  intro s i
  cases i with
  | nil => exact .inl rfl
  | cons w ws => exact .inr fun ws' => rfl

theorem mergeProc_waits : Waits mergeProc [] := by
  rintro - ⟨is, ms⟩
  cases is with
  | nil => exact .inl rfl
  | cons i is =>
    cases ms with
    | nil => exact .inl rfl
    | cons m ms => exact .inr fun _ => rfl

/-! ## Coming to rest -/

/-- From here on each process comes to rest on what is in its queues and what is still put into them; then
`metas` and `data` have been received. -/
inductive Finishes (port : BitVec 16) (n : UdpNet N) : List IpUdpMeta → List (Word N) → Prop
  | intro {so lo go po ro mo} {si : List IpUdpMeta} {li pi ri : List (Word N)} {gi mi} {l g p r}
      (split : Rests splitProc {} () n.sAxisTxMeta so () si)
      (lshift : Rests (lshiftWordByOctet (shiftOffset N)) [] n.lshift n.sAxisTxData lo l li)
      (generate : Rests generateUdp [] n.generate
        ⟨n.txUdpMetaFifo ++ so.flatMap (·.metaOut1), n.txShift2udpFifo ++ lo.flatten⟩ go g gi)
      (process : Rests (processUdp port) {} n.process (n.packets ++ go.flatten) po p pi)
      (rshift : Rests (rshiftWordByOctet (shiftOffset N)) [] n.rshift (n.rxUdp2shiftFifo ++ po.flatMap (·.output)) ro r ri)
      (merge : Rests mergeProc [] ()
        ⟨n.ipMeta ++ so.flatMap (·.metaOut0), n.rxUdpMetaFifo ++ po.flatMap (·.metaOut)⟩ mo () mi) :
      Finishes port n (n.mAxisRxMeta ++ mo.flatten) (n.mAxisRxData ++ ro.flatten)

variable {n : UdpNet N} {metas : List IpUdpMeta} {data : List (Word N)}

theorem Finishes.call (h : Finishes port n metas data) (p : Proc) : Finishes port (n.call port p) metas data := by
  obtain ⟨split, lshift, generate, process, rshift, merge⟩ := h
  cases p with
  | splitTxMeta =>
    obtain ⟨_, split', hso⟩ := split.step
    rw [flatMap_called rfl hso, ← List.append_assoc] at generate
    rw [flatMap_called rfl hso, ← List.append_assoc] at merge
    exact .intro split' lshift generate process rshift merge
  | lshift =>
    obtain ⟨_, lshift', hlo⟩ := lshift.step
    rw [flatten_called hlo, ← List.append_assoc] at generate
    exact .intro split lshift' generate process rshift merge
  | generateUdp =>
    obtain ⟨_, generate', hgo⟩ := Rests.called generateUdp_waits (i := ⟨n.txUdpMetaFifo, n.txShift2udpFifo⟩)
      (x := ⟨_, _⟩) generate
    rw [flatten_called hgo, ← List.append_assoc] at process
    exact .intro split lshift generate' process rshift merge
  | processUdp =>
    obtain ⟨_, process', hpo⟩ := process.called (processUdp_waits port)
    rw [flatMap_called rfl hpo, ← List.append_assoc] at rshift
    rw [flatMap_called rfl hpo, ← List.append_assoc n.rxUdpMetaFifo] at merge
    exact .intro split lshift generate process' rshift merge
  | rshift =>
    obtain ⟨_, rshift', hro⟩ := rshift.called (rshift_waits _)
    rw [flatten_called hro, ← List.append_assoc]
    exact .intro split lshift generate process rshift' merge
  | mergeRxMeta =>
    obtain ⟨_, merge', hmo⟩ := Rests.called mergeProc_waits (i := ⟨n.ipMeta, n.rxUdpMetaFifo⟩) (x := ⟨_, _⟩) merge
    rw [flatten_called hmo, ← List.append_assoc]
    exact .intro split lshift generate process rshift merge'

theorem Finishes.reach {t : UdpNet N} (h : Finishes port n metas data) (hreach : Reach (UdpNet.step port) anyStep n t) :
    Finishes port t metas data := by
  refine Reach.invariant (P := fun n => Finishes port n metas data) hreach h ?_
  intro u p v hu _ hs
  cases Option.some.inj hs
  exact hu.call p

/-- Every process is idle on what is in its queues. -/
structure UdpNet.Idle (port : BitVec 16) (n : UdpNet N) : Prop where
  split : splitProc () n.sAxisTxMeta = ((), n.sAxisTxMeta, {})
  lshift : lshiftWordByOctet (shiftOffset N) n.lshift n.sAxisTxData = (n.lshift, n.sAxisTxData, [])
  generate : generateUdp n.generate ⟨n.txUdpMetaFifo, n.txShift2udpFifo⟩ =
    (n.generate, ⟨n.txUdpMetaFifo, n.txShift2udpFifo⟩, [])
  process : processUdp port n.process n.packets = (n.process, n.packets, {})
  rshift : rshiftWordByOctet (shiftOffset N) n.rshift n.rxUdp2shiftFifo = (n.rshift, n.rxUdp2shiftFifo, [])
  merge : mergeProc () ⟨n.ipMeta, n.rxUdpMetaFifo⟩ = ((), ⟨n.ipMeta, n.rxUdpMetaFifo⟩, [])

-- a queue that does not change gets nothing
theorem UdpNet.AtRest.idle (h : n.AtRest port) : n.Idle port where
  split := by
    have hcall := h .splitTxMeta
    exact Prod.ext rfl (Prod.ext (congrArg sAxisTxMeta hcall) (SplitOut.ext
      (List.append_right_eq_self.mp (congrArg ipMeta hcall)) (List.append_right_eq_self.mp (congrArg txUdpMetaFifo hcall))))
  lshift := by
    have hcall := h .lshift
    exact Prod.ext (congrArg UdpNet.lshift hcall) (Prod.ext (congrArg sAxisTxData hcall)
      (List.append_right_eq_self.mp (congrArg txShift2udpFifo hcall)))
  generate := by
    have hcall := h .generateUdp
    exact Prod.ext (congrArg UdpNet.generate hcall) (Prod.ext (GenerateUdpIn.ext (congrArg txUdpMetaFifo hcall)
      (congrArg txShift2udpFifo hcall)) (List.append_right_eq_self.mp (congrArg packets hcall)))
  process := by
    have hcall := h .processUdp
    exact Prod.ext (congrArg UdpNet.process hcall) (Prod.ext (congrArg packets hcall) (ProcessUdpOut.ext
      (List.append_right_eq_self.mp (congrArg rxUdpMetaFifo hcall))
      (List.append_right_eq_self.mp (congrArg rxUdp2shiftFifo hcall))))
  rshift := by
    have hcall := h .rshift
    exact Prod.ext (congrArg UdpNet.rshift hcall) (Prod.ext (congrArg rxUdp2shiftFifo hcall)
      (List.append_right_eq_self.mp (congrArg mAxisRxData hcall)))
  merge := by
    have hcall := h .mergeRxMeta
    exact Prod.ext rfl (Prod.ext (MergeIn.ext (congrArg ipMeta hcall) (congrArg rxUdpMetaFifo hcall))
      (List.append_right_eq_self.mp (congrArg mAxisRxMeta hcall)))

theorem UdpNet.Idle.at_rest (h : n.Idle port) : n.AtRest port := by
  intro p
  cases p with
  | splitTxMeta => simp [UdpNet.call, h.split]
  | lshift => simp [UdpNet.call, h.lshift]
  | generateUdp => simp [UdpNet.call, h.generate]
  | processUdp => simp [UdpNet.call, h.process]
  | rshift => simp [UdpNet.call, h.rshift]
  | mergeRxMeta => simp [UdpNet.call, h.merge]

theorem Finishes.at_rest (h : Finishes port n metas data) (hrest : n.AtRest port) :
    n.mAxisRxMeta = metas ∧ n.mAxisRxData = data := by
  obtain ⟨split, lshift, generate, process, rshift, merge⟩ := h
  have hidle := hrest.idle
  obtain ⟨-, -, hso⟩ := split.at_rest hidle.split
  obtain ⟨-, -, hlo⟩ := lshift.at_rest hidle.lshift
  rw [flatMap_idle rfl hso, List.flatten_eq_nil_iff.mpr hlo, List.append_nil, List.append_nil] at generate
  obtain ⟨-, -, hgo⟩ := generate.at_rest hidle.generate
  rw [List.flatten_eq_nil_iff.mpr hgo, List.append_nil] at process
  obtain ⟨-, -, hpo⟩ := process.at_rest hidle.process
  rw [flatMap_idle rfl hpo, List.append_nil] at rshift
  rw [flatMap_idle rfl hso, flatMap_idle rfl hpo, List.append_nil, List.append_nil] at merge
  obtain ⟨-, -, hro⟩ := rshift.at_rest hidle.rshift
  obtain ⟨-, -, hmo⟩ := merge.at_rest hidle.merge
  rw [List.flatten_eq_nil_iff.mpr hmo, List.flatten_eq_nil_iff.mpr hro, List.append_nil, List.append_nil]
  exact ⟨rfl, rfl⟩

/-! ## One process after the other -/

section

variable (port : BitVec 16) (n : UdpNet N)

theorem run_split : ∀ so t i, Runs splitProc () n.sAxisTxMeta so t i →
    Reach (UdpNet.step port) anyStep n
      { n with
        sAxisTxMeta := i
        ipMeta := n.ipMeta ++ so.flatMap (·.metaOut0)
        txUdpMetaFifo := n.txUdpMetaFifo ++ so.flatMap (·.metaOut1) } :=
  Runs.reach Proc.splitTxMeta (fun s i os => by simp [UdpNet.step, UdpNet.call]) (by simp)

theorem run_lshift : ∀ os t i, Runs (lshiftWordByOctet (shiftOffset N)) n.lshift n.sAxisTxData os t i →
    Reach (UdpNet.step port) anyStep n
      { n with lshift := t, sAxisTxData := i, txShift2udpFifo := n.txShift2udpFifo ++ os.flatten } :=
  Runs.reach Proc.lshift (fun s i os => by simp [UdpNet.step, UdpNet.call]) (by simp)

theorem run_generate : ∀ os t i, Runs generateUdp n.generate ⟨n.txUdpMetaFifo, n.txShift2udpFifo⟩ os t i →
    Reach (UdpNet.step port) anyStep n
      { n with
        generate := t, txUdpMetaFifo := i.metaIn, txShift2udpFifo := i.input, packets := n.packets ++ os.flatten } :=
  Runs.reach Proc.generateUdp (fun s i os => by simp [UdpNet.step, UdpNet.call]) (by simp)

theorem run_process : ∀ os t i, Runs (processUdp port) n.process n.packets os t i →
    Reach (UdpNet.step port) anyStep n
      { n with
        process := t
        packets := i
        rxUdpMetaFifo := n.rxUdpMetaFifo ++ os.flatMap (·.metaOut)
        rxUdp2shiftFifo := n.rxUdp2shiftFifo ++ os.flatMap (·.output) } :=
  Runs.reach Proc.processUdp (fun s i os => by simp [UdpNet.step, UdpNet.call]) (by simp)

theorem run_rshift : ∀ os t i, Runs (rshiftWordByOctet (shiftOffset N)) n.rshift n.rxUdp2shiftFifo os t i →
    Reach (UdpNet.step port) anyStep n
      { n with rshift := t, rxUdp2shiftFifo := i, mAxisRxData := n.mAxisRxData ++ os.flatten } :=
  Runs.reach Proc.rshift (fun s i os => by simp [UdpNet.step, UdpNet.call]) (by simp)

theorem run_merge : ∀ os t i, Runs mergeProc () ⟨n.ipMeta, n.rxUdpMetaFifo⟩ os t i →
    Reach (UdpNet.step port) anyStep n
      { n with ipMeta := i.ipMetaIn, rxUdpMetaFifo := i.udpMetaIn, mAxisRxMeta := n.mAxisRxMeta ++ os.flatten } :=
  Runs.reach Proc.mergeRxMeta (fun s i os => by simp [UdpNet.step, UdpNet.call]) (by simp)

end

/-- The system can come to rest: one process after the other is called as long as it has something to do. -/
theorem Finishes.rest (h : Finishes port n metas data) :
    ∃ t, Reach (UdpNet.step port) anyStep n t ∧ t.AtRest port := by
  obtain ⟨split, lshift, generate, process, rshift, merge⟩ := h
  have h1 := run_split port n _ _ _ split.run
  have h2 := h1.trans (run_lshift port _ _ _ _ lshift.run)
  have h3 := h2.trans (run_generate port _ _ _ _ generate.run)
  have h4 := h3.trans (run_process port _ _ _ _ process.run)
  have h5 := h4.trans (run_rshift port _ _ _ _ rshift.run)
  have h6 := h5.trans (run_merge port _ _ _ _ merge.run)
  exact ⟨_, h6, UdpNet.Idle.at_rest ⟨split.rest, lshift.rest, generate.rest, process.rest, rshift.rest, merge.rest⟩⟩

end FpgaNetworkStack.Udp
