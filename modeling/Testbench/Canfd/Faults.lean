import Testbench.Canfd.Operations

/-!
Error counters and fault confinement.

`counterLaw` is the law the header comment of `on_error_detected` states, on
natural numbers: +8 and saturation on the erring side, -1 with floor 0 for a
success on either side. `counters_step` compares one step of the model with it:
they agree except on a successful reception, which leaves the model's REC alone.
Everything else here follows from that lemma: the bounds that keep the nine-bit
arithmetic exact, the monotonicity of the confinement level
(`faultConfinement_run`), and the runs on which the law holds
(`follows_counterLaw_iff`).
-/

namespace Testbench.Canfd

open Testbench.Lib Testbench.Canphy

/-! ### The law -/

/-- What a step means to the error counters. -/
inductive CounterEvent where
  | error (isTx : Bool)
  | txSuccess
  | rxSuccess
  | reset
  | other
  deriving DecidableEq, Repr

/-- TEC and REC after an event. -/
def counterLaw : Nat × Nat → CounterEvent → Nat × Nat
  | (tec, rec'), .error true => (min 256 (tec + 8), rec')
  | (tec, rec'), .error false => (tec, min 128 (rec' + 8))
  | (tec, rec'), .txSuccess => (tec - 1, rec')
  | (tec, rec'), .rxSuccess => (tec, rec' - 1)
  | _, .reset => (0, 0)
  | c, .other => c

/-- The counters never leave their ranges. -/
def InRange (c : Nat × Nat) : Prop := c.1 ≤ 256 ∧ c.2 ≤ 128

theorem InRange.counterLaw {c : Nat × Nat} (h : InRange c) (e : CounterEvent) :
    InRange (counterLaw c e) := by
  obtain ⟨htec, hrec⟩ := h
  cases e with
  | error isTx =>
    cases isTx with
    | true => exact ⟨min_le_left _ _, hrec⟩
    | false => exact ⟨htec, min_le_left _ _⟩
  | txSuccess => exact ⟨le_trans (Nat.sub_le _ _) htec, hrec⟩
  | rxSuccess => exact ⟨htec, le_trans (Nat.sub_le _ _) hrec⟩
  | reset => exact ⟨Nat.zero_le _, Nat.zero_le _⟩
  | other => exact ⟨htec, hrec⟩

/-- The confinement level of a pair of counters: 0 active, 1 passive, 2 bus off. -/
def levelOf (c : Nat × Nat) : Nat :=
  if 256 ≤ c.1 then 2 else if 128 ≤ c.1 ∨ 128 ≤ c.2 then 1 else 0

theorem levelOf_mono {c d : Nat × Nat} (h1 : c.1 ≤ d.1) (h2 : c.2 ≤ d.2) :
    levelOf c ≤ levelOf d := by
  unfold levelOf
  split_ifs <;> omega

namespace RefModel

/-! ### The model's counters -/

/-- The buffer an operation completes the transmission of, if it completes one. -/
def transmits (m : RefModel) : RefOp → Option (Fin 32)
  | .txArbitration => m.processTxArbitrationIdx
  | .writeReg addr _ => if addr = 0x0090#32 then m.processTxArbitrationIdx else none
  | _ => none

/-- What an operation means to the error counters. -/
def counterEvent (m : RefModel) (op : RefOp) : CounterEvent :=
  match op with
  | .errorDetected _ _ isTx => .error isTx
  | .received tr => if tr.isDataOrRemote then .rxSuccess else .other
  | op =>
      if op.softReset then .reset
      else match m.transmits op with
        | some _ => .txSuccess
        | none => .other

/-- Only `on_error_detected` is an error to the counters. -/
theorem errorDetected_of_event (m : RefModel) {op : RefOp} {isTx : Bool}
    (h : m.counterEvent op = .error isTx) :
    ∃ errType isFd, op = .errorDetected errType isFd isTx := by
  cases op with
  | errorDetected errType isFd isTx' =>
    obtain rfl : isTx' = isTx := CounterEvent.error.inj h
    exact ⟨errType, isFd, rfl⟩
  | received tr =>
    simp only [counterEvent] at h
    split at h <;> cases h
  | _ =>
    simp only [counterEvent] at h
    split at h
    · cases h
    · split at h <;> cases h

/-- TEC and REC as numbers. -/
def counters (m : RefModel) : Nat × Nat := (m.TEC.toNat, m.REC.toNat)

theorem toNat_saturate (limit x : BitVec 9) :
    (saturate limit x).toNat = min limit.toNat x.toNat := by
  unfold saturate
  split
  · next h => exact (min_eq_left (le_of_lt (BitVec.lt_def.mp h))).symm
  · next h => exact (min_eq_right (not_lt.mp fun hlt => h (BitVec.lt_def.mpr hlt))).symm

/-- In range, adding the increment does not wrap. -/
theorem toNat_add_eight {x : BitVec 9} (h : x.toNat ≤ 256) : (x + 8).toNat = x.toNat + 8 := by
  bv_omega

/-- The guarded decrement is subtraction with floor 0. -/
theorem toNat_pred (x : BitVec 9) : (if 0 < x then x - 1 else x).toNat = x.toNat - 1 := by
  split <;> bv_omega

theorem counters_onErrorDetected {m : RefModel} (h : InRange m.counters) (errType : CanErrorType)
    (isFd isTx : Bool) :
    (m.onErrorDetected errType isFd isTx).counters = counterLaw m.counters (.error isTx) := by
  obtain ⟨htec, hrec⟩ := h
  simp only [counters] at htec hrec
  obtain ⟨esr, sr, isr, heq, -⟩ := onErrorDetected_eq m errType isFd isTx
  rw [heq]
  have hoff : BUSOFF_LIMIT.toNat = 256 := rfl
  have hpas : EPAS_LIMIT.toNat = 128 := rfl
  cases isTx with
  | true =>
    simp only [counters, counterLaw, if_true, toNat_saturate, hoff, hpas, toNat_add_eight htec,
      min_eq_right hrec]
  | false =>
    have h8 := toNat_add_eight (le_trans hrec (by decide : 128 ≤ 256))
    simp only [counters, counterLaw, Bool.false_eq_true, if_false, toNat_saturate, hoff, hpas, h8,
      min_eq_right htec]

theorem counters_processTxArbitration (m : RefModel) :
    m.processTxArbitration.counters = counterLaw m.counters
      (match m.processTxArbitrationIdx with
        | some _ => .txSuccess
        | none => .other) := by
  unfold processTxArbitration
  cases m.processTxArbitrationIdx with
  | none => rfl
  | some i =>
    obtain ⟨events, fsr, heq⟩ := m.completeTx_eq i
    simp only [heq, counters, toNat_pred, counterLaw]

theorem counters_writeReg (m : RefModel) (addr data : BitVec 32) :
    (m.writeReg addr data).counters =
      counterLaw m.counters (m.counterEvent (.writeReg addr data)) := by
  rcases writeReg_cases m addr data with ⟨hreset, heq⟩ | ⟨hreset, hcase⟩
  · simp only [heq, counterEvent, RefOp.softReset, hreset, if_true]
    rfl
  · simp only [counterEvent, RefOp.softReset, hreset, Bool.false_eq_true, if_false, transmits]
    rcases hcase with ⟨rfl, heq⟩ | ⟨rfl, heq⟩ | ⟨hne, -, hsame⟩
    · -- the arbiter does not look at TRR
      exact heq ▸ counters_processTxArbitration { m with TRR := m.TRR ||| data }
    · obtain ⟨bufs, events, fsr, hrun, -⟩ := m.cancel_eq data
      rw [heq, hrun]
      rfl
    · simp only [hne, if_false, counterLaw, counters, hsame.TEC, hsame.REC]

/-- **One step follows the law, except that a successful reception changes nothing.** -/
theorem counters_step {m : RefModel} (h : InRange m.counters) (op : RefOp) :
    (m.step op).counters =
      if m.counterEvent op = .rxSuccess then m.counters
      else counterLaw m.counters (m.counterEvent op) := by
  have hquiet : op.softReset = false → op.countsErrors = false →
      (m.step op).counters = m.counters := by
    intro hreset hside
    have hkeeps := m.step_keepsSides hreset
    rw [counters, hkeeps.TEC hside, hkeeps.REC hside, counters]
  cases op with
  | writeReg addr data =>
    have hne : m.counterEvent (.writeReg addr data) ≠ .rxSuccess := by
      simp only [counterEvent]
      split
      · simp
      · split <;> simp
    rw [if_neg hne]
    exact counters_writeReg m addr data
  | txArbitration =>
    simp only [step, counters_processTxArbitration, counterEvent, RefOp.softReset, transmits,
      Bool.false_eq_true, if_false]
    cases m.processTxArbitrationIdx <;> rfl
  | received tr =>
    rw [hquiet rfl rfl]
    by_cases hframe : tr.isDataOrRemote = true <;> simp [counterEvent, hframe, counterLaw]
  | errorDetected errType isFd isTx => exact counters_onErrorDetected h errType isFd isTx
  | _ => exact hquiet rfl rfl

theorem inRange_step {m : RefModel} (op : RefOp) (h : InRange m.counters) :
    InRange (m.step op).counters := by
  rw [counters_step h]
  split
  · exact h
  · exact h.counterLaw _

theorem inRange_preset (bufs : Fin 32 → TxBuf) (f0 f1 : Fin 32 → Filter) :
    InRange (preset bufs f0 f1).counters := ⟨Nat.zero_le _, Nat.zero_le _⟩

/-- **The counters follow the law through a whole run iff no frame is received in it
while REC is positive.** -/
theorem follows_counterLaw_iff (bufs : Fin 32 → TxBuf) (f0 f1 : Fin 32 → Filter)
    (ops : List RefOp) :
    (∀ n, (run step (preset bufs f0 f1) (ops.take n)).counters =
        (trace step counterEvent (preset bufs f0 f1) (ops.take n)).foldl counterLaw (0, 0)) ↔
      Along step (fun m op => m.counterEvent op = .rxSuccess → m.REC = 0)
        (preset bufs f0 f1) ops := by
  refine tracks_iff (fun (m : RefModel) op (h : InRange m.counters) => inRange_step op h)
    (fun m op h => ?_) (inRange_preset bufs f0 f1) ops
  rw [counters_step h]
  by_cases hevent : m.counterEvent op = .rxSuccess
  · simp only [hevent, if_true, true_imp_iff, counterLaw, counters, Prod.mk.injEq, true_and]
    bv_omega
  · simp [hevent]

/-- One receive error raises REC to 8; the frame received after it leaves it there. -/
theorem reception_keeps_rec :
    let ops : List RefOp := [.errorDetected .errStuff false false,
      .received { canId := 0x123, dlc := 1, data := [some 0x5A] }]
    (run step new ops).counters = (0, 8) ∧
      (trace step counterEvent new ops).foldl counterLaw (0, 0) = (0, 7) := by
  decide +kernel

/-! ### Confinement -/

/-- The confinement level as software reads it: BOFF before EPAS. -/
def confinementLevel (m : RefModel) : Nat :=
  if m.computeSr.getLsbD 5 then 2 else if m.computeSr.getLsbD 4 then 1 else 0

theorem boff_iff (m : RefModel) : m.computeSr.getLsbD 5 = true ↔ 256 ≤ m.TEC.toNat := by
  have hoff : BUSOFF_LIMIT ≤ m.TEC ↔ 256 ≤ m.TEC.toNat := BitVec.le_def
  rw [computeSr, getLsbD_setBit (w := 32) _ _ 5 _ (by decide), if_neg (by decide),
    getLsbD_setBit (w := 32) _ _ 5 _ (by decide), if_pos rfl, decide_eq_true_eq, hoff]

theorem epas_iff (m : RefModel) :
    m.computeSr.getLsbD 4 = true ↔ 128 ≤ m.TEC.toNat ∨ 128 ≤ m.REC.toNat := by
  have htec : EPAS_LIMIT ≤ m.TEC ↔ 128 ≤ m.TEC.toNat := BitVec.le_def
  have hrec : EPAS_LIMIT ≤ m.REC ↔ 128 ≤ m.REC.toNat := BitVec.le_def
  rw [computeSr, getLsbD_setBit (w := 32) _ _ 4 _ (by decide), if_pos rfl, Bool.or_eq_true,
    decide_eq_true_eq, decide_eq_true_eq, htec, hrec]

theorem confinementLevel_eq (m : RefModel) : m.confinementLevel = levelOf m.counters :=
  if_congr m.boff_iff rfl (if_congr m.epas_iff rfl rfl)

/-- What holds of the counters and the confinement level in one state, and of every
operation performed in it. -/
structure FaultConfinement (m : RefModel) : Prop where
  tec_le : m.TEC.toNat ≤ 256
  rec_le : m.REC.toNat ≤ 128
  tec_add : (m.TEC + 8).toNat = m.TEC.toNat + 8
  rec_add : (m.REC + 8).toNat = m.REC.toNat + 8
  tec_pred : ∀ i, (m.completeTx i).TEC.toNat = m.TEC.toNat - 1
  error : ∀ errType isFd isTx,
    m.confinementLevel ≤ (m.onErrorDetected errType isFd isTx).confinementLevel
  warning : ∀ errType isFd isTx,
    EWARN_LIMIT ≤ (m.onErrorDetected errType isFd isTx).TEC ∨
        EWARN_LIMIT ≤ (m.onErrorDetected errType isFd isTx).REC →
      (m.onErrorDetected errType isFd isTx).ISR.getLsbD 0 = true
  txSuccess : ∀ op, m.counterEvent op = .txSuccess →
    (m.step op).confinementLevel ≤ m.confinementLevel
  other : ∀ op, m.counterEvent op = .rxSuccess ∨ m.counterEvent op = .other →
    (m.step op).confinementLevel = m.confinementLevel

theorem confinementLevel_onErrorDetected {m : RefModel} (h : InRange m.counters)
    (errType : CanErrorType) (isFd isTx : Bool) :
    m.confinementLevel ≤ (m.onErrorDetected errType isFd isTx).confinementLevel := by
  rw [confinementLevel_eq, confinementLevel_eq, counters_onErrorDetected h]
  obtain ⟨htec, hrec⟩ := h
  cases isTx with
  | true => exact levelOf_mono (le_min htec (Nat.le_add_right _ _)) le_rfl
  | false => exact levelOf_mono le_rfl (le_min hrec (Nat.le_add_right _ _))

/-- The counters are compared before they saturate, and saturation stays above the
warning limit. -/
theorem warning_onErrorDetected (m : RefModel) (errType : CanErrorType) (isFd isTx : Bool)
    (h : EWARN_LIMIT ≤ (m.onErrorDetected errType isFd isTx).TEC ∨
      EWARN_LIMIT ≤ (m.onErrorDetected errType isFd isTx).REC) :
    (m.onErrorDetected errType isFd isTx).ISR.getLsbD 0 = true := by
  obtain ⟨esr, sr, isr, heq, hisr⟩ := onErrorDetected_eq m errType isFd isTx
  have hsat : ∀ limit x : BitVec 9, EWARN_LIMIT ≤ saturate limit x → EWARN_LIMIT ≤ x := by
    intro limit x hle
    rw [BitVec.le_def, toNat_saturate] at hle
    exact BitVec.le_def.mpr (le_trans hle (min_le_right _ _))
  rw [heq] at h
  rw [heq, hisr, if_pos (h.imp (hsat _ _) (hsat _ _)),
    getLsbD_setBit (w := 32) _ _ 0 _ (by decide), if_pos rfl]

theorem faultConfinement_of_inRange {m : RefModel} (h : InRange m.counters) :
    FaultConfinement m where
  tec_le := h.1
  rec_le := h.2
  tec_add := toNat_add_eight h.1
  rec_add := toNat_add_eight (le_trans h.2 (by decide))
  tec_pred := by
    intro i
    obtain ⟨events, fsr, heq⟩ := m.completeTx_eq i
    rw [heq]
    exact toNat_pred m.TEC
  error := confinementLevel_onErrorDetected h
  warning := warning_onErrorDetected m
  txSuccess := by
    intro op hevent
    rw [confinementLevel_eq, confinementLevel_eq, counters_step h, hevent]
    exact levelOf_mono (Nat.sub_le _ _) le_rfl
  other := by
    intro op hevent
    rw [confinementLevel_eq, confinementLevel_eq, counters_step h]
    rcases hevent with hrx | hother
    · rw [if_pos hrx]
    · rw [hother]
      rfl

/-- **Fault confinement holds in every reachable state.** -/
theorem faultConfinement_run (bufs : Fin 32 → TxBuf) (f0 f1 : Fin 32 → Filter)
    (ops : List RefOp) : FaultConfinement (run step (preset bufs f0 f1) ops) := by
  have hstep : ∀ (m : RefModel) op, InRange m.counters → InRange (m.step op).counters :=
    fun m op => inRange_step op
  exact faultConfinement_of_inRange (run_invariant hstep (inRange_preset bufs f0 f1) ops)

end RefModel

end Testbench.Canfd
