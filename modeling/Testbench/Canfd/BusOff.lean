import Testbench.Canfd.StatusBits
import Testbench.Canfd.TxEvents

/-!
Bus-off.

The transmit error counter has nine bits and saturates at 256, which means bus-off. Two
things go wrong there. ECR shows eight bits of it, so the saturated counter reads as 0
(`ecr_agrees_iff`). And the arbiter does not look at the fault state, so a pending
buffer is still transmitted and takes the counter below the limit again
(`busOff_latched_iff`).
-/

namespace Testbench.Canfd

open Testbench.Lib Testbench.Canphy

namespace RefModel

/-! ### ECR and SR -/

/-- The TEC field of ECR. -/
def ecrTec (m : RefModel) : BitVec 8 := (m.readReg 0x0010#32).extractLsb' 0 8

/-- The REC field of ECR. -/
def ecrRec (m : RefModel) : BitVec 8 := (m.readReg 0x0010#32).extractLsb' 8 8

/-- The fault state decoded from ECR is the one SR shows. -/
structure EcrAgrees (m : RefModel) : Prop where
  epas : (m.readReg 0x0018#32).getLsbD 4 = true ↔ 128 ≤ m.ecrTec.toNat ∨ 128 ≤ m.ecrRec.toNat
  level : levelOf (m.ecrTec.toNat, m.ecrRec.toNat) = m.confinementLevel

/-- An error does not make the TEC field smaller. -/
def EcrMonotone (m : RefModel) (op : RefOp) : Prop :=
  ∀ errType isFd isTx, op = .errorDetected errType isFd isTx → m.ecrTec ≤ (m.step op).ecrTec

theorem toNat_readReg_ecr (m : RefModel) :
    (m.readReg 0x0010#32).toNat = m.REC.toNat % 256 * 256 + m.TEC.toNat % 256 := by
  have hlt : m.TEC.toNat % 2 ^ 8 < 2 ^ 8 := Nat.mod_lt _ (by decide)
  show ((m.REC.setWidth 8 ++ m.TEC.setWidth 8).setWidth 32).toNat = _
  simp only [BitVec.toNat_setWidth, BitVec.toNat_append]
  rw [← Nat.shiftLeft_add_eq_or_of_lt hlt, Nat.shiftLeft_eq]
  omega

/-- Each field keeps eight of the counter's nine bits. -/
theorem toNat_ecrFields (m : RefModel) :
    m.ecrTec.toNat = m.TEC.toNat % 256 ∧ m.ecrRec.toNat = m.REC.toNat % 256 := by
  simp only [ecrTec, ecrRec, BitVec.extractLsb'_toNat, toNat_readReg_ecr, Nat.shiftRight_eq_div_pow]
  omega

/-- Error counters short of bus-off. -/
structure BelowBusOff (m : RefModel) : Prop where
  inRange : InRange m.counters
  tec_lt : m.TEC.toNat < 256

/-- Below bus-off ECR shows the counters. -/
theorem BelowBusOff.toNat_ecrFields {m : RefModel} (h : BelowBusOff m) :
    m.ecrTec.toNat = m.TEC.toNat ∧ m.ecrRec.toNat = m.REC.toNat := by
  have hrec : m.REC.toNat ≤ 128 := h.inRange.2
  obtain ⟨htec', hrec'⟩ := m.toNat_ecrFields
  exact ⟨by rw [htec', Nat.mod_eq_of_lt h.tec_lt], by rw [hrec', Nat.mod_eq_of_lt (by omega)]⟩

theorem BelowBusOff.ecrAgrees {m : RefModel} (h : BelowBusOff m) : EcrAgrees m := by
  obtain ⟨htec, hrec⟩ := h.toNat_ecrFields
  refine ⟨?_, ?_⟩
  · rw [htec, hrec]
    exact m.epas_iff
  · rw [htec, hrec, confinementLevel_eq]
    rfl

/-- A transmit error takes the counter to bus-off at the earliest from 248. -/
def StaysBelowBusOff (m : RefModel) (op : RefOp) : Prop :=
  ∀ errType isFd, op = .errorDetected errType isFd true → m.TEC.toNat < 248

theorem tec_onErrorDetected {m : RefModel} (h : InRange m.counters) (errType : CanErrorType)
    (isFd isTx : Bool) :
    (m.onErrorDetected errType isFd isTx).TEC.toNat =
      if isTx then min 256 (m.TEC.toNat + 8) else m.TEC.toNat := by
  have hcounters := congrArg Prod.fst (counters_onErrorDetected h errType isFd isTx)
  cases isTx <;>
    simpa only [counters, counterLaw, Bool.false_eq_true, if_true, if_false] using hcounters

theorem belowBusOff_step {m : RefModel} {op : RefOp} (h : BelowBusOff m)
    (hok : StaysBelowBusOff m op) : BelowBusOff (m.step op) := by
  refine ⟨inRange_step op h.inRange, ?_⟩
  have hlt : m.counters.1 < 256 := h.tec_lt
  show (m.step op).counters.1 < 256
  rw [counters_step h.inRange]
  split
  · exact hlt
  · cases hevent : m.counterEvent op with
    | error isTx =>
      cases isTx with
      | true =>
        obtain ⟨errType, isFd, rfl⟩ := m.errorDetected_of_event hevent
        have h248 : m.counters.1 < 248 := hok errType isFd rfl
        simp only [counterLaw]
        omega
      | false => exact hlt
    | txSuccess => exact lt_of_le_of_lt (Nat.sub_le _ _) hlt
    | rxSuccess => exact hlt
    | reset => exact Nat.zero_lt_succ _
    | other => exact hlt

/-- One step from below bus-off. -/
theorem ecr_step_iff {m : RefModel} (h : BelowBusOff m) (op : RefOp) :
    EcrAgrees (m.step op) ∧ EcrMonotone m op ↔ StaysBelowBusOff m op := by
  obtain ⟨htec, -⟩ := h.toNat_ecrFields
  constructor
  · rintro ⟨-, hmono⟩ errType isFd rfl
    -- 256 is shown as 0
    have hle := BitVec.le_def.mp (hmono errType isFd true rfl)
    rw [htec, step, (toNat_ecrFields _).1, tec_onErrorDetected h.inRange, if_pos rfl] at hle
    omega
  · intro hok
    have h' := belowBusOff_step h hok
    refine ⟨h'.ecrAgrees, ?_⟩
    rintro errType isFd isTx rfl
    rw [BitVec.le_def, htec, h'.toNat_ecrFields.1, step, tec_onErrorDetected h.inRange]
    split
    · exact le_min (le_of_lt h.tec_lt) (Nat.le_add_right _ _)
    · exact le_refl _

theorem belowBusOff_preset (bufs : Fin 32 → TxBuf) (f0 f1 : Fin 32 → Filter) :
    BelowBusOff (preset bufs f0 f1) := ⟨inRange_preset bufs f0 f1, Nat.zero_lt_succ _⟩

/-- **ECR and SR show the same fault state through a whole run, and no error makes the TEC
field smaller, iff no transmit error meets a TEC of 248 or more.** -/
theorem ecr_agrees_iff (bufs : Fin 32 → TxBuf) (f0 f1 : Fin 32 → Filter) (ops : List RefOp) :
    ((∀ n, EcrAgrees (run step (preset bufs f0 f1) (ops.take n))) ∧
        Along step EcrMonotone (preset bufs f0 f1) ops) ↔
      Along step StaysBelowBusOff (preset bufs f0 f1) ops := by
  have hstart := belowBusOff_preset bufs f0 f1
  rw [forall_take_iff, and_assoc, ← along_and, and_iff_right hstart.ecrAgrees]
  exact along_congr (fun m op _ h => ecr_step_iff h op) (fun m op _ => belowBusOff_step) hstart

/-- 32 transmit errors reach bus-off: SR shows it, the TEC field of ECR falls from 248
to 0. -/
theorem ecr_busOff_reads_zero :
    let m := run step new (List.replicate 31 (.errorDetected .errBit false true))
    let m' := m.step (.errorDetected .errBit false true)
    m.ecrTec = 248#8 ∧ m'.ecrTec = 0#8 ∧ m'.ecrRec = 0#8 ∧
      (m'.readReg 0x0018#32).getLsbD 4 = true := by
  decide +kernel

/-! ### Leaving bus-off -/

/-- The step stays bus-off and reports no transmission. Software may clear TXOK by a write
of ICR and take events away by a cancellation. -/
structure StaysLatched (m : RefModel) (op : RefOp) : Prop where
  boff : (m.step op).computeSr.getLsbD 5 = true
  txCount : (m.step op).txCount = m.txCount
  txok : (m.step op).ISR.getLsbD 2 = true → m.ISR.getLsbD 2 = true
  txok_eq : (∀ data, op ≠ .writeReg 0x0024#32 data) →
    (m.step op).ISR.getLsbD 2 = m.ISR.getLsbD 2
  events : (m.step op).txEventFifo <+: m.txEventFifo
  events_eq : op.cancels = false → (m.step op).txEventFifo = m.txEventFifo

/-- The step stays bus-off and leaves the reports of earlier transmissions as they are. -/
structure StaysUnchanged (m : RefModel) (op : RefOp) : Prop where
  boff : (m.step op).computeSr.getLsbD 5 = true
  txCount : (m.step op).txCount = m.txCount
  txok : (m.step op).ISR.getLsbD 2 = m.ISR.getLsbD 2
  txEventFifo : (m.step op).txEventFifo = m.txEventFifo

/-- When the arbiter runs, no pending buffer is below the sentinel identifier. -/
def NothingToSend (m : RefModel) (op : RefOp) : Prop :=
  op.arbitrates = true → ∀ i, m.pending i = true → 0x1FFFFFFF ≤ m.txId i

/-- Software does not clear a TXOK that is up, and cancels nothing while events are held. -/
structure LeavesReports (m : RefModel) (op : RefOp) : Prop where
  txok : ∀ data, op = .writeReg 0x0024#32 data → data.getLsbD 2 = true → m.ISR.getLsbD 2 = false
  events : ∀ data, op = .writeReg 0x0098#32 data → data ≠ 0 → m.txEventFifo = []

/-- Errors leave the saturated counter where it is. -/
theorem busOff_step {m : RefModel} {op : RefOp} (hoff : m.TEC = 256) (hreset : op.softReset = false)
    (hnone : m.transmits op = none) : (m.step op).TEC = 256 := by
  cases harb : op.arbitrates with
  | true =>
    obtain ⟨_, heq⟩ := step_of_arbitrates harb hnone
    rw [heq]
    exact hoff
  | false =>
    have hkeeps := m.step_keepsSides hreset
    cases op with
    | errorDetected errType isFd isTx =>
      obtain ⟨_, _, _, heq, -⟩ := m.onErrorDetected_eq errType isFd isTx
      rw [step, heq]
      cases isTx <;> simp only [hoff] <;> decide
    | txArbitration => cases harb
    | writeReg addr data => exact (hkeeps.TEC harb).trans hoff
    | _ => exact (hkeeps.TEC rfl).trans hoff

theorem report_of_cancels {op : RefOp} (h : op.cancels = true) (m : RefModel) :
    (m.step op).txCount = m.txCount ∧ (m.step op).txEventFifo <+: m.txEventFifo := by
  obtain ⟨data, rfl⟩ := RefOp.eq_of_cancels h
  obtain ⟨_, _, _, hrun, -⟩ := m.cancel_eq data
  have hcount : (run (cancelStep data) { m with TCR := m.TCR ||| data }
      (List.finRange 32)).txCount = m.txCount := by rw [hrun]
  exact ⟨hcount, events_run_cancelStep data { m with TCR := m.TCR ||| data } (List.finRange 32)⟩

/-- One step from bus-off. -/
theorem latched_step_iff {m : RefModel} (hoff : m.TEC = 256) {op : RefOp}
    (hreset : op.softReset = false) : StaysLatched m op ↔ NothingToSend m op := by
  have hiff : m.transmits op = none ↔ NothingToSend m op := m.transmits_eq_none_iff op
  rw [← hiff]
  constructor
  · intro hlatched
    rcases Option.eq_none_or_eq_some (m.transmits op) with hnone | ⟨i, hsome⟩
    · exact hnone
    · obtain ⟨trr, heq⟩ := step_of_transmits hsome
      have hcount := hlatched.txCount
      rw [heq, (report_completeTx _ i).1] at hcount
      simp at hcount
  · intro hnone
    have hbusOff := busOff_step hoff hreset hnone
    have hreport : (m.step op).txCount = m.txCount ∧ (m.step op).txEventFifo <+: m.txEventFifo := by
      cases hcancel : op.cancels with
      | true => exact report_of_cancels hcancel m
      | false =>
        have hsame := sameReport_step hreset hcancel hnone
        exact ⟨hsame.txCount, by rw [hsame.txEventFifo]⟩
    have htxok := isr_step (m := m) (b := 2) (fun h => absurd h (by decide)) op (by decide)
    rw [isrRaised_txok, hnone, Option.isSome_none, or_iff_right Bool.false_ne_true] at htxok
    refine ⟨?_, hreport.1, fun h => (htxok.mp h).1, ?_, hreport.2, ?_⟩
    · rw [boff_iff, hbusOff]
      decide
    · intro hicr
      have hkept : ¬ m.isrCleared 2 op := by
        cases op with
        | writeReg addr data =>
          rintro (⟨rfl, -⟩ | hreset')
          · exact hicr data rfl
          · rw [RefOp.softReset, hreset'] at hreset
            cases hreset
        | _ => exact id
      rw [Bool.eq_iff_iff, htxok, and_iff_left hkept]
    · intro hcancel
      exact (sameReport_step hreset hcancel hnone).txEventFifo

/-- In bus-off the reports stay as they are unless something is sent or software takes
one away. -/
theorem unchanged_step_iff {m : RefModel} (hoff : m.TEC = 256) {op : RefOp}
    (hreset : op.softReset = false) :
    StaysUnchanged m op ↔ NothingToSend m op ∧ LeavesReports m op := by
  constructor
  · rintro ⟨hboff, hcount, htxok, hevents⟩
    refine ⟨(latched_step_iff hoff hreset).mp ?_, ?_, ?_⟩
    · exact ⟨hboff, hcount, fun h => htxok ▸ h, fun _ => htxok, by rw [hevents], fun _ => hevents⟩
    · rintro data rfl hdata
      have hcleared : ¬ (m.step (.writeReg 0x0024#32 data)).ISR.getLsbD 2 = true := fun h =>
        ((getLsbD_clear (by decide)).mp h).2 hdata
      rw [← htxok]
      exact Bool.eq_false_iff.mpr hcleared
    · rintro data rfl
      exact (m.events_cancel_eq_iff data).mp hevents
  · rintro ⟨hnone, hleaves⟩
    have hlatched := (latched_step_iff hoff hreset).mpr hnone
    refine ⟨hlatched.boff, hlatched.txCount, ?_, ?_⟩
    · by_cases hicr : ∃ data, op = .writeReg 0x0024#32 data
      · obtain ⟨data, rfl⟩ := hicr
        have hkept : m.ISR.getLsbD 2 = true → ¬ data.getLsbD 2 = true := by
          intro hup hdata
          rw [hleaves.txok data rfl hdata] at hup
          cases hup
        rw [Bool.eq_iff_iff]
        exact (getLsbD_clear (by decide)).trans (and_iff_left_of_imp hkept)
      · exact hlatched.txok_eq fun data hop => hicr ⟨data, hop⟩
    · cases hcancel : op.cancels with
      | false => exact hlatched.events_eq hcancel
      | true =>
        obtain ⟨data, rfl⟩ := RefOp.eq_of_cancels hcancel
        exact (m.events_cancel_eq_iff data).mpr (hleaves.events data rfl)

/-- **From bus-off a run without a reset stays there and reports no transmission iff the
arbiter never finds a buffer to send.** The reports stay as they are iff, besides, software
does not take one away. -/
theorem busOff_latched_iff {m : RefModel} (hoff : m.TEC = 256) {ops : List RefOp}
    (hreset : ∀ op ∈ ops, op.softReset = false) :
    (Along step StaysLatched m ops ↔ Along step NothingToSend m ops) ∧
      (Along step StaysUnchanged m ops ↔
        Along step (fun m op => NothingToSend m op ∧ LeavesReports m op) m ops) := by
  have hoff_step : ∀ (m : RefModel), ∀ op ∈ ops, m.TEC = 256 → NothingToSend m op →
      (m.step op).TEC = 256 := fun m op hop hoff hidle =>
    busOff_step hoff (hreset op hop) ((m.transmits_eq_none_iff op).mpr hidle)
  constructor
  · exact along_congr (fun m op hop hoff => latched_step_iff hoff (hreset op hop)) hoff_step hoff
  · refine along_congr (fun m op hop hoff => unchanged_step_iff hoff (hreset op hop)) ?_ hoff
    exact fun m op hop hoff hkeeps => hoff_step m op hop hoff hkeeps.1

/-- A model in bus-off with a buffer pending whose identifier is the sentinel. -/
def sentinelPending : RefModel :=
  { new with
    TEC := 256
    txBufs := fun _ => { valid := true, readyReq := true, id := 0x1FFFFFFF } }

/-- The arbiter passes over it, and bus-off is latched. -/
theorem busOff_latched_sentinel :
    sentinelPending.pending 0 = true ∧
      Along step StaysLatched sentinelPending
        [.txArbitration, .errorDetected .errAck false true] ∧
      Along step StaysUnchanged sentinelPending
        [.txArbitration, .errorDetected .errAck false true] := by
  have hkeeps : ∀ (m : RefModel) op, (∀ addr data, op ≠ .writeReg addr data) →
      LeavesReports m op := fun m op h =>
    ⟨fun data hop => absurd hop (h _ data), fun data hop => absurd hop (h _ data)⟩
  have hidle : Along step (fun m op => NothingToSend m op ∧ LeavesReports m op) sentinelPending
      [.txArbitration, .errorDetected .errAck false true] :=
    ⟨⟨fun _ _ _ => le_refl _, hkeeps _ _ (by simp)⟩,
      ⟨fun h => absurd h (by decide), hkeeps _ _ (by simp)⟩, trivial⟩
  obtain ⟨hlatched, hunchanged⟩ := @busOff_latched_iff sentinelPending rfl
    [.txArbitration, .errorDetected .errAck false true] (by simp [RefOp.softReset])
  exact ⟨rfl, hlatched.mpr ((along_and _ _).mp hidle).1, hunchanged.mpr hidle⟩

/-- A pending buffer is transmitted in bus-off and ends it. -/
theorem busOff_transmits :
    let m : RefModel := { new with
      TEC := 256, txBufs := fun _ => { valid := true, readyReq := true, id := 5 } }
    let m' := m.step .txArbitration
    m.computeSr.getLsbD 5 = true ∧ m'.computeSr.getLsbD 5 = false ∧ m'.txCount = 1 ∧
      m'.ISR.getLsbD 2 = true ∧ m'.txEventFifo.length = 1 := by
  decide +kernel

end RefModel

end Testbench.Canfd
