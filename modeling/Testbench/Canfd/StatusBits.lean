import Testbench.Canfd.Faults
import Testbench.Canfd.Reception
import Testbench.Canfd.Registers

/-!
Sticky status bits.

ISR and ESR are words of flags that events raise and software clears by writing
ones. `isrRaised` and `esrRaised` say which step raises which bit, `isrCleared` and
`esrCleared` which step clears it. `isr_step` and `esr_step` are the law of one step;
that a bit is up iff it was raised and not cleared since (`stickyStatus_run`) is then
the library's rule for flags.
-/

namespace Testbench.Canfd

open Testbench.Lib Testbench.Canphy

namespace RefModel

/-! ### Raising and clearing -/

/-- The error takes a counter to the warning limit, before it saturates. -/
def warns (m : RefModel) (isTx : Bool) : Prop :=
  96 ≤ m.TEC.toNat + (if isTx then 8 else 0) ∨ 96 ≤ m.REC.toNat + (if isTx then 0 else 8)

/-- FIFO `k` takes the frame. -/
def stores (k : Fin 2) (m : RefModel) (tr : CanphyTrans) : Prop :=
  m.offers k tr = true ∧ (m.fifo k).length < 64

/-- The frame reaches FIFO `k` and finds it full. -/
def overflows (k : Fin 2) (m : RefModel) (tr : CanphyTrans) : Prop :=
  m.offers k tr = true ∧ 64 ≤ (m.fifo k).length

/-- The operation raises bit `b` of ISR. -/
def isrRaised (b : Nat) (m : RefModel) : RefOp → Prop
  | .errorDetected _ _ isTx => b = 0 ∧ m.warns isTx
  | .received tr => b = 3 ∧ (∃ k : Fin 2, k.val = 0 ∧ m.stores k tr) ∨ b = 4 ∧ ∃ k, m.overflows k tr
  | .tick => b = 7 ∧ m.tsr = 0xFFFF#16
  | op => b = 2 ∧ (m.transmits op).isSome = true

/-- The operation clears bit `b` of ISR: a write of ICR that names it, or a reset. -/
def isrCleared (b : Nat) (_ : RefModel) : RefOp → Prop
  | .writeReg addr data => addr = 0x0024#32 ∧ data.getLsbD b = true ∨ isSoftReset addr data = true
  | _ => False

/-- The operation raises bit `b` of ESR. -/
def esrRaised (b : Nat) (_ : RefModel) : RefOp → Prop
  | .errorDetected errType isFd _ => esrBit errType isFd = some b
  | _ => False

/-- The operation clears bit `b` of ESR: a write of ESR that names it, or a reset. -/
def esrCleared (b : Nat) (_ : RefModel) : RefOp → Prop
  | .writeReg addr data => addr = 0x0014#32 ∧ data.getLsbD b = true ∨ isSoftReset addr data = true
  | _ => False

theorem isrRaised_txok (m : RefModel) (op : RefOp) :
    m.isrRaised 2 op ↔ (m.transmits op).isSome = true := by
  cases op <;> simp [isrRaised, transmits]

/-! ### The bits each operation raises -/

theorem isr_setPlain (m : RefModel) (r : PlainReg) (data : BitVec 32) :
    (m.setPlain r data).ISR = m.ISR := by
  cases r <;> rfl

theorem esr_setPlain (m : RefModel) (r : PlainReg) (data : BitVec 32) :
    (m.setPlain r data).ESR = m.ESR := by
  cases r <;> rfl

theorem getLsbD_raise {x : BitVec 32} {i b : Nat} (hb : b < 32) :
    (setBit x i true).getLsbD b = true ↔ b = i ∨ x.getLsbD b = true := by
  rw [getLsbD_setBit x i b true hb]
  by_cases h : b = i <;> simp [h]

theorem isr_processTxArbitration (m : RefModel) {b : Nat} (hb : b < 32) :
    m.processTxArbitration.ISR.getLsbD b = true ↔
      b = 2 ∧ m.processTxArbitrationIdx.isSome = true ∨ m.ISR.getLsbD b = true := by
  unfold processTxArbitration
  cases m.processTxArbitrationIdx with
  | none => simp
  | some i =>
    obtain ⟨events, fsr, heq⟩ := m.completeTx_eq i
    simp only [heq, getLsbD_raise hb, Option.isSome_some, and_true]

/-- A flag that goes with a condition. -/
theorem getLsbD_flag (c : Prop) [Decidable c] {i : Nat} (hi : i < 32) (b : Nat) :
    (if c then BitVec.twoPow 32 i else 0).getLsbD b = true ↔ b = i ∧ c := by
  by_cases h : c <;> simp [h, BitVec.getLsbD_twoPow, hi, @eq_comm _ b]

/-- RXOK for a store into FIFO0, RXOVF for a frame that meets a full FIFO. -/
theorem getLsbD_flags (m : RefModel) (tr : CanphyTrans) (b : Nat) :
    (m.rxUpdate tr).flags.getLsbD b = true ↔ m.isrRaised b (.received tr) := by
  have h3 : (∃ k : Fin 2, k.val = 0 ∧ m.stores k tr) ↔
      (tr.isDataOrRemote && checkFilter tr m.filters0) = true ∧ m.rxFifo0.length < 64 := by
    simp [stores, offers, fifo, filters]
  have h4 : (∃ k, m.overflows k tr) ↔
      (tr.isDataOrRemote && checkFilter tr m.filters0) = true ∧ 64 ≤ m.rxFifo0.length ∨
        (tr.isDataOrRemote && checkFilter tr m.filters1) = true ∧ 64 ≤ m.rxFifo1.length := by
    simp [Fin.exists_fin_two, overflows, offers, fifo, filters]
  rw [isrRaised, h3, h4]
  simp only [rxUpdate, BitVec.getLsbD_or, Bool.or_eq_true,
    getLsbD_flag _ (show 3 < 32 by decide), getLsbD_flag _ (show 4 < 32 by decide)]
  generalize (tr.isDataOrRemote && checkFilter tr m.filters0) = matched0
  generalize (tr.isDataOrRemote && checkFilter tr m.filters1) = matched1
  cases matched0 <;> cases matched1 <;> simp

/-! ### One step -/

theorem warns_iff {m : RefModel} (h : InRange m.counters) (isTx : Bool) :
    EWARN_LIMIT ≤ (if isTx then m.TEC + 8 else m.TEC) ∨
      EWARN_LIMIT ≤ (if isTx then m.REC else m.REC + 8) ↔ m.warns isTx := by
  have hlimit : EWARN_LIMIT.toNat = 96 := rfl
  have htec : (m.TEC + 8).toNat = m.TEC.toNat + 8 := toNat_add_eight h.1
  have hrec : (m.REC + 8).toNat = m.REC.toNat + 8 :=
    toNat_add_eight (le_trans h.2 (by decide))
  rw [warns, BitVec.le_def, BitVec.le_def, hlimit]
  cases isTx <;> simp only [Bool.false_eq_true, if_true, if_false, htec, hrec, add_zero]

theorem isr_onErrorDetected {m : RefModel} {b : Nat} (h : b = 0 → InRange m.counters)
    (errType : CanErrorType) (isFd isTx : Bool) (hb : b < 32) :
    (m.onErrorDetected errType isFd isTx).ISR.getLsbD b = true ↔
      b = 0 ∧ m.warns isTx ∨ m.ISR.getLsbD b = true := by
  obtain ⟨esr, sr, isr, heq, hisr⟩ := m.onErrorDetected_eq errType isFd isTx
  rw [heq, hisr]
  by_cases hw : EWARN_LIMIT ≤ (if isTx then m.TEC + 8 else m.TEC) ∨
      EWARN_LIMIT ≤ (if isTx then m.REC else m.REC + 8)
  · rw [if_pos hw, getLsbD_raise hb, and_iff_left_of_imp]
    exact fun h0 => (warns_iff (h h0) isTx).mp hw
  · rw [if_neg hw, or_iff_right]
    rintro ⟨h0, hwarns⟩
    exact hw ((warns_iff (h h0) isTx).mpr hwarns)

theorem esr_onErrorDetected (m : RefModel) (errType : CanErrorType) (isFd isTx : Bool) {b : Nat}
    (hb : b < 32) :
    (m.onErrorDetected errType isFd isTx).ESR.getLsbD b = true ↔
      esrBit errType isFd = some b ∨ m.ESR.getLsbD b = true := by
  have hkeep : ∀ m : RefModel, m.errorStateTransition.saturateCounters.ESR = m.ESR := by
    intro m
    obtain ⟨sr, heq⟩ := m.errorStateTransition_eq
    rw [saturateCounters_eq, heq]
  unfold onErrorDetected
  rw [hkeep]
  cases esrBit errType isFd <;> cases isTx <;> simp [getLsbD_raise hb, @eq_comm _ b]

/-- Ones written clear. -/
theorem getLsbD_clear {x data : BitVec 32} {b : Nat} (hb : b < 32) :
    (x &&& ~~~data).getLsbD b = true ↔ x.getLsbD b = true ∧ ¬ data.getLsbD b = true := by
  simp [hb]

theorem isr_writeReg (m : RefModel) (addr data : BitVec 32) {b : Nat} (hb : b < 32) :
    (m.writeReg addr data).ISR.getLsbD b = true ↔
      m.isrRaised b (.writeReg addr data) ∨
        m.ISR.getLsbD b = true ∧ ¬ m.isrCleared b (.writeReg addr data) := by
  simp only [isrRaised, isrCleared, transmits]
  generalize hw : m.writeReg addr data = m'
  cases writeReg_effect hw with
  | reset hreset =>
    obtain rfl : addr = 0x0000#32 := by simpa using (Bool.and_eq_true_iff.mp hreset).1
    simp [hreset, new, resetState]
  | store r data hreset =>
    simp [isr_setPlain, hreset, ne_of_notMem r.addr_notMem]
  | clearEsr data => simp [isSoftReset]
  | clearIsr data => simpa [isSoftReset] using getLsbD_clear hb
  | request data =>
    refine (isr_processTxArbitration _ hb).trans ?_
    -- the arbiter does not look at TRR
    show b = 2 ∧ m.processTxArbitrationIdx.isSome = true ∨ m.ISR.getLsbD b = true ↔ _
    simp [isSoftReset]
  | cancel data =>
    obtain ⟨_, _, _, heq, -⟩ := m.cancel_eq data
    rw [heq]
    simp [isSoftReset]
  | ignored hplain hother => simp [isSoftReset_of_ne (hplain .SRR), ne_of_notMem hother]

theorem esr_writeReg (m : RefModel) (addr data : BitVec 32) {b : Nat} (hb : b < 32) :
    (m.writeReg addr data).ESR.getLsbD b = true ↔
      m.ESR.getLsbD b = true ∧ ¬ m.esrCleared b (.writeReg addr data) := by
  simp only [esrCleared]
  generalize hw : m.writeReg addr data = m'
  cases writeReg_effect hw with
  | reset hreset => simp [hreset, new, resetState]
  | store r data hreset =>
    simp [esr_setPlain, hreset, ne_of_notMem r.addr_notMem]
  | clearEsr data => simpa [isSoftReset] using getLsbD_clear hb
  | clearIsr data => simp [isSoftReset]
  | request data =>
    obtain ⟨_, _, _, _, _, _, heq⟩ := processTxArbitration_eq { m with TRR := m.TRR ||| data }
    rw [heq]
    simp [isSoftReset]
  | cancel data =>
    obtain ⟨_, _, _, heq, -⟩ := m.cancel_eq data
    rw [heq]
    simp [isSoftReset]
  | ignored hplain hother => simp [isSoftReset_of_ne (hplain .SRR), ne_of_notMem hother]

/-- **One step raises or clears a bit of ISR, or leaves it.** The warning looks at the
counters, so it takes them to be in range. -/
theorem isr_step {m : RefModel} {b : Nat} (h : b = 0 → InRange m.counters) (op : RefOp)
    (hb : b < 32) :
    (m.step op).ISR.getLsbD b = true ↔
      m.isrRaised b op ∨ m.ISR.getLsbD b = true ∧ ¬ m.isrCleared b op := by
  cases op with
  | writeReg addr data => exact isr_writeReg m addr data hb
  | writeTxBuf bufIdx offset data =>
    obtain ⟨_, heq⟩ := m.writeTxBuf_eq bufIdx offset data
    simp [step, heq, isrRaised, isrCleared, transmits]
  | txArbitration => simpa [step, isrRaised, isrCleared, transmits] using
      isr_processTxArbitration m hb
  | received tr =>
    have hflags := m.getLsbD_flags tr b
    simp [step, onCanFrameReceived_eq_applyRx, applyRx, isrCleared, hflags, or_comm]
  | errorDetected errType isFd isTx =>
    simpa [step, isrRaised, isrCleared] using isr_onErrorDetected h errType isFd isTx hb
  | tick =>
    have hwrap : m.tsr + 1 = 0 ↔ m.tsr = 0xFFFF#16 := by bv_omega
    simp only [step, tick, isrRaised, isrCleared, ← hwrap, not_false_eq_true, and_true]
    split
    · next h0 => rw [getLsbD_raise hb, and_iff_left h0]
    · next h0 => rw [or_iff_right (fun h => h0 h.2)]
  | readRxFifo fifoId =>
    obtain ⟨_, _, _, heq⟩ := m.readRxFifo_eq fifoId
    simp [step, heq, isrRaised, isrCleared, transmits]

/-- **One step raises or clears a bit of ESR, or leaves it.** -/
theorem esr_step (m : RefModel) (op : RefOp) {b : Nat} (hb : b < 32) :
    (m.step op).ESR.getLsbD b = true ↔
      m.esrRaised b op ∨ m.ESR.getLsbD b = true ∧ ¬ m.esrCleared b op := by
  have hkeeps : op.registerSide = false → KeepsRegs m op := m.step_keepsRegs
  cases op with
  | writeReg addr data => simpa [step, esrRaised] using esr_writeReg m addr data hb
  | errorDetected errType isFd isTx =>
    simpa [step, esrRaised, esrCleared] using esr_onErrorDetected m errType isFd isTx hb
  | _ => simp [(hkeeps rfl).ESR (by simp), esrRaised, esrCleared]

/-! ### Runs -/

/-- What ISR and ESR tell software after a run: `isr_sources` lists the only bits of ISR
that are ever up. -/
structure StickyStatus (start : RefModel) (ops : List RefOp) : Prop where
  isr : ∀ b : Fin 32, (run step start ops).ISR.getLsbD b = true ↔
    Since step (isrRaised b) (isrCleared b) start ops
  isr_sources : ∀ b : Fin 32, (run step start ops).ISR.getLsbD b = true → b.val ∈ [0, 2, 3, 4, 7]
  esr : ∀ b : Fin 32, (run step start ops).ESR.getLsbD b = true ↔
    Since step (esrRaised b) (esrCleared b) start ops

theorem mem_of_isrRaised {m : RefModel} {op : RefOp} {b : Nat} (h : m.isrRaised b op) :
    b ∈ [0, 2, 3, 4, 7] := by
  cases op with
  | received tr => rcases h with ⟨rfl, -⟩ | ⟨rfl, -⟩ <;> decide
  | _ =>
    obtain ⟨rfl, -⟩ := h
    decide

/-- **No operation loses or invents a status bit**: after every run a bit is up iff some
step raised it and no later one cleared it. -/
theorem stickyStatus_run (bufs : Fin 32 → TxBuf) (f0 f1 : Fin 32 → Filter) (ops : List RefOp) :
    StickyStatus (preset bufs f0 f1) ops := by
  have hisr : ∀ b : Fin 32, (run step (preset bufs f0 f1) ops).ISR.getLsbD b = true ↔
      Since step (isrRaised b) (isrCleared b) (preset bufs f0 f1) ops := by
    intro b
    have hstep : ∀ (m : RefModel) op, InRange m.counters → InRange (m.step op).counters :=
      fun m op => inRange_step op
    have hdown : ¬ (preset bufs f0 f1).ISR.getLsbD b = true := by simp [preset, new, resetState]
    exact flag_iff_since (fun m : RefModel => m.ISR.getLsbD b = true) (fun m => InRange m.counters)
      hstep (fun m op h => isr_step (fun _ => h) op b.isLt) (inRange_preset bufs f0 f1) hdown ops
  refine ⟨hisr, ?_, ?_⟩
  · intro b hb
    obtain ⟨pre, op, post, -, hraised, -⟩ := (hisr b).mp hb
    exact mem_of_isrRaised hraised
  · intro b
    have hdown : ¬ (preset bufs f0 f1).ESR.getLsbD b = true := by simp [preset, new, resetState]
    exact flag_iff_since (fun m : RefModel => m.ESR.getLsbD b = true) (fun _ => True)
      (fun _ _ h => h) (fun m op _ => esr_step m op b.isLt) trivial hdown ops

end RefModel

end Testbench.Canfd
