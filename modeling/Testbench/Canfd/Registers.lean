import Testbench.Canfd.Operations

/-!
Register writes, register by register.

Most registers are plain: `write_reg` stores what is written and `read_reg` returns
it. `PlainReg` enumerates them, with `plain` and `setPlain` as their only access, so
that a fact about all of them is one statement. `WriteEffect` lists what a register
write can do, and `plain_step` is the law of the register file: nothing but a write to
a plain register, or a reset, changes its value. The law does not ask whether the
controller is enabled; `writeProtection_iff` says what becomes of write protection.
-/

namespace Testbench.Canfd

open Testbench.Lib Testbench.Canphy

/-- A register that `write_reg` stores as written. -/
inductive PlainReg where
  | SRR
  | MSR
  | BRPR
  | BTR
  | IER
  | TSR
  | DP_BRPR
  | DP_BTR
  | TXE_WMR
  | RCS0
  | RCS1
  | RCS2
  | AFR
  | WMR
  deriving DecidableEq, Repr

/-- Its address in `write_reg` and `read_reg`. -/
def PlainReg.addr : PlainReg → BitVec 32
  | .SRR => 0x0000#32
  | .MSR => 0x0004#32
  | .BRPR => 0x0008#32
  | .BTR => 0x000C#32
  | .IER => 0x0020#32
  | .TSR => 0x0028#32
  | .DP_BRPR => 0x0088#32
  | .DP_BTR => 0x008C#32
  | .TXE_WMR => 0x00A4#32
  | .RCS0 => 0x00B0#32
  | .RCS1 => 0x00B4#32
  | .RCS2 => 0x00B8#32
  | .AFR => 0x00E0#32
  | .WMR => 0x00EC#32

theorem PlainReg.addr_inj {r r' : PlainReg} (h : r.addr = r'.addr) : r = r' := by
  cases r <;> cases r' <;> first | rfl | exact absurd h (by decide)

/-- The other registers `write_reg` decodes: ESR, ICR, TRR and TCR. -/
theorem PlainReg.addr_notMem (r : PlainReg) :
    r.addr ∉ [0x0014#32, 0x0024#32, 0x0090#32, 0x0098#32] := by
  cases r <;> decide

theorem ne_of_notMem {addr : BitVec 32}
    (h : addr ∉ [0x0014#32, 0x0024#32, 0x0090#32, 0x0098#32]) :
    addr ≠ 0x0014#32 ∧ addr ≠ 0x0024#32 ∧ addr ≠ 0x0090#32 ∧ addr ≠ 0x0098#32 := by
  simpa only [List.mem_cons, List.not_mem_nil, or_false, not_or] using h

namespace RefModel

/-- The value of a plain register. -/
def plain (m : RefModel) : PlainReg → BitVec 32
  | .SRR => m.SRR
  | .MSR => m.MSR
  | .BRPR => m.BRPR
  | .BTR => m.BTR
  | .IER => m.IER
  | .TSR => m.TSR
  | .DP_BRPR => m.DP_BRPR
  | .DP_BTR => m.DP_BTR
  | .TXE_WMR => m.TXE_WMR
  | .RCS0 => m.RCS0
  | .RCS1 => m.RCS1
  | .RCS2 => m.RCS2
  | .AFR => m.AFR
  | .WMR => m.WMR

/-- The assignment of a plain register. -/
def setPlain (m : RefModel) (r : PlainReg) (data : BitVec 32) : RefModel :=
  match r with
  | .SRR => { m with SRR := data }
  | .MSR => { m with MSR := data }
  | .BRPR => { m with BRPR := data }
  | .BTR => { m with BTR := data }
  | .IER => { m with IER := data }
  | .TSR => { m with TSR := data }
  | .DP_BRPR => { m with DP_BRPR := data }
  | .DP_BTR => { m with DP_BTR := data }
  | .TXE_WMR => { m with TXE_WMR := data }
  | .RCS0 => { m with RCS0 := data }
  | .RCS1 => { m with RCS1 := data }
  | .RCS2 => { m with RCS2 := data }
  | .AFR => { m with AFR := data }
  | .WMR => { m with WMR := data }

theorem plain_setPlain (m : RefModel) (r r' : PlainReg) (data : BitVec 32) :
    (m.setPlain r data).plain r' = if r' = r then data else m.plain r' := by
  cases r <;> cases r' <;> rfl

/-- A plain register is read as it is. -/
@[simp] theorem readReg_addr (m : RefModel) (r : PlainReg) : m.readReg r.addr = m.plain r := by
  cases r <;> rfl

theorem isSoftReset_of_ne {addr : BitVec 32} (h : addr ≠ 0x0000#32) (data : BitVec 32) :
    isSoftReset addr data = false := by
  simp [isSoftReset, h]

/-- What a register write can do. -/
inductive WriteEffect (m : RefModel) : BitVec 32 → BitVec 32 → RefModel → Prop where
  | reset {addr data : BitVec 32} (hreset : isSoftReset addr data = true) :
      WriteEffect m addr data new
  | store (r : PlainReg) (data : BitVec 32) (hreset : isSoftReset r.addr data = false) :
      WriteEffect m r.addr data (m.setPlain r data)
  | clearEsr (data : BitVec 32) :
      WriteEffect m 0x0014#32 data { m with ESR := m.ESR &&& ~~~data }
  | clearIsr (data : BitVec 32) :
      WriteEffect m 0x0024#32 data { m with ISR := m.ISR &&& ~~~data }
  | request (data : BitVec 32) :
      WriteEffect m 0x0090#32 data (processTxArbitration { m with TRR := m.TRR ||| data })
  | cancel (data : BitVec 32) :
      WriteEffect m 0x0098#32 data
        (run (cancelStep data) { m with TCR := m.TCR ||| data } (List.finRange 32))
  | ignored {addr data : BitVec 32} (hplain : ∀ r : PlainReg, addr ≠ r.addr)
      (hother : addr ∉ [0x0014#32, 0x0024#32, 0x0090#32, 0x0098#32]) :
      WriteEffect m addr data m

/-- **A register write has one of these effects.** -/
theorem writeReg_effect {m m' : RefModel} {addr data : BitVec 32}
    (hw : m.writeReg addr data = m') : WriteEffect m addr data m' := by
  unfold writeReg at hw
  split at hw <;> subst hw
  case h_1 =>
    cases hbit : data.getLsbD 0 with
    | true => exact .reset (by simp [isSoftReset, hbit])
    | false => exact .store .SRR data (by rw [isSoftReset, hbit, Bool.and_false])
  case h_2 => exact .store .MSR data rfl
  case h_3 => exact .store .BRPR data rfl
  case h_4 => exact .store .BTR data rfl
  case h_5 => exact .clearEsr data
  case h_6 => exact .store .IER data rfl
  case h_7 => exact .clearIsr data
  case h_8 => exact .store .TSR data rfl
  case h_9 => exact .store .DP_BRPR data rfl
  case h_10 => exact .store .DP_BTR data rfl
  case h_11 => exact .request data
  case h_12 => exact .cancel data
  case h_13 => exact .store .TXE_WMR data rfl
  case h_14 => exact .store .RCS0 data rfl
  case h_15 => exact .store .RCS1 data rfl
  case h_16 => exact .store .RCS2 data rfl
  case h_17 => exact .store .AFR data rfl
  case h_18 => exact .store .WMR data rfl
  case h_19 =>
    refine .ignored (fun r => ?_) (by simp; tauto)
    cases r <;> assumption

/-- A plain register is stored as written, unless the write is a reset. -/
theorem writeReg_plain (m : RefModel) (r : PlainReg) {data : BitVec 32}
    (hreset : isSoftReset r.addr data = false) : m.writeReg r.addr data = m.setPlain r data := by
  cases r with
  | SRR =>
    have hbit : data.getLsbD 0 = false := hreset
    show (if data.getLsbD 0 then _ else { m with SRR := data }) = { m with SRR := data }
    rw [hbit, if_neg Bool.false_ne_true]
  | _ => rfl

/-- A write to any other address does nothing. -/
theorem writeReg_ignored (m : RefModel) {addr : BitVec 32} (data : BitVec 32)
    (hplain : ∀ r : PlainReg, addr ≠ r.addr)
    (hother : addr ∉ [0x0014#32, 0x0024#32, 0x0090#32, 0x0098#32]) :
    m.writeReg addr data = m := by
  generalize hw : m.writeReg addr data = m'
  cases writeReg_effect hw with
  | reset hreset =>
    rw [isSoftReset_of_ne (hplain .SRR)] at hreset
    cases hreset
  | store r => exact absurd rfl (hplain r)
  | clearEsr => simp at hother
  | clearIsr => simp at hother
  | request => simp at hother
  | cancel => simp at hother
  | ignored => rfl

@[simp] theorem plain_new (r : PlainReg) : new.plain r = 0 := by
  cases r <;> rfl

/-- What an operation other than a register write leaves alone. -/
structure KeepsRegs (m : RefModel) (op : RefOp) : Prop where
  plain : ∀ r, (m.step op).plain r = m.plain r
  TRR : (m.step op).TRR = m.TRR
  TCR : (m.step op).TCR = m.TCR
  ESR : (∀ errType isFd isTx, op ≠ .errorDetected errType isFd isTx) → (m.step op).ESR = m.ESR

theorem KeepsRegs.of_eq {m m' : RefModel} {op : RefOp} (h : m.step op = m')
    (hplain : ∀ r, m'.plain r = m.plain r) (htrr : m'.TRR = m.TRR) (htcr : m'.TCR = m.TCR)
    (hesr : m'.ESR = m.ESR) : KeepsRegs m op := by
  subst h
  exact ⟨hplain, htrr, htcr, fun _ => hesr⟩

/-- **Only a register write changes the register file**, apart from the status an error
leaves in ESR. -/
theorem step_keepsRegs (m : RefModel) {op : RefOp} (h : op.registerSide = false) :
    KeepsRegs m op := by
  cases op with
  | writeReg addr data => cases h
  | writeTxBuf bufIdx offset data =>
    obtain ⟨_, heq⟩ := m.writeTxBuf_eq bufIdx offset data
    exact .of_eq heq (fun r => by cases r <;> rfl) rfl rfl rfl
  | txArbitration =>
    obtain ⟨_, _, _, _, _, _, heq⟩ := m.processTxArbitration_eq
    exact .of_eq heq (fun r => by cases r <;> rfl) rfl rfl rfl
  | received tr =>
    obtain ⟨_, _, _, _, _, heq⟩ := m.onCanFrameReceived_eq tr
    exact .of_eq heq (fun r => by cases r <;> rfl) rfl rfl rfl
  | errorDetected errType isFd isTx =>
    obtain ⟨_, _, _, heq, -⟩ := m.onErrorDetected_eq errType isFd isTx
    refine ⟨?_, by rw [step, heq], by rw [step, heq], fun hne => absurd rfl (hne _ _ _)⟩
    rw [step, heq]
    intro r
    cases r <;> rfl
  | tick =>
    obtain ⟨_, heq⟩ := m.tick_eq
    exact .of_eq heq (fun r => by cases r <;> rfl) rfl rfl rfl
  | readRxFifo fifoId =>
    obtain ⟨_, _, _, heq⟩ := m.readRxFifo_eq fifoId
    exact .of_eq heq (fun r => by cases r <;> rfl) rfl rfl rfl

/-- The value of a plain register after an operation: a reset clears it, a write to its
address replaces it. -/
def plainAfter (m : RefModel) (r : PlainReg) : RefOp → BitVec 32
  | .writeReg addr data =>
      if isSoftReset addr data then 0 else if r.addr = addr then data else m.plain r
  | _ => m.plain r

/-- **Nothing else changes a plain register.** -/
theorem plain_step (m : RefModel) (op : RefOp) (r : PlainReg) :
    (m.step op).plain r = m.plainAfter r op := by
  cases op with
  | writeReg addr data =>
    simp only [step, plainAfter]
    generalize hw : m.writeReg addr data = m'
    cases writeReg_effect hw with
    | reset hreset => rw [if_pos hreset, plain_new]
    | store r' data hreset =>
      rw [hreset, if_neg Bool.false_ne_true, plain_setPlain]
      exact if_congr ⟨congrArg _, PlainReg.addr_inj⟩ rfl rfl
    | clearEsr data => cases r <;> rfl
    | clearIsr data => cases r <;> rfl
    | request data =>
      obtain ⟨_, _, _, _, _, _, heq⟩ := processTxArbitration_eq { m with TRR := m.TRR ||| data }
      rw [heq]
      cases r <;> rfl
    | cancel data =>
      obtain ⟨_, _, _, heq, -⟩ := m.cancel_eq data
      rw [heq]
      cases r <;> rfl
    | ignored hplain hother =>
      rw [isSoftReset_of_ne (hplain .SRR), if_neg Bool.false_ne_true, if_neg (hplain r).symm]
  | _ => exact (m.step_keepsRegs rfl).plain r

/-! ### Write protection -/

/-- The controller is enabled (SRR bit 1). -/
def cen (m : RefModel) : Bool := m.SRR.getLsbD 1

end RefModel

/-- The registers that may only be configured while the controller is disabled. -/
def PlainReg.configOnly : PlainReg → Bool
  | .MSR | .BRPR | .BTR | .DP_BRPR | .DP_BTR => true
  | _ => false

namespace RefModel

/-- The step changes what is read from a configuration register only by a reset, or by a
write to it while the controller is disabled. -/
def RespectsProtection (m : RefModel) (op : RefOp) : Prop :=
  ∀ r : PlainReg, r.configOnly = true → (m.step op).readReg r.addr ≠ m.readReg r.addr →
    op.softReset = true ∨ m.cen = false ∧ ∃ data, op = .writeReg r.addr data

/-- A write to a configuration register of an enabled controller writes what it holds. -/
def HarmlessWhileEnabled (m : RefModel) (op : RefOp) : Prop :=
  ∀ (r : PlainReg) (data : BitVec 32), r.configOnly = true → op = .writeReg r.addr data →
    m.cen = true → data = m.readReg r.addr

theorem isSoftReset_of_configOnly {r : PlainReg} (h : r.configOnly = true) (data : BitVec 32) :
    isSoftReset r.addr data = false := by
  refine isSoftReset_of_ne ?_ data
  rintro haddr
  obtain rfl : r = .SRR := PlainReg.addr_inj haddr
  cases h

theorem respectsProtection_iff (m : RefModel) (op : RefOp) :
    RespectsProtection m op ↔ HarmlessWhileEnabled m op := by
  constructor
  · rintro hrespects r data hr rfl hcen
    by_contra hne
    have hreset := isSoftReset_of_configOnly hr data
    have hchanged : (m.step (.writeReg r.addr data)).readReg r.addr ≠ m.readReg r.addr := by
      rwa [readReg_addr, plain_step, plainAfter, hreset, if_neg Bool.false_ne_true, if_pos rfl]
    rcases hrespects r hr hchanged with hreset' | ⟨hcen', -⟩
    · rw [RefOp.softReset, hreset] at hreset'
      cases hreset'
    · rw [hcen] at hcen'
      cases hcen'
  · intro hharmless r hr hchanged
    rw [readReg_addr, readReg_addr, plain_step] at hchanged
    cases op with
    | writeReg addr data =>
      simp only [plainAfter] at hchanged
      split at hchanged
      · next hreset => exact Or.inl hreset
      · split at hchanged
        · next haddr =>
          subst haddr
          refine Or.inr ⟨?_, data, rfl⟩
          by_contra hcen
          have hsame := hharmless r data hr rfl (by simpa using hcen)
          exact hchanged (hsame.trans (readReg_addr m r))
        · exact absurd rfl hchanged
    | _ => exact absurd rfl hchanged

/-- **Configuration registers are protected through a whole run iff no write changes one
while the controller is enabled.** -/
theorem writeProtection_iff (m : RefModel) (ops : List RefOp) :
    Along step RespectsProtection m ops ↔ Along step HarmlessWhileEnabled m ops := by
  have hstep : RespectsProtection = HarmlessWhileEnabled := by
    funext m op
    exact propext (m.respectsProtection_iff op)
  rw [hstep]

/-- BRPR is written with 55, the controller enabled, and BRPR written with AA. -/
theorem enabled_write_changes :
    let m := run step new [.writeReg 0x0008#32 0x55#32, .writeReg 0x0000#32 2#32]
    let m' := m.step (.writeReg 0x0008#32 0xAA#32)
    m.cen = true ∧ m.readReg 0x0008#32 = 0x55#32 ∧ m'.readReg 0x0008#32 = 0xAA#32 ∧
      ¬ RespectsProtection m (.writeReg 0x0008#32 0xAA#32) := by
  refine ⟨by decide +kernel, by decide +kernel, by decide +kernel, ?_⟩
  intro h
  rcases h .BRPR rfl (by decide +kernel) with hreset | ⟨hcen, -⟩
  · cases hreset
  · exact absurd hcen (by decide +kernel)

end RefModel

end Testbench.Canfd
