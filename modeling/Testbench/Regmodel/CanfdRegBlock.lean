import Mathlib

/-!
The register model `canfd_reg_block` (`canfd/regmodel/canfd_reg_block.sv`).

A register class configures fields: a name, a size, the position of the least
significant bit, an access policy and a reset value. The other arguments of `configure`
(volatility and the three randomisation and access flags) are the same in every call
and nothing reads them here. `canfdRegBlock` lists the classes at the offsets the block
maps them to.
-/

namespace Testbench.Regmodel

/-- The access policies the classes use. -/
inductive Access where
  | RW
  | RO
  | WO
  | W1C
  deriving DecidableEq, Repr

/-- `uvm_reg_field`, as `configure` sets it. -/
structure UvmRegField where
  name : String
  size : Nat
  lsbPos : Nat
  access : Access
  reset : Nat
  deriving DecidableEq, Repr

/-- `uvm_reg`: a register of 32 bits and its fields. -/
structure UvmReg where
  name : String
  fields : List UvmRegField
  deriving DecidableEq, Repr

/-- The bits of a field. -/
def UvmRegField.mask (f : UvmRegField) : BitVec 32 :=
  BitVec.ofNat 32 ((2 ^ f.size - 1) * 2 ^ f.lsbPos)

namespace UvmReg

/-- The bits of the fields of a register. -/
def mask (r : UvmReg) : BitVec 32 := r.fields.foldr (fun f v => f.mask ||| v) 0

/-- The bits of the fields that can be read. -/
def readableMask (r : UvmReg) : BitVec 32 :=
  (r.fields.filter fun f => f.access ≠ .WO).foldr (fun f v => f.mask ||| v) 0

/-- `get_reset`: the reset values of the fields in their places. -/
def getReset (r : UvmReg) : BitVec 32 :=
  r.fields.foldr (fun f v => BitVec.ofNat 32 (f.reset * 2 ^ f.lsbPos) ||| v) 0

end UvmReg

/-- The classes that configure one RW field over the whole register. -/
def wholeReg (name field : String) : UvmReg where
  name := name
  fields := [⟨field, 32, 0, .RW, 0⟩]

/-! ### The register classes -/

def SRR_reg : UvmReg where
  name := "SRR"
  fields := [⟨"CEN", 1, 1, .RW, 0⟩, ⟨"SRST", 1, 0, .WO, 0⟩]

def MSR_reg : UvmReg where
  name := "MSR"
  fields := [
    ⟨"ITO", 8, 8, .RW, 0⟩, ⟨"ABR", 1, 7, .RW, 0⟩, ⟨"SBR", 1, 6, .RW, 0⟩,
    ⟨"DPEE", 1, 5, .RW, 0⟩, ⟨"DAR", 1, 4, .RW, 0⟩, ⟨"BRSD", 1, 3, .RW, 0⟩,
    ⟨"SNOOP", 1, 2, .RW, 0⟩, ⟨"LBACK", 1, 1, .RW, 0⟩, ⟨"SLEEP", 1, 0, .RW, 0⟩]

def BRPR_reg : UvmReg where
  name := "BRPR"
  fields := [⟨"BRP", 8, 0, .RW, 0⟩]

def BTR_reg : UvmReg where
  name := "BTR"
  fields := [⟨"SJW", 7, 16, .RW, 0⟩, ⟨"TS2", 7, 8, .RW, 0⟩, ⟨"TS1", 8, 0, .RW, 0⟩]

def ECR_reg : UvmReg where
  name := "ECR"
  fields := [⟨"REC", 8, 8, .RO, 0⟩, ⟨"TEC", 8, 0, .RO, 0⟩]

def ESR_reg : UvmReg where
  name := "ESR"
  fields := [
    ⟨"F_BERR", 1, 11, .W1C, 0⟩, ⟨"F_STER", 1, 10, .W1C, 0⟩, ⟨"F_FMER", 1, 9, .W1C, 0⟩,
    ⟨"F_CRCER", 1, 8, .W1C, 0⟩, ⟨"ACKER", 1, 4, .W1C, 0⟩, ⟨"BERR", 1, 3, .W1C, 0⟩,
    ⟨"STER", 1, 2, .W1C, 0⟩, ⟨"FMER", 1, 1, .W1C, 0⟩, ⟨"CRCER", 1, 0, .W1C, 0⟩]

def SR_reg : UvmReg where
  name := "SR"
  fields := [
    ⟨"TDCV", 7, 16, .RO, 0⟩, ⟨"SNOOP", 1, 12, .RO, 0⟩, ⟨"BSFR_CONFIG", 1, 10, .RO, 0⟩,
    ⟨"PEE_CONFIG", 1, 9, .RO, 0⟩, ⟨"ESTAT", 2, 7, .RO, 0⟩, ⟨"ERRWRN", 1, 6, .RO, 0⟩,
    ⟨"BBSY", 1, 5, .RO, 0⟩, ⟨"BIDLE", 1, 4, .RO, 0⟩, ⟨"NORMAL", 1, 3, .RO, 0⟩,
    ⟨"SLEEP", 1, 2, .RO, 0⟩, ⟨"LBACK", 1, 1, .RO, 0⟩, ⟨"CONFIG", 1, 0, .RO, 1⟩]

def ISR_reg : UvmReg where
  name := "ISR"
  fields := [
    ⟨"TXEWMFLL", 1, 31, .RO, 0⟩, ⟨"TXEOFLW", 1, 30, .RO, 0⟩, ⟨"RXBOFLW_BI", 6, 24, .RO, 0⟩,
    ⟨"RXLRM_BI", 6, 18, .RO, 0⟩, ⟨"RXMNF", 1, 17, .RO, 0⟩, ⟨"RXBOFLW", 1, 16, .RO, 0⟩,
    ⟨"RXRBF", 1, 15, .RO, 0⟩, ⟨"TXCRS", 1, 14, .RO, 0⟩, ⟨"TXRRS", 1, 13, .RO, 0⟩,
    ⟨"RXFWMFLL", 1, 12, .RO, 0⟩, ⟨"WKUP", 1, 11, .RO, 0⟩, ⟨"SLP", 1, 10, .RO, 0⟩,
    ⟨"BSOFF", 1, 9, .RO, 0⟩, ⟨"ERROR", 1, 8, .RO, 0⟩, ⟨"RXFOFLW", 1, 6, .RO, 0⟩,
    ⟨"TSCNT_OFLW", 1, 5, .RO, 0⟩, ⟨"RXOK", 1, 4, .RO, 0⟩, ⟨"BSFRD", 1, 3, .RO, 0⟩,
    ⟨"PEE", 1, 2, .RO, 0⟩, ⟨"TXOK", 1, 1, .RO, 0⟩, ⟨"ARBLST", 1, 0, .RO, 0⟩]

def IER_reg : UvmReg where
  name := "IER"
  fields := [
    ⟨"ETXEWMFLL", 1, 31, .RW, 0⟩, ⟨"ETXEOFLW", 1, 30, .RW, 0⟩, ⟨"ERXMNF", 1, 17, .RW, 0⟩,
    ⟨"ERXBOFLW", 1, 16, .RW, 0⟩, ⟨"ERXRBF", 1, 15, .RW, 0⟩, ⟨"ETXCRS", 1, 14, .RW, 0⟩,
    ⟨"ETXRRS", 1, 13, .RW, 0⟩, ⟨"ERXFWMFLL", 1, 12, .RW, 0⟩, ⟨"EWKUP", 1, 11, .RW, 0⟩,
    ⟨"ESLP", 1, 10, .RW, 0⟩, ⟨"EBSOFF", 1, 9, .RW, 0⟩, ⟨"EERROR", 1, 8, .RW, 0⟩,
    ⟨"ERFXOFLW", 1, 6, .RW, 0⟩, ⟨"ETSCNT_OFLW", 1, 5, .RW, 0⟩, ⟨"ERXOK", 1, 4, .RW, 0⟩,
    ⟨"EBSFRD", 1, 3, .RW, 0⟩, ⟨"EPEE", 1, 2, .RW, 0⟩, ⟨"ETXOK", 1, 1, .RW, 0⟩,
    ⟨"EARBLOST", 1, 0, .RW, 0⟩]

def ICR_reg : UvmReg where
  name := "ICR"
  fields := [
    ⟨"CTXEWMFLL", 1, 31, .WO, 0⟩, ⟨"CTXEOFLW", 1, 30, .WO, 0⟩, ⟨"CRXMNF", 1, 17, .WO, 0⟩,
    ⟨"CRXBOFLW", 1, 16, .WO, 0⟩, ⟨"CRXRBF", 1, 15, .WO, 0⟩, ⟨"CTXCRS", 1, 14, .WO, 0⟩,
    ⟨"CTXRRS", 1, 13, .WO, 0⟩, ⟨"CRXFWMFLL", 1, 12, .WO, 0⟩, ⟨"CWKUP", 1, 11, .WO, 0⟩,
    ⟨"CSLP", 1, 10, .WO, 0⟩, ⟨"CBSOFF", 1, 9, .WO, 0⟩, ⟨"CERROR", 1, 8, .WO, 0⟩,
    ⟨"CRFXOFLW", 1, 6, .WO, 0⟩, ⟨"CTSCNT_OFLW", 1, 5, .WO, 0⟩, ⟨"CRXOK", 1, 4, .WO, 0⟩,
    ⟨"CBSFRD", 1, 3, .WO, 0⟩, ⟨"CPEE", 1, 2, .WO, 0⟩, ⟨"CTXOK", 1, 1, .WO, 0⟩,
    ⟨"CARBLOST", 1, 0, .WO, 0⟩]

def TSR_reg : UvmReg where
  name := "TSR"
  fields := [⟨"TIMESTAMP_CNT", 16, 16, .RO, 0⟩, ⟨"CTS", 1, 0, .WO, 0⟩]

def DP_BRPR_reg : UvmReg where
  name := "DP_BRPR"
  fields := [⟨"TDC", 1, 16, .RW, 0⟩, ⟨"TDCOFF", 6, 8, .RW, 0⟩, ⟨"DP_BRP", 8, 0, .RW, 0⟩]

def DP_BTR_reg : UvmReg where
  name := "DP_BTR"
  fields := [⟨"DP_SJW", 4, 16, .RW, 0⟩, ⟨"DP_TS2", 4, 8, .RW, 0⟩, ⟨"DP_TS1", 5, 0, .RW, 0⟩]

def TRR_reg : UvmReg := wholeReg "TRR" "RR"
def IETRS_reg : UvmReg := wholeReg "IETRS" "ERRS"
def TCR_reg : UvmReg := wholeReg "TCR" "CR"
def IETCS_reg : UvmReg := wholeReg "IETCS" "ECRS"
def TXE_FSR_reg : UvmReg := wholeReg "TXE_FSR" "TXE_STATUS"
def TXE_WMR_reg : UvmReg := wholeReg "TXE_WMR" "TXE_WM"
def RCS0_reg : UvmReg := wholeReg "RCS0" "RCS"
def RCS1_reg : UvmReg := wholeReg "RCS1" "RCS"
def RCS2_reg : UvmReg := wholeReg "RCS2" "RCS"
def IERBF0_reg : UvmReg := wholeReg "IERBF0" "IERBF"
def IEBRF1_reg : UvmReg := wholeReg "IEBRF1" "IEBRF"
def AFR_reg : UvmReg := wholeReg "AFR" "ACF"
def FSR_reg : UvmReg := wholeReg "FSR" "FS"
def WMR_reg : UvmReg := wholeReg "WMR" "WM"

/-! ### The block -/

/-- One `add_reg` call of the block's map, without the access rights. -/
structure MapEntry where
  reg : UvmReg
  offset : BitVec 32
  deriving DecidableEq, Repr

/-- `canfd_reg_block`. -/
def canfdRegBlock : List MapEntry := [
  ⟨SRR_reg, 0x0000#32⟩, ⟨MSR_reg, 0x0004#32⟩, ⟨BRPR_reg, 0x0008#32⟩, ⟨BTR_reg, 0x000C#32⟩,
  ⟨ECR_reg, 0x0010#32⟩, ⟨ESR_reg, 0x0014#32⟩, ⟨SR_reg, 0x0018#32⟩, ⟨ISR_reg, 0x001C#32⟩,
  ⟨IER_reg, 0x0020#32⟩, ⟨ICR_reg, 0x0024#32⟩, ⟨TSR_reg, 0x0028#32⟩, ⟨DP_BRPR_reg, 0x0088#32⟩,
  ⟨DP_BTR_reg, 0x008C#32⟩, ⟨TRR_reg, 0x0090#32⟩, ⟨IETRS_reg, 0x0094#32⟩, ⟨TCR_reg, 0x0098#32⟩,
  ⟨IETCS_reg, 0x009C#32⟩, ⟨TXE_FSR_reg, 0x00A0#32⟩, ⟨TXE_WMR_reg, 0x00A4#32⟩,
  ⟨RCS0_reg, 0x00B0#32⟩, ⟨RCS1_reg, 0x00B4#32⟩, ⟨RCS2_reg, 0x00B8#32⟩, ⟨IERBF0_reg, 0x00C0#32⟩,
  ⟨IEBRF1_reg, 0x00C4#32⟩, ⟨AFR_reg, 0x00E0#32⟩, ⟨FSR_reg, 0x00E8#32⟩, ⟨WMR_reg, 0x00EC#32⟩]

/-- No register or field is configured over another: the offsets are distinct, and the
fields of a class lie inside the register, highest first. -/
theorem canfdRegBlock_disjoint :
    (canfdRegBlock.map MapEntry.offset).Nodup ∧ ∀ e ∈ canfdRegBlock,
      (e.reg.fields.Pairwise fun f f' => f'.lsbPos + f'.size ≤ f.lsbPos) ∧
        ∀ f ∈ e.reg.fields, f.lsbPos + f.size ≤ 32 ∧ f.reset < 2 ^ f.size := by
  decide +kernel

end Testbench.Regmodel
