import Mathlib

/-!
The CAN frame transaction `canphy_trans` (`canfd/uvc/canphy/canphy_trans.sv`).

One record stands for every frame the environment passes around: what the driver
sends, what the monitor reports and what the reference model predicts. Fields
that no modelled function reads (`crc_calc`, `ack_received`) are left out.

The two constraint blocks that decide which transactions are frames are kept as
predicates. `cFrameConsistency` takes the bound on a standard identifier as a
parameter, because the source writes it as the sized literal `11'h800`.
-/

namespace Testbench.Canphy

/-- `can_frame_type_e`. -/
inductive CanFrameType where
  | canStdData
  | canExtData
  | canStdRemote
  | canExtRemote
  | canfdStd
  | canfdExt
  | errorFrame
  | overloadFrame
  deriving DecidableEq, Repr

/-- `can_error_type_e`. -/
inductive CanErrorType where
  | errNone
  | errBit
  | errStuff
  | errCrc
  | errForm
  | errAck
  deriving DecidableEq, Repr

/-- `can_direction_e`. -/
inductive CanDirection where
  | canDirTx
  | canDirRx
  | canDirUnknown
  deriving DecidableEq, Repr

/-- One element of the four-state array `data`: `none` is the all-x value of an
element that was allocated and never assigned. -/
abbrev LogicByte := Option (BitVec 8)

/-- A four-state byte stored into a two-state one: x becomes zero. -/
def LogicByte.toBits (b : LogicByte) : BitVec 8 := b.getD 0

/-- `canphy_trans`. The defaults are those of a transaction just created; the
four-state `can_id` and `dlc` are assigned by every function that creates one. -/
structure CanphyTrans where
  frameType : CanFrameType := .canStdData
  canId : BitVec 29 := 0
  dlc : BitVec 4 := 0
  data : List LogicByte := []
  brs : Bool := false
  esi : Bool := false
  direction : CanDirection := .canDirTx
  ide : Bool := false
  rtr : Bool := false
  fdf : Bool := false
  errInject : CanErrorType := .errNone
  errBitPos : Int := 0
  bitCount : Int := 0
  deriving DecidableEq, Repr

/-- `dlc_to_bytes`: the payload length a DLC stands for. -/
def dlcToBytes (d : BitVec 4) : Nat :=
  match d.toNat with
  | 9 => 12
  | 10 => 16
  | 11 => 20
  | 12 => 24
  | 13 => 32
  | 14 => 48
  | 15 => 64
  | n => n

theorem dlcToBytes_le (d : BitVec 4) : dlcToBytes d ≤ 64 := by
  revert d; decide

/-- Data and remote frames: everything but the two flag frames. -/
def CanphyTrans.isDataOrRemote (tr : CanphyTrans) : Bool :=
  !(tr.frameType = .errorFrame || tr.frameType = .overloadFrame)

/-- `frame_type` as `get_expected_tx_frame` and `parse_frame` derive it from the
three format flags. -/
def frameTypeOf (fdf rtr ide : Bool) : CanFrameType :=
  if fdf then (if ide then .canfdExt else .canfdStd)
  else if rtr then (if ide then .canExtRemote else .canStdRemote)
  else if ide then .canExtData else .canStdData

/-! ### Constraints -/

/-- `c_frame_consistency`, with `idBound` for the bound on an 11-bit identifier. -/
def cFrameConsistency (idBound : Nat) (tr : CanphyTrans) : Prop :=
  match tr.frameType with
  | .canStdData => tr.ide = false ∧ tr.rtr = false ∧ tr.fdf = false ∧ tr.brs = false ∧
      tr.canId.toNat < idBound
  | .canExtData => tr.ide = true ∧ tr.rtr = false ∧ tr.fdf = false ∧ tr.brs = false
  | .canStdRemote => tr.ide = false ∧ tr.rtr = true ∧ tr.fdf = false ∧ tr.brs = false ∧
      tr.canId.toNat < idBound ∧ tr.data.length = 0
  | .canExtRemote => tr.ide = true ∧ tr.rtr = true ∧ tr.fdf = false ∧ tr.brs = false ∧
      tr.data.length = 0
  | .canfdStd => tr.ide = false ∧ tr.rtr = false ∧ tr.fdf = true ∧ tr.canId.toNat < idBound
  | .canfdExt => tr.ide = true ∧ tr.rtr = false ∧ tr.fdf = true
  | .errorFrame | .overloadFrame => tr.data.length = 0

/-- The payload length the FD half of `c_dlc_data_size` ties to each DLC. -/
def fdDataSize (d : BitVec 4) : Nat :=
  match d.toNat with
  | 0 => 0 | 1 => 1 | 2 => 2 | 3 => 3 | 4 => 4 | 5 => 5 | 6 => 6 | 7 => 7 | 8 => 8
  | 9 => 12 | 10 => 16 | 11 => 20 | 12 => 24 | 13 => 32 | 14 => 48 | _ => 64

/-- `c_dlc_data_size`. -/
def cDlcDataSize (tr : CanphyTrans) : Prop :=
  match tr.frameType with
  | .canStdData | .canExtData => tr.dlc ≤ 8 ∧ tr.data.length = tr.dlc.toNat
  | .canfdStd | .canfdExt => tr.data.length = fdDataSize tr.dlc
  | _ => True

instance (idBound : Nat) (tr : CanphyTrans) : Decidable (cFrameConsistency idBound tr) := by
  unfold cFrameConsistency; split <;> infer_instance

instance (tr : CanphyTrans) : Decidable (cDlcDataSize tr) := by
  unfold cDlcDataSize; split <;> infer_instance

/-- The constraint's FD table is the one `dlc_to_bytes` implements. -/
theorem fdDataSize_eq (d : BitVec 4) : fdDataSize d = dlcToBytes d := by
  revert d; decide

/-- Up to DLC 8 the payload length is the DLC itself. -/
theorem dlcToBytes_of_le {d : BitVec 4} (h : d ≤ 8) : dlcToBytes d = d.toNat := by
  revert h; revert d; decide

/-- A frame as the constraints describe it: one of the six data and remote frame
types, format flags and payload length to match, every payload byte known. -/
structure FrameTrans extends CanphyTrans where
  dataOrRemote : toCanphyTrans.isDataOrRemote = true
  consistent : cFrameConsistency 0x800 toCanphyTrans
  sized : cDlcDataSize toCanphyTrans
  known : ∀ b ∈ data, b ≠ none

namespace FrameTrans

variable (tr : FrameTrans)

/-- The flags of a frame determine its type. -/
theorem frameType_eq : tr.frameType = frameTypeOf tr.fdf tr.rtr tr.ide := by
  have hc := tr.consistent
  have hd := tr.dataOrRemote
  unfold cFrameConsistency at hc
  unfold frameTypeOf
  cases ht : tr.frameType <;> simp only [ht] at hc
  case errorFrame => simp [CanphyTrans.isDataOrRemote, ht] at hd
  case overloadFrame => simp [CanphyTrans.isDataOrRemote, ht] at hd
  all_goals simp [hc]

/-- FD frames are never remote frames. -/
theorem rtr_of_fdf (h : tr.fdf = true) : tr.rtr = false := by
  have hc := tr.consistent
  have hd := tr.dataOrRemote
  unfold cFrameConsistency at hc
  cases ht : tr.frameType <;> simp only [ht] at hc <;> simp_all [CanphyTrans.isDataOrRemote]

/-- A standard frame has an 11-bit identifier. -/
theorem canId_lt (h : tr.ide = false) : tr.canId.toNat < 0x800 := by
  have hc := tr.consistent
  have hd := tr.dataOrRemote
  unfold cFrameConsistency at hc
  cases ht : tr.frameType <;> simp only [ht] at hc <;> simp_all [CanphyTrans.isDataOrRemote]

/-- A remote frame carries no payload. -/
theorem data_of_rtr (h : tr.rtr = true) : tr.data = [] := by
  have hc := tr.consistent
  have hd := tr.dataOrRemote
  unfold cFrameConsistency at hc
  cases ht : tr.frameType <;> simp only [ht] at hc <;> simp_all [CanphyTrans.isDataOrRemote]

/-- Every frame that is not remote has the payload length its DLC stands for. -/
theorem length_data (h : tr.rtr = false) : tr.data.length = dlcToBytes tr.dlc := by
  have hc := tr.consistent
  have hd := tr.dataOrRemote
  have hs := tr.sized
  unfold cFrameConsistency at hc
  unfold cDlcDataSize at hs
  cases ht : tr.frameType <;> simp only [ht] at hc hs
  case canStdData | canExtData => rw [hs.2, dlcToBytes_of_le hs.1]
  case canfdStd | canfdExt => rw [hs, fdDataSize_eq]
  case canStdRemote | canExtRemote => simp [hc] at h
  all_goals simp [CanphyTrans.isDataOrRemote, ht] at hd

/-- A classic data frame has a DLC of at most 8. -/
theorem dlc_le (hf : tr.fdf = false) (hr : tr.rtr = false) : tr.dlc ≤ 8 := by
  have hc := tr.consistent
  have hd := tr.dataOrRemote
  have hs := tr.sized
  unfold cFrameConsistency at hc
  unfold cDlcDataSize at hs
  cases ht : tr.frameType <;> simp only [ht] at hc hs <;> simp_all [CanphyTrans.isDataOrRemote]

end FrameTrans

end Testbench.Canphy
