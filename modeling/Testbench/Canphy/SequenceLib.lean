import Testbench.Canphy.Trans

/-!
The sending sequences (`canfd/uvc/canphy/canphy_sequence_lib.sv`) and the constraints they
randomize a `canphy_trans` under.

A name that stands alone in an inline constraint is looked up in the randomized object
first. `req.can_id == can_id` is therefore an equation between the item's identifier and
itself, and the identifier, the DLC and BRS a sequence is given do not reach the solver;
`err_type` and `bit_pos` do, since the item has no fields of these names.

The bound of `c_frame_consistency` on a standard identifier is the sized literal
`11'h800`. Eleven bits do not hold it (`idBound_eq`), and `exact_iff` is what that means
for each sequence.
-/

namespace Testbench.Canphy

/-- `11'h800`. -/
def idBound : Nat := (0x800#11).toNat

theorem idBound_eq : idBound = 0 := rfl

/-- `c_err_default`. -/
def cErrDefault (tr : CanphyTrans) : Prop := tr.errInject = .errNone ∧ 0 ≤ tr.errBitPos

/-- What is randomized: the item of a sending sequence, with the fields the sequence was
given, or an overload frame, which no sequence sends. -/
inductive Stimulus where
  | txStdFrame (canId : BitVec 11) (dlc : BitVec 4)
  | txExtFrame (canId : BitVec 29) (dlc : BitVec 4)
  | txFdFrame (canId : BitVec 29) (isExt brs : Bool) (dlc : BitVec 4)
  | txErrorFrame
  | txRemoteFrame (canId : BitVec 29) (isExt : Bool)
  | injectError (errType : CanErrorType) (bitPos : Int) (canId : BitVec 29)
  | overloadFrame

namespace Stimulus

/-- The frame type the inline constraints ask for. -/
def frameType : Stimulus → CanFrameType
  | txStdFrame .. => .canStdData
  | txExtFrame .. => .canExtData
  | txFdFrame _ isExt _ _ => if isExt then .canfdExt else .canfdStd
  | txErrorFrame => .errorFrame
  | txRemoteFrame _ isExt => if isExt then .canExtRemote else .canStdRemote
  | injectError .. => .canStdData
  | overloadFrame => .overloadFrame

/-- The identifier the sequence was given. -/
def canId : Stimulus → BitVec 29
  | txStdFrame canId _ => canId.setWidth 29
  | txExtFrame canId _ | txFdFrame canId _ _ _ | txRemoteFrame canId _ | injectError _ _ canId =>
      canId
  | txErrorFrame | overloadFrame => 0

/-- The error to inject. -/
def errType : Stimulus → CanErrorType
  | injectError errType _ _ => errType
  | _ => .errNone

/-- The inline constraints, each name read where the language looks it up. -/
def inlineConstraints : Stimulus → CanphyTrans → Prop
  | txStdFrame _ _, req => req.frameType = .canStdData ∧ req.canId = req.canId ∧
      req.dlc = req.dlc ∧ req.data.length = req.dlc.toNat
  | txExtFrame _ _, req => req.frameType = .canExtData ∧ req.canId = req.canId ∧
      req.dlc = req.dlc ∧ req.data.length = req.dlc.toNat
  | txFdFrame _ isExt _ _, req =>
      req.frameType = (if isExt then .canfdExt else .canfdStd) ∧ req.canId = req.canId ∧
        req.brs = req.brs ∧ req.dlc = req.dlc ∧ req.data.length = dlcToBytes req.dlc
  | txErrorFrame, req => req.frameType = .errorFrame
  | txRemoteFrame _ isExt, req =>
      req.frameType = (if isExt then .canExtRemote else .canStdRemote) ∧ req.canId = req.canId
  | injectError errType bitPos _, req => req.frameType = .canStdData ∧ req.canId = req.canId ∧
      req.errInject = errType ∧ req.errBitPos = bitPos
  | overloadFrame, req => req.frameType = .overloadFrame

/-- An identifier and a DLC the frame type admits, and no negative bit position. -/
def Legal : Stimulus → Prop
  | txStdFrame _ dlc | txExtFrame _ dlc => dlc ≤ 8
  | txFdFrame canId isExt _ _ | txRemoteFrame canId isExt => isExt = false → canId.toNat < 0x800
  | injectError _ bitPos canId => canId.toNat < 0x800 ∧ 0 ≤ bitPos
  | txErrorFrame | overloadFrame => True

/-- The item carries what the sequence was given. -/
def Carried : Stimulus → CanphyTrans → Prop
  | txStdFrame canId dlc, req => req.canId = canId.setWidth 29 ∧ req.dlc = dlc
  | txExtFrame canId dlc, req => req.canId = canId ∧ req.dlc = dlc
  | txFdFrame canId _ brs dlc, req => req.canId = canId ∧ req.brs = brs ∧ req.dlc = dlc
  | txRemoteFrame canId _, req => req.canId = canId
  | injectError errType bitPos canId, req =>
      req.canId = canId ∧ req.errInject = errType ∧ req.errBitPos = bitPos
  | txErrorFrame, _ | overloadFrame, _ => True

end Stimulus

/-- The types whose frames have an 11-bit identifier. -/
def CanFrameType.isStandard : CanFrameType → Bool
  | .canStdData | .canStdRemote | .canfdStd => true
  | _ => false

/-- A value the solver may return, with `idBound` for the bound on an 11-bit identifier. -/
structure Solution (idBound : Nat) (stim : Stimulus) (req : CanphyTrans) : Prop where
  consistent : cFrameConsistency idBound req
  sized : cDlcDataSize req
  errDefault : cErrDefault req
  inlined : stim.inlineConstraints req
  known : ∀ b ∈ req.data, b ≠ none

/-- A frame as its type requires it: the format flags that say the type, an 11-bit
identifier in a standard frame, BRS in FD frames only, the payload the DLC stands for, and
none in remote, error and overload frames. -/
structure WellFormed (tr : CanphyTrans) : Prop where
  flags : tr.isDataOrRemote = true → tr.frameType = frameTypeOf tr.fdf tr.rtr tr.ide
  canId : tr.isDataOrRemote = true → tr.ide = false → tr.canId.toNat < 0x800
  brs : tr.isDataOrRemote = true → tr.fdf = false → tr.brs = false
  dlc : tr.isDataOrRemote = true → tr.fdf = false → tr.rtr = false → tr.dlc ≤ 8
  data : tr.data.length =
    if tr.isDataOrRemote = true ∧ tr.rtr = false then dlcToBytes tr.dlc else 0
  known : ∀ b ∈ tr.data, b ≠ none

/-- There is a solution with the fields the sequence was given, and every solution is a
well-formed frame of the sequence's type. -/
structure Exact (idBound : Nat) (stim : Stimulus) : Prop where
  solvable : ∃ req, Solution idBound stim req ∧ stim.Carried req
  sound : ∀ req, Solution idBound stim req → req.frameType = stim.frameType ∧ WellFormed req

/-! ### Every solution is a frame -/

theorem cFrameConsistency_mono {b b' : Nat} (hle : b ≤ b') {tr : CanphyTrans}
    (h : cFrameConsistency b tr) : cFrameConsistency b' tr := by
  unfold cFrameConsistency at *
  cases ht : tr.frameType <;> simp only [ht] at h ⊢
  case canStdData =>
    obtain ⟨hide, hrtr, hfdf, hbrs, hid⟩ := h
    exact ⟨hide, hrtr, hfdf, hbrs, hid.trans_le hle⟩
  case canStdRemote =>
    obtain ⟨hide, hrtr, hfdf, hbrs, hid, hdata⟩ := h
    exact ⟨hide, hrtr, hfdf, hbrs, hid.trans_le hle, hdata⟩
  case canfdStd =>
    obtain ⟨hide, hrtr, hfdf, hid⟩ := h
    exact ⟨hide, hrtr, hfdf, hid.trans_le hle⟩
  all_goals exact h

/-- The fields of a frame that meets the constraints. -/
theorem FrameTrans.wellFormed (tr : FrameTrans) : WellFormed tr.toCanphyTrans where
  flags _ := tr.frameType_eq
  canId _ := tr.canId_lt
  brs _ hfdf := by
    have hc := tr.consistent
    have hd := tr.dataOrRemote
    unfold cFrameConsistency at hc
    cases ht : tr.frameType <;> simp only [ht] at hc <;> simp_all [CanphyTrans.isDataOrRemote]
  dlc _ := tr.dlc_le
  data := by
    cases hr : tr.rtr with
    | true => simp [tr.data_of_rtr hr]
    | false => simp [tr.length_data hr, tr.dataOrRemote]
  known := tr.known

/-- Error and overload frames have no payload. -/
theorem length_data_flag {b : Nat} {tr : CanphyTrans} (hd : tr.isDataOrRemote = false)
    (hc : cFrameConsistency b tr) : tr.data.length = 0 := by
  unfold cFrameConsistency at hc
  cases ht : tr.frameType <;> simp only [ht] at hc
  case errorFrame | overloadFrame => exact hc
  all_goals simp [CanphyTrans.isDataOrRemote, ht] at hd

/-- **Whatever the solver returns is a well-formed frame of the type asked for.** -/
theorem Solution.sound {b : Nat} (hb : b ≤ 0x800) {stim : Stimulus} {req : CanphyTrans}
    (h : Solution b stim req) : req.frameType = stim.frameType ∧ WellFormed req := by
  have htype : req.frameType = stim.frameType := by
    have hin := h.inlined
    cases stim <;> first | exact hin.1 | exact hin
  refine ⟨htype, ?_⟩
  have hconsistent := cFrameConsistency_mono hb h.consistent
  cases hd : req.isDataOrRemote with
  | true => exact FrameTrans.wellFormed ⟨req, hd, hconsistent, h.sized, h.known⟩
  | false =>
    have hlength := length_data_flag hd hconsistent
    exact { flags := by simp [hd], canId := by simp [hd], brs := by simp [hd], dlc := by simp [hd]
            data := by simp [hd, hlength], known := h.known }

/-! ### Solving the constraints -/

/-- The item with the fields the sequence was given, and a payload of zeros. -/
def Stimulus.item : Stimulus → CanphyTrans
  | txStdFrame canId dlc =>
      { frameType := .canStdData, canId := canId.setWidth 29, dlc,
        data := List.replicate dlc.toNat (some 0) }
  | txExtFrame canId dlc =>
      { frameType := .canExtData, canId, dlc, ide := true,
        data := List.replicate dlc.toNat (some 0) }
  | txFdFrame canId isExt brs dlc =>
      { frameType := if isExt then .canfdExt else .canfdStd, canId, dlc, brs, ide := isExt,
        fdf := true, data := List.replicate (dlcToBytes dlc) (some 0) }
  | txErrorFrame => { frameType := .errorFrame }
  | txRemoteFrame canId isExt =>
      { frameType := if isExt then .canExtRemote else .canStdRemote, canId, ide := isExt,
        rtr := true }
  | injectError errType bitPos canId =>
      { frameType := .canStdData, canId, errInject := errType, errBitPos := bitPos }
  | overloadFrame => { frameType := .overloadFrame }

/-- The payload is one of zeros. -/
theorem known_item (stim : Stimulus) : ∀ b ∈ stim.item.data, b ≠ none := by
  intro b hb
  cases stim with
  | txStdFrame | txExtFrame | txFdFrame =>
    rw [List.eq_of_mem_replicate hb]
    exact Option.some_ne_none 0
  | txErrorFrame | txRemoteFrame | injectError | overloadFrame => cases hb

/-- It is a solution when the identifier is under the bound and nothing is injected. -/
theorem solution_item {b : Nat} {stim : Stimulus} (legal : stim.Legal)
    (hid : stim.frameType.isStandard → stim.canId.toNat < b) (herr : stim.errType = .errNone) :
    Solution b stim stim.item := by
  cases stim with
  | txStdFrame canId dlc =>
    have hid := hid rfl
    constructor
    · exact ⟨rfl, rfl, rfl, rfl, hid⟩
    · exact ⟨legal, List.length_replicate⟩
    · exact ⟨rfl, le_rfl⟩
    · exact ⟨rfl, rfl, rfl, List.length_replicate⟩
    · exact known_item _
  | txExtFrame canId dlc =>
    constructor
    · exact ⟨rfl, rfl, rfl, rfl⟩
    · exact ⟨legal, List.length_replicate⟩
    · exact ⟨rfl, le_rfl⟩
    · exact ⟨rfl, rfl, rfl, List.length_replicate⟩
    · exact known_item _
  | txFdFrame canId isExt brs dlc =>
    have hsize : (Stimulus.txFdFrame canId isExt brs dlc).item.data.length = fdDataSize dlc := by
      rw [fdDataSize_eq]
      exact List.length_replicate
    constructor
    · cases isExt with
      | false => exact ⟨rfl, rfl, rfl, hid rfl⟩
      | true => exact ⟨rfl, rfl, rfl⟩
    · cases isExt <;> exact hsize
    · exact ⟨rfl, le_rfl⟩
    · exact ⟨rfl, rfl, rfl, rfl, List.length_replicate⟩
    · exact known_item _
  | txErrorFrame => exact ⟨rfl, trivial, ⟨rfl, le_rfl⟩, rfl, known_item _⟩
  | txRemoteFrame canId isExt =>
    constructor
    · cases isExt with
      | false => exact ⟨rfl, rfl, rfl, rfl, hid rfl, rfl⟩
      | true => exact ⟨rfl, rfl, rfl, rfl, rfl⟩
    · cases isExt <;> trivial
    · exact ⟨rfl, le_rfl⟩
    · exact ⟨rfl, rfl⟩
    · exact known_item _
  | injectError errType bitPos canId =>
    have hid := hid rfl
    constructor
    · exact ⟨rfl, rfl, rfl, rfl, hid⟩
    · exact ⟨Nat.zero_le 8, rfl⟩
    · exact ⟨herr, legal.2⟩
    · exact ⟨rfl, rfl, rfl, rfl⟩
    · exact known_item _
  | overloadFrame => exact ⟨rfl, trivial, ⟨rfl, le_rfl⟩, rfl, known_item _⟩

theorem carried_item (stim : Stimulus) : stim.Carried stim.item := by
  cases stim with
  | txStdFrame | txExtFrame => exact ⟨rfl, rfl⟩
  | txFdFrame | injectError => exact ⟨rfl, rfl, rfl⟩
  | txRemoteFrame => rfl
  | txErrorFrame | overloadFrame => trivial

/-- A standard identifier has to be under the bound. -/
theorem Solution.canId_lt {b : Nat} {stim : Stimulus} {req : CanphyTrans}
    (h : Solution b stim req) (hstd : req.frameType.isStandard) : req.canId.toNat < b := by
  have hc := h.consistent
  unfold cFrameConsistency at hc
  cases ht : req.frameType <;> simp only [ht] at hc hstd
  case canStdData => exact hc.2.2.2.2
  case canStdRemote => exact hc.2.2.2.2.1
  case canfdStd => exact hc.2.2.2
  all_goals simp [CanFrameType.isStandard] at hstd

/-- The identifier a sequence of a standard frame carries. -/
theorem Stimulus.Carried.canId {stim : Stimulus} {req : CanphyTrans} (h : stim.Carried req)
    (hstd : stim.frameType.isStandard) : req.canId = stim.canId := by
  cases stim with
  | txStdFrame | txExtFrame | txFdFrame | injectError => exact h.1
  | txRemoteFrame => exact h
  | txErrorFrame | overloadFrame => simp [Stimulus.frameType, CanFrameType.isStandard] at hstd

/-- `c_err_default` is not a soft constraint: it leaves no error to inject. -/
theorem Solution.errType {b : Nat} {stim : Stimulus} {req : CanphyTrans}
    (h : Solution b stim req) : stim.errType = .errNone := by
  have hin := h.inlined
  cases stim with
  | injectError errType bitPos canId => exact hin.2.2.1.symm.trans h.errDefault.1
  | _ => rfl

/-- Which stimuli a bound on standard identifiers leaves exact. -/
theorem exact_iff_of_bound {b : Nat} (hb : b ≤ 0x800) {stim : Stimulus} (legal : stim.Legal) :
    Exact b stim ↔ (stim.frameType.isStandard → stim.canId.toNat < b) ∧
      stim.errType = .errNone := by
  constructor
  · rintro ⟨⟨req, hsol, hcarried⟩, -⟩
    refine ⟨fun hstd => ?_, hsol.errType⟩
    rw [← hcarried.canId hstd]
    exact hsol.canId_lt ((hsol.sound hb).1 ▸ hstd)
  · rintro ⟨hid, herr⟩
    exact ⟨⟨stim.item, solution_item legal hid herr, carried_item stim⟩,
      fun req h => h.sound hb⟩

/-- With the bound the literal stands for, all stimuli but the error injections would be
exact. -/
theorem exact_iff_of_wide {stim : Stimulus} (legal : stim.Legal) :
    Exact 0x800 stim ↔ stim.errType = .errNone := by
  rw [exact_iff_of_bound le_rfl legal]
  refine and_iff_right fun hstd => ?_
  cases stim with
  | txStdFrame canId dlc =>
    have hlt := canId.isLt
    simp only [Stimulus.canId, BitVec.toNat_setWidth]
    omega
  | txFdFrame canId isExt _ _ | txRemoteFrame canId isExt =>
    cases isExt with
    | false => exact legal rfl
    | true => simp [Stimulus.frameType, CanFrameType.isStandard] at hstd
  | injectError => exact legal.1
  | _ => simp [Stimulus.frameType, CanFrameType.isStandard] at hstd

/-- **Exactly the stimuli whose frames have no 11-bit identifier can be randomized.** -/
theorem exact_iff {stim : Stimulus} (legal : stim.Legal) :
    Exact idBound stim ↔ stim.frameType.isStandard = false := by
  rw [exact_iff_of_bound (by decide) legal, idBound_eq]
  simp only [Nat.not_lt_zero, imp_false, Bool.not_eq_true, and_iff_left_iff_imp]
  intro hext
  cases stim with
  | injectError => simp [Stimulus.frameType, CanFrameType.isStandard] at hext
  | _ => rfl

/-- An extended data frame with eight payload bytes. -/
theorem exact_txExtFrame : Exact idBound (.txExtFrame 0x1234567 8) := by
  have legal : (Stimulus.txExtFrame 0x1234567 8).Legal := show (8 : BitVec 4) ≤ 8 by decide
  exact (exact_iff legal).mpr rfl

/-- A standard data frame. -/
theorem not_exact_txStdFrame :
    (Stimulus.txStdFrame 0x123 8).Legal ∧ ¬ Exact idBound (.txStdFrame 0x123 8) := by
  refine ⟨show (8 : BitVec 4) ≤ 8 by decide, ?_⟩
  rintro ⟨⟨req, hsol, -⟩, -⟩
  have htype : req.frameType = .canStdData := hsol.inlined.1
  exact absurd (hsol.canId_lt (by rw [htype]; rfl)) (Nat.not_lt_zero _)

end Testbench.Canphy
