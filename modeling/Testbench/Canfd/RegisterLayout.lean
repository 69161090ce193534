import Testbench.Regmodel.CanfdRegBlock
import Testbench.Canfd.StatusBits

/-!
The reference model against the register model.

Both describe one register map: the reference model by mirror variables, the register
model by field classes. A mirror stores all 32 bits of what is written
(`plain_step`), so it leaves the layout of its class with the first bit written
outside a field; the status words raise bits the classes do not have; four mapped
registers have no mirror at all. `layoutAgrees_iff` is the exact condition for the two
to agree through a run.
-/

namespace Testbench.Canfd

open Testbench.Lib Testbench.Canphy Testbench.Regmodel

/-- The class of a plain register. -/
def PlainReg.reg : PlainReg → UvmReg
  | .SRR => SRR_reg
  | .MSR => MSR_reg
  | .BRPR => BRPR_reg
  | .BTR => BTR_reg
  | .IER => IER_reg
  | .TSR => TSR_reg
  | .DP_BRPR => DP_BRPR_reg
  | .DP_BTR => DP_BTR_reg
  | .TXE_WMR => TXE_WMR_reg
  | .RCS0 => RCS0_reg
  | .RCS1 => RCS1_reg
  | .RCS2 => RCS2_reg
  | .AFR => AFR_reg
  | .WMR => WMR_reg

/-- The mapped registers the model computes or raises bits in. -/
def computedEntries : List MapEntry := [
  ⟨ECR_reg, 0x0010#32⟩, ⟨ESR_reg, 0x0014#32⟩, ⟨SR_reg, 0x0018#32⟩, ⟨ISR_reg, 0x001C#32⟩,
  ⟨ICR_reg, 0x0024#32⟩, ⟨TRR_reg, 0x0090#32⟩, ⟨TCR_reg, 0x0098#32⟩, ⟨TXE_FSR_reg, 0x00A0#32⟩,
  ⟨FSR_reg, 0x00E8#32⟩]

/-- The mapped registers `write_reg` and `read_reg` do not know. -/
def unmodelledEntries : List MapEntry := [
  ⟨IETRS_reg, 0x0094#32⟩, ⟨IETCS_reg, 0x009C#32⟩, ⟨IERBF0_reg, 0x00C0#32⟩,
  ⟨IEBRF1_reg, 0x00C4#32⟩]

def plainRegs : List PlainReg :=
  [.SRR, .MSR, .BRPR, .BTR, .IER, .TSR, .DP_BRPR, .DP_BTR, .TXE_WMR, .RCS0, .RCS1, .RCS2, .AFR,
    .WMR]

/-- The mapped registers are of three kinds. -/
theorem mem_canfdRegBlock {e : MapEntry} (he : e ∈ canfdRegBlock) :
    (∃ r : PlainReg, e = ⟨r.reg, r.addr⟩) ∨ e ∈ computedEntries ∨ e ∈ unmodelledEntries := by
  have hall : ∀ e ∈ canfdRegBlock, (∃ r ∈ plainRegs, e = ⟨r.reg, r.addr⟩) ∨
      e ∈ computedEntries ∨ e ∈ unmodelledEntries := by
    decide +kernel
  rcases hall e he with ⟨r, -, heq⟩ | hrest
  · exact Or.inl ⟨r, heq⟩
  · exact Or.inr hrest

theorem plain_mem_canfdRegBlock (r : PlainReg) : ⟨r.reg, r.addr⟩ ∈ canfdRegBlock := by
  cases r <;> decide +kernel

/-- Only software changes the register: all its fields are RW, and it is none of TRR, TCR,
TXE_FSR and FSR. -/
def softwareOwned (e : MapEntry) : Bool :=
  (e.reg.fields.all fun f => f.access = .RW) &&
    !(e.offset ∈ [0x0090#32, 0x0098#32, 0x00A0#32, 0x00E8#32])

example : (canfdRegBlock.filter softwareOwned).map (fun e => e.reg.name) =
    ["MSR", "BRPR", "BTR", "IER", "DP_BRPR", "DP_BTR", "IETRS", "IETCS", "TXE_WMR", "RCS0",
      "RCS1", "RCS2", "IERBF0", "IEBRF1", "AFR", "WMR"] := by
  decide +kernel

namespace RefModel

/-! ### Agreement -/

/-- The last value written to an address since the last reset, and CEN at that time. -/
def lastWriteLaw (addr : BitVec 32) (last : Option (BitVec 32 × Bool)) :
    Bool × RefOp → Option (BitVec 32 × Bool)
  | (cen, .writeReg addr' data) =>
      if isSoftReset addr' data then none else if addr' = addr then some (data, cen) else last
  | _ => last

def lastWrite (addr : BitVec 32) (start : RefModel) (ops : List RefOp) :
    Option (BitVec 32 × Bool) :=
  (trace step (fun m op => (m.cen, op)) start ops).foldl (lastWriteLaw addr) none

/-- No register reads a bit that none of its readable fields covers. -/
def ReadsInLayout (m : RefModel) : Prop :=
  ∀ e ∈ canfdRegBlock, m.readReg e.offset &&& ~~~e.reg.readableMask = 0

/-- A register only software changes reads its reset value, or what was last written to it
restricted to its fields. Nothing is asked after a write while CEN was 1. -/
structure Configured (m : RefModel) (last : Option (BitVec 32 × Bool)) (e : MapEntry) : Prop where
  unwritten : last = none → m.readReg e.offset = e.reg.getReset
  written : ∀ data, last = some (data, false) → m.readReg e.offset = data &&& e.reg.mask

/-- After a run the reference model reads as the register model does. -/
structure LayoutAgrees (start : RefModel) (ops : List RefOp) : Prop where
  layout : ReadsInLayout (run step start ops)
  configured : ∀ e ∈ canfdRegBlock, softwareOwned e = true →
    Configured (run step start ops) (lastWrite e.offset start ops) e

/-- The step keeps to the layout. A write that is no reset fits the readable fields of its
register, and an unmodelled register is written with 0 or while CEN is 1; the timestamp
does not wrap, which raises the reserved bit 7 of ISR; and an error is none of those whose
ESR bit (5, 6 or 7) is reserved. -/
def KeepsLayout (m : RefModel) : RefOp → Prop
  | .writeReg addr data => isSoftReset addr data = true ∨
      (∀ r : PlainReg, addr = r.addr → data &&& ~~~r.reg.readableMask = 0) ∧
        ((∃ e ∈ unmodelledEntries, addr = e.offset) → m.cen = false → data = 0)
  | .tick => m.tsr ≠ 0xFFFF#16
  | .errorDetected errType isFd _ =>
      errType ≠ .errCrc ∧ errType ≠ .errAck ∧ (errType = .errForm → isFd = true)
  | _ => True

/-! ### Reset values -/

theorem readReg_new : ∀ e ∈ canfdRegBlock, new.readReg e.offset = e.reg.getReset := by
  decide +kernel

/-- **A software reset forgets everything**, and the registers read the reset values the
block configures. -/
theorem softReset_forgets (m m' : RefModel) {d d' : BitVec 32} (h : d.getLsbD 0 = true)
    (h' : d'.getLsbD 0 = true) :
    m.writeReg 0x0000#32 d = m'.writeReg 0x0000#32 d' ∧ m.writeReg 0x0000#32 d = new ∧
      ∀ e ∈ canfdRegBlock, (m.writeReg 0x0000#32 d).readReg e.offset = e.reg.getReset := by
  have hnew : ∀ (m : RefModel) {d : BitVec 32}, d.getLsbD 0 = true →
      m.writeReg 0x0000#32 d = new := by
    intro m d hd
    have hreset : (RefOp.writeReg 0x0000#32 d).softReset = true := hd
    exact m.step_softReset hreset
  rw [hnew m h, hnew m' h']
  exact ⟨rfl, rfl, readReg_new⟩

/-- A reset of a model with a count and a timestamp, and one of a fresh model. -/
theorem softReset_forgets_one :
    let m : RefModel := { new with txCount := 3, tsr := 7, rxFifo0 := [{}] }
    m.writeReg 0x0000#32 1#32 = new.writeReg 0x0000#32 3#32 ∧ m.writeReg 0x0000#32 1#32 = new ∧
      ∀ e ∈ canfdRegBlock, (m.writeReg 0x0000#32 1#32).readReg e.offset = e.reg.getReset :=
  softReset_forgets _ _ (by decide) (by decide)

/-! ### The layout through a step -/

theorem readReg_unmodelled (m : RefModel) {e : MapEntry} (he : e ∈ unmodelledEntries) :
    m.readReg e.offset = 0 := by
  simp only [unmodelledEntries, List.mem_cons, List.not_mem_nil, or_false] at he
  rcases he with rfl | rfl | rfl | rfl <;> rfl

theorem ecr_in_layout (m : RefModel) : m.readReg 0x0010#32 &&& ~~~ECR_reg.readableMask = 0 := by
  have hmask : ∀ i : Fin 32, ECR_reg.readableMask.getLsbD i = false → 16 ≤ i.val := by
    decide +kernel
  rw [and_not_eq_zero_iff]
  intro i hi
  show ((m.REC.setWidth 8 ++ m.TEC.setWidth 8).setWidth 32).getLsbD i = false
  rw [BitVec.getLsbD_setWidth, BitVec.getLsbD_of_ge _ _ (hmask i hi), Bool.and_false]

theorem sr_in_layout (m : RefModel) : m.computeSr &&& ~~~SR_reg.readableMask = 0 := by
  have hmask : ∀ i : Fin 32, SR_reg.readableMask.getLsbD i = false →
      i.val ≠ 0 ∧ i.val ≠ 4 ∧ i.val ≠ 5 := by
    decide +kernel
  rw [and_not_eq_zero_iff]
  intro i hi
  obtain ⟨h0, h4, h5⟩ := hmask i hi
  rw [computeSr, getLsbD_setBit (w := 32) _ _ _ _ i.isLt, if_neg h4,
    getLsbD_setBit (w := 32) _ _ _ _ i.isLt, if_neg h5,
    getLsbD_setBit (w := 32) _ _ _ _ i.isLt, if_neg h0]
  exact BitVec.getLsbD_zero

/-- Only plain registers and the two status words can leave the layout. -/
theorem readsInLayout_iff (m : RefModel) :
    ReadsInLayout m ↔ (∀ r, m.plain r &&& ~~~r.reg.readableMask = 0) ∧
      m.ESR &&& ~~~ESR_reg.readableMask = 0 ∧ m.ISR &&& ~~~ISR_reg.readableMask = 0 := by
  constructor
  · intro h
    refine ⟨?_, h ⟨ESR_reg, 0x0014#32⟩ (by decide +kernel),
      h ⟨ISR_reg, 0x001C#32⟩ (by decide +kernel)⟩
    intro r
    rw [← readReg_addr]
    exact h ⟨r.reg, r.addr⟩ (plain_mem_canfdRegBlock r)
  · rintro ⟨hplain, hesr, hisr⟩ e he
    rcases mem_canfdRegBlock he with ⟨r, rfl⟩ | he | he
    · rw [readReg_addr]
      exact hplain r
    · have hwhole : ∀ (x : BitVec 32) {r : UvmReg}, r.readableMask = BitVec.allOnes 32 →
          x &&& ~~~r.readableMask = 0 := by
        intro x r hr
        simp [hr]
      simp only [computedEntries, List.mem_cons, List.not_mem_nil, or_false] at he
      rcases he with rfl | rfl | rfl | rfl | rfl | rfl | rfl | rfl | rfl
      · exact m.ecr_in_layout
      · exact hesr
      · exact m.sr_in_layout
      · exact hisr
      · exact BitVec.zero_and
      · exact hwhole _ (by decide)
      · exact hwhole _ (by decide)
      · exact hwhole _ (by decide)
      · exact hwhole _ (by decide)
    · rw [m.readReg_unmodelled he]
      exact BitVec.zero_and

theorem plainAfter_in_layout_iff {m : RefModel} (h : ∀ r, m.plain r &&& ~~~r.reg.readableMask = 0)
    (op : RefOp) :
    (∀ r, m.plainAfter r op &&& ~~~r.reg.readableMask = 0) ↔
      ∀ addr data, op = .writeReg addr data → isSoftReset addr data = false →
        ∀ r : PlainReg, addr = r.addr → data &&& ~~~r.reg.readableMask = 0 := by
  cases op with
  | writeReg addr data =>
    constructor
    · rintro hafter _ _ ⟨⟩ hreset r rfl
      have hr := hafter r
      rwa [plainAfter, hreset, if_neg Bool.false_ne_true, if_pos rfl] at hr
    · intro hfits r
      rw [plainAfter]
      split
      · exact BitVec.zero_and
      · next hreset =>
        split
        · next haddr => exact hfits _ _ rfl (by simpa using hreset) r haddr.symm
        · exact h r
  | _ => exact iff_of_true h (by simp)

/-- The only reserved bit of ISR the model raises is 7, at the wrap of the timestamp. -/
theorem isr_in_layout_iff {m : RefModel} (h : m.ISR &&& ~~~ISR_reg.readableMask = 0) (op : RefOp) :
    (m.step op).ISR &&& ~~~ISR_reg.readableMask = 0 ↔ (op = .tick → m.tsr ≠ 0xFFFF#16) := by
  have hmask : ∀ i : Fin 32, ISR_reg.readableMask.getLsbD i = false ↔ i.val = 7 := by
    decide +kernel
  have hraised : m.isrRaised 7 op ↔ op = .tick ∧ m.tsr = 0xFFFF#16 := by
    cases op <;> simp [isrRaised]
  have hstep := isr_step (m := m) (b := 7) (fun h => absurd h (by decide)) op (by decide)
  rw [and_not_eq_zero_iff] at h ⊢
  simp only [hmask] at h ⊢
  have hdown : m.ISR.getLsbD 7 = false := h 7 rfl
  rw [hdown, hraised] at hstep
  constructor
  · rintro hafter rfl hwrap
    have hbit := hstep.mpr (Or.inl ⟨rfl, hwrap⟩)
    have hdown' : (m.step .tick).ISR.getLsbD 7 = false := hafter 7 rfl
    rw [hdown'] at hbit
    cases hbit
  · rintro hok i hi
    rw [hi, Bool.eq_false_iff, ne_eq, hstep]
    rintro (⟨hop, hwrap⟩ | ⟨hup, -⟩)
    · exact hok hop hwrap
    · cases hup

/-- The reserved bits of ESR the model raises are those of CRC, ACK and classic form
errors. -/
theorem esr_in_layout_iff {m : RefModel} (h : m.ESR &&& ~~~ESR_reg.readableMask = 0) (op : RefOp) :
    (m.step op).ESR &&& ~~~ESR_reg.readableMask = 0 ↔
      ∀ errType isFd isTx, op = .errorDetected errType isFd isTx →
        errType ≠ .errCrc ∧ errType ≠ .errAck ∧ (errType = .errForm → isFd = true) := by
  have hbits : ∀ errType isFd,
      (∀ i : Fin 32, ESR_reg.readableMask.getLsbD i = false → esrBit errType isFd ≠ some i.val) ↔
        errType ≠ .errCrc ∧ errType ≠ .errAck ∧ (errType = .errForm → isFd = true) := by
    intro errType isFd
    cases errType <;> cases isFd <;> decide +kernel
  have hafter : (m.step op).ESR &&& ~~~ESR_reg.readableMask = 0 ↔
      ∀ i : Fin 32, ESR_reg.readableMask.getLsbD i = false → ¬ m.esrRaised i op := by
    rw [and_not_eq_zero_iff] at h ⊢
    refine forall_congr' fun i => imp_congr_right fun hi => ?_
    rw [Bool.eq_false_iff, ne_eq, m.esr_step op i.isLt, h i hi]
    simp
  rw [hafter]
  cases op with
  | errorDetected errType isFd isTx =>
    constructor
    · rintro hnot _ _ _ ⟨⟩
      exact (hbits errType isFd).mp hnot
    · intro hok
      exact (hbits errType isFd).mpr (hok _ _ _ rfl)
  | _ => simp [esrRaised]

/-! ### Configuration through a step -/

theorem unmodelled_owned : ∀ e ∈ unmodelledEntries,
    e ∈ canfdRegBlock ∧ softwareOwned e = true ∧ e.reg.mask = BitVec.allOnes 32 := by
  decide +kernel

theorem computed_not_owned : ∀ e ∈ computedEntries, softwareOwned e = false := by
  decide +kernel

/-- All fields of a plain register only software changes can be read. -/
theorem mask_of_softwareOwned {r : PlainReg} (h : softwareOwned ⟨r.reg, r.addr⟩ = true) :
    r.reg.mask = r.reg.readableMask := by
  revert h
  cases r <;> decide +kernel

theorem lastWrite_append_singleton (addr : BitVec 32) (start : RefModel) (ops : List RefOp)
    (op : RefOp) :
    lastWrite addr start (ops ++ [op]) =
      lastWriteLaw addr (lastWrite addr start ops) ((run step start ops).cen, op) := by
  rw [lastWrite, trace_append_singleton, List.foldl_append]
  rfl

/-- A register only software changes keeps its value over any step but a write to it or a
reset. -/
theorem readReg_of_softwareOwned (m : RefModel) {e : MapEntry} (he : e ∈ canfdRegBlock)
    (howned : softwareOwned e = true) {op : RefOp} (hreset : op.softReset = false)
    (hwrite : ∀ data, op ≠ .writeReg e.offset data) :
    (m.step op).readReg e.offset = m.readReg e.offset := by
  rcases mem_canfdRegBlock he with ⟨r, rfl⟩ | he | he
  · rw [readReg_addr, readReg_addr, plain_step]
    cases op with
    | writeReg addr data =>
      have haddr : r.addr ≠ addr := fun haddr => hwrite data (by rw [haddr])
      rw [plainAfter, show isSoftReset addr data = false from hreset,
        if_neg Bool.false_ne_true, if_neg haddr]
    | _ => rfl
  · rw [computed_not_owned e he] at howned
    cases howned
  · rw [readReg_unmodelled _ he, readReg_unmodelled _ he]

section Configured

variable {m : RefModel} {last : Option (BitVec 32 × Bool)} {e : MapEntry}

/-- After a reset there is no write to remember. -/
theorem configured_softReset (he : e ∈ canfdRegBlock) {op : RefOp} (h : op.softReset = true) :
    Configured (m.step op) none e := by
  have hnew : m.step op = new := by
    cases op with
    | writeReg addr data => exact m.step_softReset h
    | _ => cases h
  refine ⟨?_, ?_⟩
  · rw [hnew]
    exact fun _ => readReg_new e he
  · rintro _ ⟨⟩

theorem configured_of_quiet (he : e ∈ canfdRegBlock) (howned : softwareOwned e = true)
    (h : Configured m last e) {op : RefOp} (hreset : op.softReset = false)
    (hwrite : ∀ data, op ≠ .writeReg e.offset data) : Configured (m.step op) last e := by
  have hread := m.readReg_of_softwareOwned he howned hreset hwrite
  exact ⟨fun hlast => hread.trans (h.unwritten hlast),
    fun data hlast => hread.trans (h.written data hlast)⟩

/-- A write is the last one, and counts when CEN is 0. -/
theorem configured_write_iff {data : BitVec 32} {m' : RefModel} :
    Configured m' (some (data, m.cen)) e ↔
      (m.cen = false → m'.readReg e.offset = data &&& e.reg.mask) := by
  constructor
  · intro hconf hcen
    exact hconf.written data (by rw [hcen])
  · intro hread
    refine ⟨?_, ?_⟩
    · rintro ⟨⟩
    · intro data' hsome
      obtain ⟨rfl, hcen⟩ := Prod.mk.inj (Option.some.inj hsome)
      exact hread hcen

/-- A step keeps a register configured unless it writes to it while CEN is 0. -/
theorem configured_step (he : e ∈ canfdRegBlock) (howned : softwareOwned e = true)
    (h : Configured m last e) (op : RefOp) :
    Configured (m.step op) (lastWriteLaw e.offset last (m.cen, op)) e ↔
      ∀ data, op = .writeReg e.offset data → isSoftReset e.offset data = false → m.cen = false →
        (m.step op).readReg e.offset = data &&& e.reg.mask := by
  cases op with
  | writeReg addr data =>
    by_cases hreset : isSoftReset addr data = true
    · simp only [lastWriteLaw, hreset, if_true]
      refine iff_of_true (configured_softReset he hreset) ?_
      rintro _ ⟨⟩ hreset'
      rw [hreset] at hreset'
      cases hreset'
    · have hreset := Bool.eq_false_iff.mpr hreset
      by_cases haddr : addr = e.offset
      · subst haddr
        simp only [lastWriteLaw, hreset, Bool.false_eq_true, if_false, if_true]
        rw [configured_write_iff]
        constructor
        · rintro hread _ ⟨⟩ -
          exact hread
        · exact fun hread => hread data rfl hreset
      · simp only [lastWriteLaw, hreset, haddr, Bool.false_eq_true, if_false]
        refine iff_of_true (configured_of_quiet he howned h hreset ?_) ?_
        · rintro _ ⟨⟩
          exact haddr rfl
        · rintro _ ⟨⟩
          exact absurd rfl haddr
  | _ => exact iff_of_true (configured_of_quiet he howned h rfl (by simp)) (by simp)

end Configured

/-! ### Runs -/

theorem layoutAgrees_append_iff {start m : RefModel} {ops : List RefOp}
    (h : LayoutAgrees start ops) (hm : run step start ops = m) (op : RefOp) :
    LayoutAgrees start (ops ++ [op]) ↔
      ReadsInLayout (m.step op) ∧ ∀ e ∈ canfdRegBlock, softwareOwned e = true →
        ∀ data, op = .writeReg e.offset data → isSoftReset e.offset data = false →
          m.cen = false → (m.step op).readReg e.offset = data &&& e.reg.mask := by
  subst hm
  have hrun : run step start (ops ++ [op]) = (run step start ops).step op :=
    run_append_singleton start ops op
  have hconf : ∀ e ∈ canfdRegBlock, softwareOwned e = true → _ := fun e he howned =>
    configured_step he howned (h.configured e he howned) op
  constructor
  · rintro ⟨hlayout, hconfigured⟩
    rw [hrun] at hlayout hconfigured
    refine ⟨hlayout, fun e he howned => (hconf e he howned).mp ?_⟩
    rw [← lastWrite_append_singleton]
    exact hconfigured e he howned
  · rintro ⟨hlayout, hwrites⟩
    refine ⟨?_, ?_⟩ <;> rw [hrun]
    · exact hlayout
    · intro e he howned
      rw [lastWrite_append_singleton]
      exact (hconf e he howned).mpr (hwrites e he howned)

theorem layoutAgrees_step {start : RefModel} {ops : List RefOp} (h : LayoutAgrees start ops)
    (op : RefOp) : LayoutAgrees start (ops ++ [op]) ↔ KeepsLayout (run step start ops) op := by
  generalize hm : run step start ops = m
  obtain ⟨hplain, hesr, hisr⟩ := (readsInLayout_iff m).mp (hm ▸ h.layout)
  rw [layoutAgrees_append_iff h hm, readsInLayout_iff, esr_in_layout_iff hesr,
    isr_in_layout_iff hisr]
  simp only [plain_step, plainAfter_in_layout_iff hplain]
  cases op with
  | writeReg addr data =>
    constructor
    · rintro ⟨⟨hfits, -, -⟩, hconf⟩
      by_cases hreset : isSoftReset addr data = true
      · exact Or.inl hreset
      · rw [Bool.not_eq_true] at hreset
        refine Or.inr ⟨hfits addr data rfl hreset, ?_⟩
        rintro ⟨e, he, rfl⟩ hcen
        obtain ⟨hmem, howned, hmask⟩ := unmodelled_owned e he
        have hread := hconf e hmem howned data rfl hreset hcen
        rw [readReg_unmodelled _ he, hmask, BitVec.and_allOnes] at hread
        exact hread.symm
    · intro hkeeps
      refine ⟨⟨?_, by simp, by simp⟩, ?_⟩
      · rintro _ _ ⟨⟩ hreset
        rw [KeepsLayout, hreset, or_iff_right Bool.false_ne_true] at hkeeps
        exact hkeeps.1
      · rintro e he howned _ ⟨⟩ hreset hcen
        rw [KeepsLayout, hreset, or_iff_right Bool.false_ne_true] at hkeeps
        obtain ⟨hfits, hunmodelled⟩ := hkeeps
        rcases mem_canfdRegBlock he with ⟨r, rfl⟩ | he | he
        · rw [readReg_addr, plain_step, plainAfter, hreset, if_neg Bool.false_ne_true, if_pos rfl,
            mask_of_softwareOwned howned]
          exact (and_eq_self_of_and_not (hfits r rfl)).symm
        · rw [computed_not_owned e he] at howned
          cases howned
        · rw [readReg_unmodelled _ he, hunmodelled ⟨e, he, rfl⟩ hcen]
          exact BitVec.zero_and.symm
  | _ => simp [KeepsLayout]

/-- **The two models agree at every point of a run iff every step keeps to the layout.** -/
theorem layoutAgrees_iff (bufs : Fin 32 → TxBuf) (f0 f1 : Fin 32 → Filter) (ops : List RefOp) :
    (∀ n, LayoutAgrees (preset bufs f0 f1) (ops.take n)) ↔
      Along step KeepsLayout (preset bufs f0 f1) ops := by
  refine history_iff (LayoutAgrees (preset bufs f0 f1)) ⟨?_, ?_⟩
    (fun ops op h => layoutAgrees_step h op) ops
  · refine (readsInLayout_iff _).mpr ⟨?_, BitVec.zero_and, BitVec.zero_and⟩
    intro r
    exact (congrArg (· &&& _) (plain_new r)).trans BitVec.zero_and
  · intro e he howned
    exact ⟨fun _ => readReg_new e he, by rintro _ ⟨⟩⟩

/-- BRPR has eight bits; a ninth is stored and read back. -/
theorem layout_left_by_brpr :
    (new.step (.writeReg 0x0008#32 0x100#32)).readReg 0x0008#32 = 0x100#32 ∧
      ¬ LayoutAgrees new [.writeReg 0x0008#32 0x100#32] := by
  refine ⟨by decide +kernel, ?_⟩
  rintro ⟨hlayout, -⟩
  exact absurd (hlayout ⟨BRPR_reg, 0x0008#32⟩ (by decide +kernel)) (by decide +kernel)

end RefModel

end Testbench.Canfd
