import Testbench.Axi4lite.Trans

/-!
The single accesses of the AXI4-Lite sequences (`canfd/uvc/axi4lite/axi4lite_sequence_lib.sv`)
and the constraints their items are randomized under.

A name that stands alone in an inline constraint is looked up in the randomized object
first. `req.addr == addr` and `req.data == data` are therefore equations between fields of
the item and themselves: the address and the data a task is given do not reach the solver,
and any word-aligned transfer of the right direction may be issued (`issues_iff`).
-/

namespace Testbench.Axi4lite

/-- `c_addr_align`. -/
def cAddrAlign (tr : DriverItem) : Prop := tr.addr.extractLsb' 0 2 = 0#2

/-- `c_wstrb_default`. -/
def cWstrbDefault (tr : DriverItem) : Prop := tr.wstrb = 0xF#4

instance (tr : DriverItem) : Decidable (cAddrAlign tr) := by unfold cAddrAlign; infer_instance

/-- A call of `do_single_write` or `do_single_read`, with its arguments. -/
inductive SingleAccess where
  | doSingleWrite (addr data : BitVec 32)
  | doSingleRead (addr : BitVec 32)
  deriving DecidableEq

namespace SingleAccess

/-- The direction the inline constraints ask for. -/
def dir : SingleAccess → Axi4liteDir
  | doSingleWrite .. => .write
  | doSingleRead .. => .read

/-- The inline constraints, each name read where the language looks it up. -/
def inlineConstraints : SingleAccess → DriverItem → Prop
  | doSingleWrite _ _, req => req.dir = .write ∧ req.addr = req.addr ∧ req.data = req.data
  | doSingleRead _, req => req.dir = .read ∧ req.addr = req.addr

/-- A value the solver may return. -/
structure Solution (access : SingleAccess) (req : DriverItem) : Prop where
  aligned : cAddrAlign req
  strobe : cWstrbDefault req
  inlined : access.inlineConstraints req

/-- The item with the values the task was given. -/
def item : SingleAccess → DriverItem
  | doSingleWrite addr data => { dir := .write, addr, data, resp := .okay, wstrb := 0xF }
  | doSingleRead addr => { dir := .read, addr, data := 0, resp := .okay, wstrb := 0xF }

/-- A transaction the monitor may report for the access: of some solution, answered in any
way. -/
def Issues (access : SingleAccess) (tr : Axi4liteTrans) : Prop :=
  ∃ req req', access.Solution req ∧ req.Carries req' ∧ req'.toAxi4liteTrans = tr

variable {access : SingleAccess}

/-- The direction and the alignment are all that is asked of an item. -/
theorem solution_iff {req : DriverItem} :
    access.Solution req ↔ req.dir = access.dir ∧ cAddrAlign req ∧ cWstrbDefault req := by
  have hinline : access.inlineConstraints req ↔ req.dir = access.dir := by
    cases access <;> simp [inlineConstraints, dir]
  constructor
  · rintro ⟨aligned, strobe, inlined⟩
    exact ⟨hinline.mp inlined, aligned, strobe⟩
  · rintro ⟨hdir, aligned, strobe⟩
    exact ⟨aligned, strobe, hinline.mpr hdir⟩

theorem solution_item (aligned : cAddrAlign access.item) : access.Solution access.item :=
  solution_iff.mpr ⟨by cases access <;> rfl, aligned, by cases access <;> rfl⟩

/-- **Every word-aligned transaction of the direction may be issued, and no other.** -/
theorem issues_iff {tr : Axi4liteTrans} :
    access.Issues tr ↔ tr.dir = access.dir ∧ tr.addr.extractLsb' 0 2 = 0#2 := by
  constructor
  · rintro ⟨req, req', hsol, hcarries, rfl⟩
    obtain ⟨hdir, aligned, -⟩ := solution_iff.mp hsol
    rw [hcarries.dir, hcarries.addr]
    exact ⟨hdir, aligned⟩
  · rintro ⟨hdir, aligned⟩
    have hsol : access.Solution { toAxi4liteTrans := tr, wstrb := 0xF } :=
      solution_iff.mpr ⟨hdir, aligned, rfl⟩
    exact ⟨_, _, hsol, .refl _, rfl⟩

end SingleAccess

/-- Transactions the monitor may report for accesses made one after the other. -/
def Issues (accesses : List SingleAccess) (trs : List Axi4liteTrans) : Prop :=
  List.Forall₂ SingleAccess.Issues accesses trs

/-- The transactions when every item is drawn with the values its task was given, the `p`-th
answered with `resp p`. -/
def asked (resp : Nat → Axi4liteResp) (accesses : List SingleAccess) : List Axi4liteTrans :=
  accesses.zipIdx.map fun (access, p) => { access.item.toAxi4liteTrans with resp := resp p }

/-- The solver may draw what it was asked for, at word-aligned addresses. -/
theorem issues_asked (resp : Nat → Axi4liteResp) {accesses : List SingleAccess}
    (aligned : ∀ access ∈ accesses, cAddrAlign access.item) :
    Issues accesses (asked resp accesses) := by
  have hone : ∀ x ∈ accesses.zipIdx,
      x.1.Issues { x.1.item.toAxi4liteTrans with resp := resp x.2 } := by
    rintro ⟨access, p⟩ hx
    have hsol := SingleAccess.solution_item (aligned access (List.fst_mem_of_mem_zipIdx hx))
    exact SingleAccess.issues_iff.mpr ⟨(SingleAccess.solution_iff.mp hsol).1, hsol.aligned⟩
  have hall : List.Forall₂ SingleAccess.Issues (accesses.zipIdx.map Prod.fst)
      (asked resp accesses) := by
    rw [asked, List.forall₂_map_left_iff, List.forall₂_map_right_iff, List.forall₂_same]
    exact hone
  rwa [List.zipIdx_map_fst] at hall

end Testbench.Axi4lite
