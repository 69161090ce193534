import Testbench.Lib.Bits
import Testbench.Lib.Run
import Testbench.Regmodel.CanfdRegBlock

/-!
The self-tests `canfd_reg_access_seq` and `canfd_reg_bit_bash_seq`
(`canfd/regmodel/canfd_reg_sequence.sv`), run against a device that does what the register
model says.

Both write a word and expect the same word back. A correct device gives back the bits of the
RW fields (`read_write`), so a word is accepted iff it has no other bit (`accepts_iff`).
-/

namespace Testbench.Regmodel

open Testbench.Lib

/-! ### The device -/

/-- What a write leaves in a field. -/
def UvmRegField.write (f : UvmRegField) (stored data : BitVec 32) : BitVec 32 :=
  match f.access with
  | .RW | .WO => data &&& f.mask
  | .RO => stored &&& f.mask
  | .W1C => stored &&& ~~~data &&& f.mask

namespace UvmReg

def write (r : UvmReg) (stored data : BitVec 32) : BitVec 32 :=
  r.fields.foldr (fun f v => f.write stored data ||| v) 0

/-- What is read: fields that can only be written, and what is no field, are 0. -/
def read (r : UvmReg) (stored : BitVec 32) : BitVec 32 := stored &&& r.readableMask

/-- The bits of the fields with this policy. -/
def maskOf (r : UvmReg) (access : Access) : BitVec 32 :=
  (r.fields.filter fun f => f.access = access).foldr (fun f v => f.mask ||| v) 0

/-- The policy that all fields have, RW where they have different ones. -/
def getAccess (r : UvmReg) : Access :=
  match r.fields with
  | [] => .RW
  | f :: fields => if fields.all fun f' => f'.access = f.access then f.access else .RW

end UvmReg

/-- The words a device has stored, by offset. -/
abbrev Device := BitVec 32 → BitVec 32

def MapEntry.write (e : MapEntry) (dev : Device) (data : BitVec 32) : Device :=
  Function.update dev e.offset (e.reg.write (dev e.offset) data)

def MapEntry.read (e : MapEntry) (dev : Device) : BitVec 32 := e.reg.read (dev e.offset)

/-- The device after reset. -/
def resetDevice : Device := fun offset =>
  ((canfdRegBlock.find? fun e => e.offset = offset).map fun e => e.reg.getReset).getD 0

/-! ### The sequences -/

/-- The device and the counts of a sequence. -/
structure SeqState where
  dev : Device
  pass : Nat := 0
  fail : Nat := 0

/-- `write`, `read` and the comparison. The device answers every access with `UVM_IS_OK`. -/
def writeRead (e : MapEntry) (s : SeqState) (wdata : BitVec 32) : SeqState :=
  let dev := e.write s.dev wdata
  let rdata := e.read dev
  if rdata = wdata then { dev := dev, pass := s.pass + 1, fail := s.fail }
  else { dev := dev, pass := s.pass, fail := s.fail + 1 }

/-- The registers the access test does not leave out. -/
def MapEntry.tested (e : MapEntry) : Bool := e.reg.getAccess ≠ .RO ∧ e.reg.getAccess ≠ .WO

/-- One register of `canfd_reg_access_seq`. It has 32 bits, so the mask keeps the whole word
that `$urandom` has for it. -/
def accessReg (restoreReset : Bool) (urandom : UvmReg → BitVec 32) (s : SeqState)
    (e : MapEntry) : SeqState :=
  if e.tested then
    let s := writeRead e s (urandom e.reg)
    if restoreReset then { s with dev := e.write s.dev e.reg.getReset } else s
  else s

/-- `canfd_reg_access_seq`, on the registers in the order `get_registers` has them. -/
def accessSeq (restoreReset : Bool) (urandom : UvmReg → BitVec 32) (regs : List MapEntry) :
    SeqState :=
  run (accessReg restoreReset urandom) { dev := resetDevice } regs

/-- The words of the bit test: a one that walks, then a zero. -/
def bashWords : List (BitVec 32) :=
  (List.range 32).map (fun b => 1#32 <<< b) ++ (List.range 32).map fun b => ~~~(1#32 <<< b)

/-- One register of `canfd_reg_bit_bash_seq`. -/
def bashReg (s : SeqState) (e : MapEntry) : SeqState :=
  if e.reg.getAccess = .RW then
    let s := run (writeRead e) s bashWords
    { s with dev := e.write s.dev e.reg.getReset }
  else s

def bitBashSeq (regs : List MapEntry) : SeqState := run bashReg { dev := resetDevice } regs

/-- **The self-tests find nothing wrong.** -/
structure SelfTestsAccept (restoreReset : Bool) (urandom : UvmReg → BitVec 32)
    (regs : List MapEntry) : Prop where
  access : (accessSeq restoreReset urandom regs).fail = 0
  bitBash : (bitBashSeq regs).fail = 0

/-! ### Read after write -/

/-- The bits of a word that a correct device does not give back. -/
def UvmReg.lost (r : UvmReg) (data : BitVec 32) : BitVec 32 := data &&& ~~~r.maskOf .RW

/-- The bits of a register that the bus does not set. -/
def UvmReg.heldMask (r : UvmReg) : BitVec 32 := r.maskOf .RO ||| r.maskOf .W1C

/-- The policies share the bits of a register out, and those of a tested register that the bus
does not set are 0 after reset. -/
theorem canfdRegBlock_masks : ∀ e ∈ canfdRegBlock,
    e.reg.readableMask = e.reg.maskOf .RW ||| e.reg.heldMask ∧
      e.reg.maskOf .RW &&& e.reg.heldMask = 0 ∧
        e.reg.maskOf .WO &&& (e.reg.maskOf .RW ||| e.reg.heldMask) = 0 ∧
          e.reg.maskOf .RO &&& e.reg.maskOf .W1C = 0 ∧
            e.reg.getReset &&& e.reg.maskOf .W1C = 0 ∧
              (e.tested → e.reg.getReset &&& e.reg.maskOf .RO = 0) := by
  decide +kernel

theorem maskOf_cons (name : String) (f : UvmRegField) (fields : List UvmRegField)
    (access : Access) :
    UvmReg.maskOf ⟨name, f :: fields⟩ access =
      if f.access = access then f.mask ||| UvmReg.maskOf ⟨name, fields⟩ access
      else UvmReg.maskOf ⟨name, fields⟩ access := by
  unfold UvmReg.maskOf
  rw [List.filter_cons]
  split_ifs with hf <;> simp_all

/-- A write, policy by policy. -/
theorem write_eq (r : UvmReg) (stored data : BitVec 32) :
    r.write stored data = data &&& (r.maskOf .RW ||| r.maskOf .WO) ||| stored &&& r.maskOf .RO |||
      stored &&& ~~~data &&& r.maskOf .W1C := by
  obtain ⟨name, fields⟩ := r
  induction fields with
  | nil => simp [UvmReg.write, UvmReg.maskOf]
  | cons f fields ih =>
    have hcons : UvmReg.write ⟨name, f :: fields⟩ stored data =
        f.write stored data ||| UvmReg.write ⟨name, fields⟩ stored data := rfl
    rw [hcons, ih]
    cases hf : f.access <;>
      (simp only [UvmRegField.write, maskOf_cons, hf, if_true, reduceCtorEq, if_false]
       ext i
       simp only [BitVec.getElem_or, BitVec.getElem_and, BitVec.getElem_not]
       grind)

/-- **What is read after a write**: the RW bits of the word, and what the bus does not set. -/
theorem read_write {e : MapEntry} (he : e ∈ canfdRegBlock) (stored data : BitVec 32) :
    e.reg.read (e.reg.write stored data) =
      data &&& e.reg.maskOf .RW ||| stored &&& e.reg.maskOf .RO |||
        stored &&& ~~~data &&& e.reg.maskOf .W1C := by
  obtain ⟨hreadable, hheld, hwo, hro, -, -⟩ := canfdRegBlock_masks e he
  rw [UvmReg.read, write_eq, hreadable]
  unfold UvmReg.heldMask at hheld hwo ⊢
  ext i hi
  have hheld := congrArg (fun v : BitVec 32 => v[i]) hheld
  have hwo := congrArg (fun v : BitVec 32 => v[i]) hwo
  have hro := congrArg (fun v : BitVec 32 => v[i]) hro
  simp only [BitVec.getElem_or, BitVec.getElem_and] at hheld hwo hro
  simp only [BitVec.getElem_or, BitVec.getElem_and, BitVec.getElem_not]
  grind

/-! ### A device at rest -/

/-- What the bus does not set is as after reset. -/
def AtRest (dev : Device) : Prop :=
  ∀ e ∈ canfdRegBlock, dev e.offset &&& e.reg.heldMask = e.reg.getReset &&& e.reg.heldMask

theorem atRest_reset : AtRest resetDevice := by
  have hreset : ∀ e ∈ canfdRegBlock, resetDevice e.offset = e.reg.getReset := by decide +kernel
  intro e he
  rw [hreset e he]

theorem offset_inj {e e' : MapEntry} (he : e ∈ canfdRegBlock) (he' : e' ∈ canfdRegBlock)
    (h : e.offset = e'.offset) : e = e' :=
  List.inj_on_of_nodup_map canfdRegBlock_disjoint.1 he he' h

/-- A write leaves what it cannot set: read-only bits, and flags that are 0 already. -/
theorem write_atRest {dev : Device} (h : AtRest dev) {e : MapEntry} (he : e ∈ canfdRegBlock)
    (data : BitVec 32) : AtRest (e.write dev data) := by
  intro e' he'
  by_cases hsame : e'.offset = e.offset
  · obtain rfl := offset_inj he' he hsame
    obtain ⟨-, hheld, hwo, hro, hw1c, -⟩ := canfdRegBlock_masks e' he
    have hrest := h e' he
    rw [MapEntry.write, Function.update_self, write_eq]
    unfold UvmReg.heldMask at hheld hwo hrest ⊢
    ext i hi
    have hheld := congrArg (fun v : BitVec 32 => v[i]) hheld
    have hwo := congrArg (fun v : BitVec 32 => v[i]) hwo
    have hro := congrArg (fun v : BitVec 32 => v[i]) hro
    have hw1c := congrArg (fun v : BitVec 32 => v[i]) hw1c
    have hrest := congrArg (fun v : BitVec 32 => v[i]) hrest
    simp only [BitVec.getElem_or, BitVec.getElem_and] at hheld hwo hro hw1c hrest
    simp only [BitVec.getElem_or, BitVec.getElem_and, BitVec.getElem_not]
    grind
  · rw [MapEntry.write, Function.update_of_ne hsame]
    exact h e' he'

/-- **A word comes back from a tested register iff all its bits are in RW fields.** -/
theorem read_write_eq_iff {dev : Device} (h : AtRest dev) {e : MapEntry}
    (he : e ∈ canfdRegBlock) (htested : e.tested) (data : BitVec 32) :
    e.read (e.write dev data) = data ↔ e.reg.lost data = 0 := by
  obtain ⟨-, -, -, -, hw1c, hro⟩ := canfdRegBlock_masks e he
  have hro := hro htested
  have hrest := h e he
  have hread : e.read (e.write dev data) = data &&& e.reg.maskOf .RW := by
    rw [MapEntry.read, MapEntry.write, Function.update_self, read_write he]
    unfold UvmReg.heldMask at hrest
    ext i hi
    have hro := congrArg (fun v : BitVec 32 => v[i]) hro
    have hw1c := congrArg (fun v : BitVec 32 => v[i]) hw1c
    have hrest := congrArg (fun v : BitVec 32 => v[i]) hrest
    simp only [BitVec.getElem_or, BitVec.getElem_and] at hro hw1c hrest
    simp only [BitVec.getElem_or, BitVec.getElem_and, BitVec.getElem_not]
    grind
  rw [hread]
  constructor
  · intro heq
    rw [UvmReg.lost, ← heq, BitVec.and_assoc]
    simp
  · exact and_eq_self_of_and_not

/-! ### The counts -/

/-- The words a register does not accept, of some. -/
def MapEntry.rejects (e : MapEntry) (words : List (BitVec 32)) : Nat :=
  words.countP fun data => e.reg.lost data ≠ 0

theorem rejects_cons (e : MapEntry) (data : BitVec 32) (words : List (BitVec 32)) :
    e.rejects (data :: words) = e.rejects [data] + e.rejects words := by
  rw [← List.singleton_append, MapEntry.rejects, List.countP_append]
  rfl

section Counts

variable {e : MapEntry} {s : SeqState} {restoreReset : Bool} {urandom : UvmReg → BitVec 32}
  {regs : List MapEntry}

/-- **One word**: the device stays at rest, and a failure is counted iff it is not accepted. -/
theorem writeRead_spec (h : AtRest s.dev) (he : e ∈ canfdRegBlock) (htested : e.tested)
    (data : BitVec 32) :
    AtRest (writeRead e s data).dev ∧ (writeRead e s data).fail = s.fail + e.rejects [data] := by
  have hrest := write_atRest h he data
  have hiff := read_write_eq_iff h he htested data
  unfold writeRead
  dsimp only
  split_ifs with heq
  · refine ⟨hrest, ?_⟩
    simp [MapEntry.rejects, hiff.mp heq]
  · refine ⟨hrest, ?_⟩
    have hlost : e.reg.lost data ≠ 0 := fun hzero => heq (hiff.mpr hzero)
    simpa [MapEntry.rejects] using hlost

theorem run_writeRead (h : AtRest s.dev) (he : e ∈ canfdRegBlock) (htested : e.tested)
    (words : List (BitVec 32)) :
    AtRest (run (writeRead e) s words).dev ∧
      (run (writeRead e) s words).fail = s.fail + e.rejects words := by
  induction words generalizing s with
  | nil => exact ⟨h, rfl⟩
  | cons data words ih =>
    obtain ⟨hrest, hfail⟩ := writeRead_spec h he htested data
    obtain ⟨hrest', hfail'⟩ := ih hrest
    refine ⟨hrest', ?_⟩
    rw [run_cons, hfail', hfail, Nat.add_assoc, ← rejects_cons]

theorem accessReg_spec (h : AtRest s.dev) (he : e ∈ canfdRegBlock) :
    AtRest (accessReg restoreReset urandom s e).dev ∧
      (accessReg restoreReset urandom s e).fail =
        s.fail + if e.tested then e.rejects [urandom e.reg] else 0 := by
  unfold accessReg
  by_cases htested : e.tested
  · obtain ⟨hrest, hfail⟩ := writeRead_spec h he htested (urandom e.reg)
    simp only [if_pos htested]
    cases restoreReset with
    | false => exact ⟨hrest, hfail⟩
    | true => exact ⟨write_atRest hrest he _, hfail⟩
  · simp only [if_neg htested]
    exact ⟨h, rfl⟩

theorem tested_of_rw (h : e.reg.getAccess = .RW) : e.tested := by
  simp [MapEntry.tested, h]

theorem bashReg_spec (h : AtRest s.dev) (he : e ∈ canfdRegBlock) :
    AtRest (bashReg s e).dev ∧
      (bashReg s e).fail = s.fail + if e.reg.getAccess = .RW then e.rejects bashWords else 0 := by
  unfold bashReg
  by_cases hrw : e.reg.getAccess = .RW
  · obtain ⟨hrest, hfail⟩ := run_writeRead h he (tested_of_rw hrw) bashWords
    simp only [if_pos hrw]
    exact ⟨write_atRest hrest he _, hfail⟩
  · simp only [if_neg hrw]
    exact ⟨h, rfl⟩

/-- A sequence that goes through the registers counts what each of them adds. -/
theorem run_regs {step : SeqState → MapEntry → SeqState} {count : MapEntry → Nat}
    (hstep : ∀ s : SeqState, AtRest s.dev → ∀ e ∈ canfdRegBlock,
      AtRest (step s e).dev ∧ (step s e).fail = s.fail + count e)
    (h : AtRest s.dev) (hregs : ∀ e ∈ regs, e ∈ canfdRegBlock) :
    (run step s regs).fail = s.fail + (regs.map count).sum := by
  induction regs generalizing s with
  | nil => rfl
  | cons e regs ih =>
    obtain ⟨he, hregs⟩ := List.forall_mem_cons.mp hregs
    obtain ⟨hrest, hfail⟩ := hstep s h e he
    rw [run_cons, ih hrest hregs, hfail, List.map_cons, List.sum_cons, Nat.add_assoc]

theorem accessSeq_fail (hregs : ∀ e ∈ regs, e ∈ canfdRegBlock) :
    (accessSeq restoreReset urandom regs).fail =
      (regs.map fun e => if e.tested then e.rejects [urandom e.reg] else 0).sum := by
  have h : (accessSeq restoreReset urandom regs).fail = 0 + _ :=
    run_regs (fun _ hs _ he => accessReg_spec hs he) atRest_reset hregs
  rwa [Nat.zero_add] at h

theorem bitBashSeq_fail (hregs : ∀ e ∈ regs, e ∈ canfdRegBlock) :
    (bitBashSeq regs).fail =
      (regs.map fun e => if e.reg.getAccess = .RW then e.rejects bashWords else 0).sum := by
  have h : (bitBashSeq regs).fail = 0 + _ :=
    run_regs (fun _ hs _ he => bashReg_spec hs he) atRest_reset hregs
  rwa [Nat.zero_add] at h

end Counts

/-! ### The verdicts -/

/-- **The access test finds nothing wrong with a correct device iff no tested register is
given a bit outside its RW fields; the bit test never does.** -/
theorem selfTests_iff {regs : List MapEntry} (hregs : regs.Perm canfdRegBlock)
    (restoreReset : Bool) (urandom : UvmReg → BitVec 32) :
    ((accessSeq restoreReset urandom regs).fail = 0 ↔
        ∀ e ∈ canfdRegBlock, e.tested → e.reg.lost (urandom e.reg) = 0) ∧
      (bitBashSeq regs).fail = 418 ∧ ¬ SelfTestsAccept restoreReset urandom regs := by
  have hmem : ∀ e ∈ regs, e ∈ canfdRegBlock := fun e he => hregs.mem_iff.mp he
  have hbash : (bitBashSeq regs).fail = 418 := by
    have hcount : (canfdRegBlock.map fun e =>
        if e.reg.getAccess = .RW then e.rejects bashWords else 0).sum = 418 := by
      decide +kernel
    rw [bitBashSeq_fail hmem, (hregs.map _).sum_eq, hcount]
  refine ⟨?_, hbash, fun h => absurd (h.bitBash.symm.trans hbash) (by decide)⟩
  rw [accessSeq_fail hmem, (hregs.map _).sum_eq, List.sum_eq_zero_iff, List.forall_mem_map]
  refine forall₂_congr fun e _ => ?_
  by_cases htested : e.tested
  · simp [htested, MapEntry.rejects]
  · simp [htested]

/-- Words of 0 are accepted. -/
theorem selfTests_zero : (accessSeq true (fun _ => 0#32) canfdRegBlock).fail = 0 :=
  ((selfTests_iff (.refl _) true fun _ => 0#32).1).mpr (by decide +kernel)

/-- The word 1 sets SRST in SRR, which reads as 0. -/
theorem selfTests_reject_one : ¬ SelfTestsAccept true (fun _ => 1#32) canfdRegBlock := by
  intro h
  exact absurd h.access (by decide +kernel)

end Testbench.Regmodel
