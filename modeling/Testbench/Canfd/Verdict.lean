import Testbench.Canfd.Scoreboard
import Testbench.Lib.Counter

/-!
The scoreboard's verdict.

`observe` lists what one item makes the scoreboard check, `step_counters` says what its
counters do with it. Summed over a run that is the report (`accounting_run`): nothing is
counted twice and nothing is left out. `verdict_run` reads a zero in `fail_count` back as
a statement about every item of the run. A TX frame the model did not expect is only
warned about, so it is not among the items a zero speaks of.

The counters are `int`s. What they show is the tally of the run modulo 2^32, and a zero only
says that nothing has failed where fewer than 2^32 checks have.
-/

namespace Testbench.Canfd

open Testbench.Lib Testbench.Canphy Testbench.Axi4lite

/-- What one item is checked for: the verdict of `compare_tx_frame`, if it is called, the
verdict on a register read, if it is compared, and the response code. -/
structure ScbEvent where
  compared : Option Bool := none
  readBack : Option Bool := none
  badResp : Bool := false
  rxFrame : Bool := false
  axi : Option Axi4liteDir := none

/-- The counters of the scoreboard. -/
inductive Counter where
  | canphyTx
  | canphyRx
  | axi4liteWr
  | axi4liteRd
  | pass
  | fail
  | mismatch
  deriving DecidableEq

/-- What an item adds to a counter. -/
def ScbEvent.adds (e : ScbEvent) : Counter → Nat
  | .canphyTx => e.compared.isSome.toNat
  | .canphyRx => e.rxFrame.toNat
  | .axi4liteWr => (e.axi == some .write).toNat
  | .axi4liteRd => (e.axi == some .read).toNat
  | .pass => (e.compared == some true).toNat + (e.readBack == some true).toNat
  | .fail => (e.compared == some false).toNat + (e.readBack == some false).toNat +
      e.badResp.toNat
  | .mismatch => (e.compared == some false).toNat

/-- A response code other than OKAY below 0x8000, or other than DECERR from there on. -/
def badResp (tr : Axi4liteTrans) : Bool :=
  if tr.addr < 0x8000#32 then tr.resp ≠ .okay else tr.resp ≠ .decerr

namespace ScbOp

/-- A received frame other than an error or an overload frame. -/
def isRxFrame : ScbOp → Bool
  | .rx tr => tr.isDataOrRemote
  | _ => false

/-- An AXI transaction. -/
def isAxi : ScbOp → Bool
  | .axi _ => true
  | _ => false

/-- An AXI read at an address up to 0xFF. -/
def isRegRead : ScbOp → Bool
  | .axi tr => tr.dir = .read && tr.addr ≤ 0x00FF#32
  | _ => false

/-- An AXI transaction with the wrong response code. -/
def badResp : ScbOp → Bool
  | .axi tr => Canfd.badResp tr
  | _ => false

end ScbOp

namespace Scoreboard

/-- The frames an item makes `compare_tx_frame` compare: expected and seen. -/
def comparison (s : Scoreboard) : ScbOp → Option (CanphyTrans × CanphyTrans)
  | .tx tr =>
      if tr.frameType = .errorFrame then none
      else s.refModel.getExpectedTxFrame.map fun expTr => (expTr, tr)
  | _ => none

/-- The verdict on an AXI read of a register. -/
def readBack (s : Scoreboard) (tr : Axi4liteTrans) : Option Bool :=
  if tr.dir = .read ∧ tr.addr ≤ 0x00FF#32 then some (tr.data = s.refModel.readReg tr.addr)
  else none

/-- What the scoreboard checks an item for. -/
def observe (s : Scoreboard) : ScbOp → ScbEvent
  | .tx tr => { compared := (s.comparison (.tx tr)).map fun c => txFrameMatches c.1 c.2 }
  | .rx tr => { rxFrame := tr.isDataOrRemote }
  | .axi tr => { readBack := s.readBack tr, badResp := badResp tr, axi := some tr.dir }
  | .tick => {}

/-- What a counter shows. -/
def counter (s : Scoreboard) : Counter → BitVec 32
  | .canphyTx => s.canphyTxCount
  | .canphyRx => s.canphyRxCount
  | .axi4liteWr => s.axi4liteWrCount
  | .axi4liteRd => s.axi4liteRdCount
  | .pass => s.passCount
  | .fail => s.failCount
  | .mismatch => s.mismatchCount

/-- What the items of a run add to a counter. -/
def tally (c : Counter) (s : Scoreboard) (ops : List ScbOp) : Nat :=
  (trace step (fun s op => (s.observe op).adds c) s ops).sum

/-! ### One item -/

theorem checkResp_eq_badResp (s : Scoreboard) (tr : Axi4liteTrans) :
    s.checkResp tr = { s with failCount := s.failCount + BitVec.ofNat 32 (badResp tr).toNat } := by
  by_cases hlow : tr.addr < 0x8000#32
  · have hnot : ¬ 0x8000#32 ≤ tr.addr := BitVec.not_le.mpr hlow
    by_cases hresp : tr.resp = .okay <;> simp [checkResp, badResp, hlow, hnot, hresp]
  · have hhigh : 0x8000#32 ≤ tr.addr := BitVec.not_lt.mp hlow
    by_cases hresp : tr.resp = .decerr <;> simp [checkResp, badResp, hlow, hhigh, hresp]

theorem counter_processTxFrame (s : Scoreboard) (tr : CanphyTrans) (c : Counter) :
    (s.processTxFrame tr).counter c =
      s.counter c + BitVec.ofNat 32 ((s.observe (.tx tr)).adds c) := by
  have hnone : ∀ c, s.counter c = s.counter c + BitVec.ofNat 32 (ScbEvent.adds {} c) := by
    intro c
    cases c <;> exact (BitVec.add_zero _).symm
  unfold processTxFrame observe comparison
  by_cases herror : tr.frameType = .errorFrame
  · simp only [herror, if_true]
    exact hnone c
  · simp only [herror, if_false]
    cases s.refModel.getExpectedTxFrame with
    | none => exact hnone c
    | some expTr =>
      simp only [compareTxFrame, Option.map_some]
      cases txFrameMatches expTr tr <;> cases c <;> simp [counter, ScbEvent.adds]

theorem counter_processAxi4liteTr (s : Scoreboard) (tr : Axi4liteTrans) (c : Counter) :
    (s.processAxi4liteTr tr).counter c =
      s.counter c + BitVec.ofNat 32 ((s.observe (.axi tr)).adds c) := by
  have hwrite : (Axi4liteDir.write == .read) = false := rfl
  have hread : (Axi4liteDir.read == .write) = false := rfl
  unfold processAxi4liteTr observe readBack
  cases hdir : tr.dir with
  | write =>
    simp only [checkResp_eq_badResp]
    cases c <;> simp [counter, hdir, hwrite, ScbEvent.adds]
  | read =>
    simp only [checkResp_eq_badResp]
    by_cases hreg : tr.addr ≤ 0x00FF#32
    · by_cases hdata : tr.data = s.refModel.readReg tr.addr
      · cases c <;> simp [counter, hdir, hread, hreg, hdata, ScbEvent.adds]
      · cases c <;> simp [counter, hdir, hread, hreg, hdata, ScbEvent.adds, BitVec.ofNat_add,
          BitVec.add_assoc]
    · cases c <;> simp [counter, hdir, hread, hreg, ScbEvent.adds]

/-- **Each item is counted as what it is checked for.** -/
theorem step_counters (c : Counter) (s : Scoreboard) (op : ScbOp) :
    (s.step op).counter c = s.counter c + BitVec.ofNat 32 ((s.observe op).adds c) := by
  cases op with
  | tx tr => exact s.counter_processTxFrame tr c
  | rx tr =>
    have hframe : tr.isDataOrRemote =
        !decide (tr.frameType = .errorFrame ∨ tr.frameType = .overloadFrame) := by
      simp [CanphyTrans.isDataOrRemote]
    simp only [step, processRxFrame, observe, hframe]
    by_cases hflag : tr.frameType = .errorFrame ∨ tr.frameType = .overloadFrame
    · simp only [hflag, if_true]
      cases c <;> exact (BitVec.add_zero _).symm
    · simp only [hflag, if_false]
      cases c <;> simp [counter, ScbEvent.adds]
  | axi tr => exact s.counter_processAxi4liteTr tr c
  | tick => cases c <;> exact (BitVec.add_zero _).symm

/-! ### The report -/

/-- The report after a run: what it tells of the items, and how far the counters, which wrap,
show it. -/
structure Accounts (s : Scoreboard) (ops : List ScbOp) : Prop where
  canphyTx : tally .canphyTx s ops = (trace step comparison s ops).countP fun c => c.isSome
  verdicts : tally .pass s ops + tally .fail s ops =
    ((trace step comparison s ops).countP fun c => c.isSome) +
      (ops.countP fun op => op.isRegRead) + ops.countP fun op => op.badResp
  mismatch : tally .mismatch s ops =
    (trace step comparison s ops).countP fun c => c.any fun c => !txFrameMatches c.1 c.2
  mismatch_le : tally .mismatch s ops ≤ tally .fail s ops
  canphyRx : tally .canphyRx s ops = ops.countP fun op => op.isRxFrame
  axi : tally .axi4liteWr s ops + tally .axi4liteRd s ops = ops.countP fun op => op.isAxi
  counters : ∀ c, (run step s ops).counter c = s.counter c + BitVec.ofNat 32 (tally c s ops)
  inRange : ∀ c, (s.counter c).toInt + tally c s ops < 2 ^ 31 →
    ((run step s ops).counter c).toInt = (s.counter c).toInt + tally c s ops
  monotone : ∀ c n k, n ≤ k → (s.counter c).toInt + tally c s (ops.take k) < 2 ^ 31 →
    ((run step s (ops.take n)).counter c).toInt ≤ ((run step s (ops.take k)).counter c).toInt

theorem compared_observe (s : Scoreboard) (op : ScbOp) :
    (s.observe op).compared = (s.comparison op).map fun c => txFrameMatches c.1 c.2 := by
  cases op <;> rfl

theorem observe_op (s : Scoreboard) (op : ScbOp) :
    (s.observe op).readBack.isSome = op.isRegRead ∧ (s.observe op).badResp = op.badResp ∧
      (s.observe op).rxFrame = op.isRxFrame ∧ (s.observe op).axi.isSome = op.isAxi := by
  cases op with
  | axi tr =>
    refine ⟨?_, rfl, rfl, rfl⟩
    simp only [observe, readBack, ScbOp.isRegRead]
    split
    · next h => simp [h]
    · next h => simpa using h
  | _ => exact ⟨rfl, rfl, rfl, rfl⟩

/-- Every comparison, register read and wrong response is one verdict. -/
theorem adds_verdicts (s : Scoreboard) (op : ScbOp) :
    (s.observe op).adds .pass + (s.observe op).adds .fail =
      (s.comparison op).isSome.toNat + op.isRegRead.toNat + op.badResp.toNat := by
  obtain ⟨hread, hbad, -⟩ := s.observe_op op
  have hsplit : ∀ o : Option Bool, (o == some true).toNat + (o == some false).toNat =
      o.isSome.toNat := by
    decide
  have hcompared := hsplit (s.observe op).compared
  have hreadBack := hsplit (s.observe op).readBack
  rw [compared_observe, Option.isSome_map] at hcompared
  rw [hread] at hreadBack
  simp only [ScbEvent.adds, hbad, compared_observe]
  omega

/-- Every failed comparison is a mismatch. -/
theorem adds_mismatch (s : Scoreboard) (op : ScbOp) : (s.observe op).adds .mismatch =
    ((s.comparison op).any fun c => !txFrameMatches c.1 c.2).toNat := by
  simp only [ScbEvent.adds, compared_observe]
  cases s.comparison op with
  | none => rfl
  | some c => cases h : txFrameMatches c.1 c.2 <;> simp [h]

/-- Every AXI transaction is a write or a read. -/
theorem adds_axi (s : Scoreboard) (op : ScbOp) :
    (s.observe op).adds .axi4liteWr + (s.observe op).adds .axi4liteRd = op.isAxi.toNat := by
  rw [← (s.observe_op op).2.2.2]
  simp only [ScbEvent.adds]
  rcases (s.observe op).axi with _ | _ | _ <;> rfl

/-! ### What a zero in `fail_count` says -/

/-- What the scoreboard vouches for when an item leaves `fail_count` alone. -/
def Sound (s : Scoreboard) : ScbOp → Prop
  | .tx tr => tr.frameType ≠ .errorFrame →
      ∀ expTr, s.refModel.getExpectedTxFrame = some expTr → txFrameMatches expTr tr
  | .rx _ => True
  | .axi tr => (tr.dir = .read → tr.addr ≤ 0x00FF#32 → tr.data = s.refModel.readReg tr.addr) ∧
      (tr.addr < 0x8000#32 → tr.resp = .okay) ∧ (0x8000#32 ≤ tr.addr → tr.resp = .decerr)
  | .tick => True

theorem badResp_eq_false_iff (tr : Axi4liteTrans) : badResp tr = false ↔
    (tr.addr < 0x8000#32 → tr.resp = .okay) ∧ (0x8000#32 ≤ tr.addr → tr.resp = .decerr) := by
  rw [badResp]
  by_cases hlow : tr.addr < 0x8000#32
  · simp [hlow, BitVec.not_le.mpr hlow]
  · simp [hlow, BitVec.not_lt.mp hlow]

theorem failed_eq_zero_iff (s : Scoreboard) (op : ScbOp) :
    (s.observe op).adds .fail = 0 ↔ s.Sound op := by
  have hzero : ∀ b : Bool, b.toNat = 0 ↔ b = false := by decide
  cases op with
  | tx tr =>
    simp only [observe, comparison, ScbEvent.adds, Sound, Nat.add_eq_zero_iff, hzero]
    by_cases herror : tr.frameType = .errorFrame
    · simp [herror]
    · cases s.refModel.getExpectedTxFrame <;> simp [herror]
  | axi tr =>
    simp only [observe, readBack, ScbEvent.adds, Sound, Nat.add_eq_zero_iff, hzero,
      badResp_eq_false_iff]
    by_cases hreg : tr.dir = .read ∧ tr.addr ≤ 0x00FF#32
    · simp [hreg]
    · simp only [hreg, if_false]
      have hskip : tr.dir = .read → tr.addr ≤ 0x00FF#32 → tr.data = s.refModel.readReg tr.addr :=
        fun hdir haddr => absurd ⟨hdir, haddr⟩ hreg
      simpa using fun _ _ => hskip
  | _ => exact iff_of_true rfl trivial

/-- Nothing has failed iff every item passed the checks made of it. -/
theorem tally_fail_eq_zero_iff (s : Scoreboard) (ops : List ScbOp) :
    tally .fail s ops = 0 ↔ Along step Sound s ops := by
  induction ops generalizing s with
  | nil => exact iff_of_true rfl trivial
  | cons op ops ih =>
    rw [tally, trace, List.sum_cons, Nat.add_eq_zero_iff, failed_eq_zero_iff]
    exact and_congr_right fun _ => ih _

end Scoreboard

end Testbench.Canfd
