import Testbench.Canfd.RxFifo
import Testbench.Canfd.Scoreboard
import Testbench.Testcase.CommonTaskFunction

/-!
Configuring acceptance filters through the register interface.

`canfd_config_filter` means to write a filter into the upper TX buffer region and to enable
it in AFR. The scoreboard passes the first to `write_tx_buf`, which ignores buffers
from 32 on, and the second to a register mirror, and whatever else the randomizer makes of
the accesses does not reach the filter arrays of the model either. From reset on it therefore
accepts every data and remote frame, and `filtersHonored_iff` says when that is what the
configuration asks for.
-/

namespace Testbench.Canfd

open Testbench.Lib Testbench.Canphy Testbench.Axi4lite Testbench.Testcase

namespace RefModel

/-- No filter is configured in the model. -/
def NoFilter (m : RefModel) : Prop := ∀ k, m.filters k = fun _ => {}

theorem noFilter_new : NoFilter new := fun _ => ite_self _

/-- **No operation configures a filter.** -/
theorem noFilter_step (m : RefModel) (op : RefOp) (h : NoFilter m) : NoFilter (m.step op) := by
  cases hreset : op.softReset with
  | true =>
    rw [m.step_softReset hreset]
    exact noFilter_new
  | false =>
    have hkeeps := m.step_keepsSides hreset
    intro k
    rw [filters, hkeeps.filters0, hkeeps.filters1]
    exact h k

/-- Without a configured filter every data and remote frame reaches each FIFO. -/
theorem NoFilter.offers {m : RefModel} (h : NoFilter m) (k : Fin 2) (tr : CanphyTrans) :
    m.offers k tr = tr.isDataOrRemote := by
  have hall : checkFilter tr (m.filters k) = true := by
    rw [h k, checkFilter]
    simp
  rw [RefModel.offers, hall, Bool.and_true]

end RefModel

/-! ### Configured runs -/

/-- The frame matches the filter: same format, same identifier under the mask. -/
def filterMatches (c : FilterCall) (tr : CanphyTrans) : Prop :=
  tr.ide = c.ide ∧ tr.canId &&& c.mask = c.id &&& c.mask

/-- Items that leave the configuration of the filters alone: anything but a software
reset and a write to AFR or to the filter region. -/
def ScbOp.keepsFilters : ScbOp → Bool
  | .axi tr => decide (tr.dir = .read) ||
      decide (tr.addr < 0x1F00#32) && decide (tr.addr ≠ 0x00E0#32) &&
        !isSoftReset tr.addr tr.data
  | _ => true

/-- What a call of `canfd_config_filter` may become on the bus. -/
structure Configures (c : FilterCall) (trs : List Axi4liteTrans) : Prop where
  issued : Issues (canfdConfigFilter c) trs
  afrVal : trs[2]?.map Axi4liteTrans.data = some c.afrVal

/-- A run from reset in which distinct filters are configured, between other items. -/
structure FilterRun where
  before : List ScbOp
  calls : List FilterCall
  traffic : List (List Axi4liteTrans)
  after : List ScbOp
  configured : List.Forall₂ Configures calls traffic
  distinct : (calls.map fun c => (c.fifoId, c.filterIdx)).Nodup
  keepsBefore : ∀ op ∈ before, op.keepsFilters = true
  keepsAfter : ∀ op ∈ after, op.keepsFilters = true

namespace FilterRun

variable (r : FilterRun)

/-- The scoreboard after the run. -/
def final : Scoreboard :=
  run Scoreboard.step {}
    (r.before ++ r.traffic.flatten.map .axi ++ r.after)

/-- The frame matches a filter configured for FIFO `k`. -/
def Accepts (k : Fin 2) (tr : CanphyTrans) : Prop :=
  ∃ c ∈ r.calls, c.fifoId = k ∧ filterMatches c tr

/-- The model stores the frame in FIFO `k`. -/
def Stores (k : Fin 2) (tr : CanphyTrans) : Prop :=
  (r.final.processRxFrame tr).refModel.fifo k =
    r.final.refModel.fifo k ++ [RefModel.rxMsgOf tr r.final.refModel.tsr]

/-- The model stores exactly the frames the configuration accepts. -/
def FiltersHonored (k : Fin 2) (tr : CanphyTrans) : Prop := r.Stores k tr ↔ r.Accepts k tr

theorem noFilter_final : r.final.refModel.NoFilter := by
  rw [final, Scoreboard.refModel_run]
  exact run_invariant RefModel.noFilter_step RefModel.noFilter_new _

/-- While it has room a FIFO stores every data and remote frame. -/
theorem stores_iff {k : Fin 2} (room : (r.final.refModel.fifo k).length < 64) (tr : CanphyTrans) :
    r.Stores k tr ↔ tr.isDataOrRemote = true := by
  have hstep : (r.final.processRxFrame tr).refModel = r.final.refModel.onCanFrameReceived tr :=
    Scoreboard.refModel_step r.final (.rx tr)
  rw [Stores, hstep, RefModel.fifo_received, r.noFilter_final.offers k tr, RefModel.pushed]
  cases tr.isDataOrRemote with
  | true => simp [room]
  | false => simp

/-- **While FIFO `k` has room, its configuration is honored for a frame iff accepting
the frame means that it is a data or remote frame.** -/
theorem filtersHonored_iff {k : Fin 2} (room : (r.final.refModel.fifo k).length < 64)
    (tr : CanphyTrans) :
    r.FiltersHonored k tr ↔ (r.Accepts k tr ↔ tr.isDataOrRemote = true) := by
  rw [FiltersHonored, r.stores_iff room tr]
  exact Iff.comm

end FilterRun

/-- FIFO `k` is set up for the standard identifier 0x100. -/
def oneCall (k : Fin 2) (filterIdx : Fin 32) : FilterCall where
  fifoId := k
  filterIdx := filterIdx
  id := 0x100
  mask := 0x7FF
  ide := false
  afrVal := 0

/-- The randomizer may draw the transactions the call asks for. -/
theorem configures_oneCall (k : Fin 2) (filterIdx : Fin 32) :
    Configures (oneCall k filterIdx)
      (asked (fun _ => .okay) (canfdConfigFilter (oneCall k filterIdx))) where
  issued := issues_asked _ (by revert k filterIdx; decide +kernel)
  afrVal := rfl

/-- A run with this call alone. -/
def oneFilter (k : Fin 2) (filterIdx : Fin 32) : FilterRun where
  before := []
  calls := [oneCall k filterIdx]
  traffic := [asked (fun _ => .okay) (canfdConfigFilter (oneCall k filterIdx))]
  after := []
  configured := .cons (configures_oneCall k filterIdx) .nil
  distinct := List.nodup_singleton _
  keepsBefore := by simp
  keepsAfter := by simp

/-- A frame with that identifier is stored, as configured. -/
theorem oneFilter_honored : (oneFilter 0 0).FiltersHonored 0 { canId := 0x100 } :=
  ((oneFilter 0 0).filtersHonored_iff (by decide +kernel) { canId := 0x100 }).mpr
    ⟨fun _ => rfl, fun _ => ⟨_, List.mem_singleton_self _, rfl, rfl, rfl⟩⟩

/-- So is a frame with any other identifier. -/
theorem oneFilter_not_honored : ¬ (oneFilter 0 0).FiltersHonored 0 { canId := 0x200 } := by
  intro h
  have hstores : (oneFilter 0 0).Stores 0 { canId := 0x200 } := by
    unfold FilterRun.Stores
    decide +kernel
  obtain ⟨c, hc, -, -, hid⟩ := h.mp hstores
  rw [List.mem_singleton.mp hc] at hid
  exact absurd hid (by decide)

end Testbench.Canfd
