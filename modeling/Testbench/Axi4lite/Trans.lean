import Mathlib

/-!
The AXI4-Lite transaction `axi4lite_trans`
(`canfd/uvc/axi4lite/axi4lite_trans.sv`).

`Axi4liteTrans` is one completed read or write, as the monitor reports it. The monitor
leaves the byte strobes alone, and nothing that checks a transaction reads them or the
latency. `DriverItem` is the item a sequence hands the driver: it has the strobes, which
the driver puts on the bus.
-/

namespace Testbench.Axi4lite

/-- `axi4lite_dir_e`. -/
inductive Axi4liteDir where
  | read
  | write
  deriving DecidableEq, Repr

/-- `axi4lite_resp_e`. -/
inductive Axi4liteResp where
  | okay
  | exokay
  | slverr
  | decerr
  deriving DecidableEq, Repr

/-- `axi4lite_trans`. -/
structure Axi4liteTrans where
  dir : Axi4liteDir
  addr : BitVec 32
  data : BitVec 32
  resp : Axi4liteResp
  deriving DecidableEq, Repr

/-- The item a task of the driver is called with. -/
structure DriverItem extends Axi4liteTrans where
  wstrb : BitVec 4

/-- An item after the driver was done with it: the response is new, and for a read the
data. -/
structure DriverItem.Carries (tr tr' : DriverItem) : Prop where
  dir : tr'.dir = tr.dir
  addr : tr'.addr = tr.addr
  wstrb : tr'.wstrb = tr.wstrb
  data : tr.dir = .write → tr'.data = tr.data

namespace DriverItem.Carries

theorem refl (tr : DriverItem) : tr.Carries tr := ⟨rfl, rfl, rfl, fun _ => rfl⟩

theorem trans {a b c : DriverItem} (h : a.Carries b) (h' : b.Carries c) : a.Carries c where
  dir := h'.dir.trans h.dir
  addr := h'.addr.trans h.addr
  wstrb := h'.wstrb.trans h.wstrb
  data hdir := (h'.data (h.dir.trans hdir)).trans (h.data hdir)

end DriverItem.Carries

end Testbench.Axi4lite
