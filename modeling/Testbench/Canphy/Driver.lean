import Testbench.Lib.Bits
import Testbench.Canphy.Trans

/-!
The serializer of `canphy_driver` (`canfd/uvc/canphy/canphy_driver.sv`).

`drive_can_frame` builds the unstuffed frame by assigning one value after the
other to `bit_stream[idx++]`. `bitStreamValues` is that sequence of values, SOF
through data, in program order.
-/

namespace Testbench.Canphy

open Testbench.Lib

/-- Arbitration field: identifier, RTR or SRR, IDE and the reserved bits. -/
def arbitrationValues (tr : CanphyTrans) : List Bool :=
  if !tr.ide then
    -- 11-bit ID, RTR, IDE=0, r0
    bitsDown tr.canId 0 11 ++ [tr.rtr, false, false]
  else
    -- 11-bit ID (high), SRR=1, IDE=1, 18-bit ID (low), RTR, r1, r0
    bitsDown tr.canId 18 11 ++ [true, true] ++ bitsDown tr.canId 0 18 ++ [tr.rtr, false, false]

/-- FDF, BRS and ESI, sent by FD frames only. -/
def fdValues (tr : CanphyTrans) : List Bool :=
  if tr.fdf then [true, tr.brs, tr.esi] else []

/-- The payload bytes, each most significant bit first. -/
def byteValues (data : List LogicByte) : List Bool :=
  data.flatMap fun b => bitsDown b.toBits 0 8

/-- The data field, which a remote frame leaves out. -/
def dataValues (tr : CanphyTrans) : List Bool :=
  if !tr.rtr then byteValues tr.data else []

/-- The values `drive_can_frame` assigns to successive positions of `bit_stream`. -/
def bitStreamValues (tr : CanphyTrans) : List Bool :=
  [false] ++ arbitrationValues tr ++ fdValues tr ++ bitsDown tr.dlc 0 4 ++ dataValues tr

end Testbench.Canphy
