import Testbench.Lib.Bits
import Testbench.Canphy.Trans

/-!
The field parser of `canphy_monitor` (`canfd/uvc/canphy/canphy_monitor.sv`).

`parse_frame` walks the destuffed bits with an index `pos`. The walk is modelled
by the bits from `pos` on: the guard `pos < destuffed.size()` asks whether one is
left, `destuffed[pos++]` takes it, and `pos += n` drops `n` bits whether or not
they are there.
-/

namespace Testbench.Canphy

open Testbench.Lib

/-- `if (pos < destuffed.size()) field = destuffed[pos++];` where `old` is what
the field holds when the stream has ended. -/
def nextBit (old : Bool) : List Bool → Bool × List Bool
  | [] => (old, [])
  | b :: rest => (b, rest)

/-- The payload loop over the freshly allocated `frame.data`. It stops at the
first byte that is not complete; that byte and those after it stay x. -/
def readBytes : Nat → List Bool → List LogicByte
  | 0, _ => []
  | n + 1, rest =>
      if 7 < rest.length then some (readBits 8 0 rest).1 :: readBytes n (rest.drop 8)
      else List.replicate (n + 1) none

/-- Base and extended identifier, RTR and IDE. The extended branch assigns
`can_id[17:0]` over the eleven bits just read. -/
def parseArbitration (rest : List Bool) : BitVec 29 × Bool × Bool × List Bool :=
  let (canId, rest) := readBits 11 0 rest
  let (rtr, rest) := nextBit false rest
  let (ide, rest) := nextBit false rest
  if ide then
    let (canId, rest) := readBits 18 canId rest
    let (rtr, rest) := nextBit rtr rest
    (canId, rtr, ide, rest.drop 2)  -- r1, r0
  else
    (canId, rtr, ide, rest)

/-- FDF, then BRS and ESI of an FD frame or the reserved bit of a classic one. -/
def parseControl (rest : List Bool) : Bool × Bool × Bool × List Bool :=
  let (fdf, rest) := nextBit false rest
  if fdf then
    let (brs, rest) := nextBit false rest
    let (esi, rest) := nextBit false rest
    (fdf, brs, esi, rest)
  else
    (fdf, false, false, rest.drop 1)  -- r0

/-- The field parser of `parse_frame`, from the destuffed bits to the frame it
reports. Fewer than 20 bits report nothing. -/
def parseFields (dir : CanDirection) (destuffed : List Bool) : Option CanphyTrans :=
  if destuffed.length < 20 then none
  else
    let (canId, rtr, ide, rest) := parseArbitration (destuffed.drop 1)  -- SOF
    let (fdf, brs, esi, rest) := parseControl rest
    let (dlc, rest) := readBits 4 0 rest
    let dataBytes := dlcToBytes dlc
    some {
      frameType := frameTypeOf fdf rtr ide
      canId, dlc, brs, esi, ide, rtr, fdf
      data := if !rtr && decide (0 < dataBytes) then readBytes dataBytes rest else []
      direction := dir
      bitCount := destuffed.length }

end Testbench.Canphy
