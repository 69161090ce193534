import Testbench.Axi4lite.SequenceLib

/-!
Host tasks of the common task library
(`canfd/testcase/sequence_lib/canfd_common_task_function.sv`).

A task is modelled by the single accesses of its `reg_write` and `reg_read` calls, in order,
each with the arguments it is given. `Axi4lite.Issues` says which transactions these may
become. The value that a read returns is a parameter.
-/

namespace Testbench.Testcase

open Testbench.Axi4lite

/-- `reg_write`. -/
def regWrite (addr data : BitVec 32) : SingleAccess := .doSingleWrite addr data

/-- `reg_read`. -/
def regRead (addr : BitVec 32) : SingleAccess := .doSingleRead addr

/-! ### `canfd_tx_msg` -/

/-- The arguments of `canfd_tx_msg` after `buf_idx`. -/
structure TxMsg where
  id : BitVec 29
  ide : Bool
  fdf : Bool
  brs : Bool
  dlc : BitVec 4
  data : List (BitVec 8)

namespace TxMsg

variable (msg : TxMsg)

/-- Word 0, `{ide, ~fdf, fdf, id[28:0]}`. -/
def headerWord : BitVec 32 :=
  BitVec.ofBool msg.ide ++ BitVec.ofBool (!msg.fdf) ++ BitVec.ofBool msg.fdf ++ msg.id

/-- Word 1, `{28'h0, brs, 3'h0, dlc}`: 36 bits, of which the assignment keeps 32. -/
def dlcWord : BitVec 32 :=
  (0#28 ++ BitVec.ofBool msg.brs ++ 0#3 ++ msg.dlc).setWidth 32

/-- The payload word of bytes `i` to `i + 3`, zero where the payload has ended. -/
def payloadWord (i : Nat) : BitVec 32 :=
  msg.data[i + 3]?.getD 0 ++ msg.data[i + 2]?.getD 0 ++ msg.data[i + 1]?.getD 0 ++
    msg.data[i]?.getD 0

/-- The payload words, for `i` from 0 in steps of 4 below `data.size()`. -/
def payloadWords : List (BitVec 32) :=
  (List.range ((msg.data.length + 3) / 4)).map fun q => msg.payloadWord (4 * q)

/-- All words in the order they are written. -/
def words : List (BitVec 32) := msg.headerWord :: msg.dlcWord :: msg.payloadWords

/-- `0x0100 + buf_idx * 16`. -/
def baseAddr (bufIdx : Nat) : BitVec 32 := 0x0100#32 + BitVec.ofNat 32 bufIdx * 16#32

/-- The buffer writes of `canfd_tx_msg`: consecutive words from `base_addr`. -/
def bufferWrites (bufIdx : Nat) : List SingleAccess :=
  msg.words.zipIdx.map fun (word, p) => regWrite (baseAddr bufIdx + BitVec.ofNat 32 (4 * p)) word

end TxMsg

/-- `canfd_tx_msg`: fill the buffer, then request its transmission. -/
def canfdTxMsg (bufIdx : Nat) (msg : TxMsg) : List SingleAccess :=
  msg.bufferWrites bufIdx ++ [regWrite 0x0090#32 (1#32 <<< bufIdx)]

/-! ### `canfd_config_filter` -/

/-- A call of `canfd_config_filter`, with the AFR value its read returns. -/
structure FilterCall where
  fifoId : Fin 2
  filterIdx : Fin 32
  id : BitVec 29
  mask : BitVec 29
  ide : Bool
  afrVal : BitVec 32

/-- `canfd_config_filter`. Of the 33 bits `{ide, 3'h0, id}` the argument keeps 32. -/
def canfdConfigFilter (c : FilterCall) : List SingleAccess :=
  let filterAddr : BitVec 32 :=
    0x1F00#32 + BitVec.ofNat 32 c.fifoId * 0x80#32 + BitVec.ofNat 32 c.filterIdx * 8#32
  [regWrite filterAddr ((BitVec.ofBool c.ide ++ 0#3 ++ c.id).setWidth 32),
    regWrite (filterAddr + 4#32) (c.mask.setWidth 32),
    regRead 0x00E0#32,
    regWrite 0x00E0#32 (c.afrVal ||| 1#32 <<< (c.fifoId.val * 16 + c.filterIdx.val))]

end Testbench.Testcase
