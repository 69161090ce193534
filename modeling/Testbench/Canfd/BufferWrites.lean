import Testbench.Lib.LastWrite
import Testbench.Canfd.ExpectedFrame
import Testbench.Canfd.TxBuffer

/-!
Filling buffers word by word.

A TX buffer is eighteen words: two headers and sixteen payload words of four bytes.
Each field of a buffer is a register that one of these words writes, so after any
sequence of writes it comes from the last one at its offset (`bufferWrites`). The frame
predicted for a buffer reports its fields as they are.
-/

namespace Testbench.Canfd

open Testbench.Lib Testbench.Canphy

/-- A call of `write_tx_buf` with a word offset of the buffer layout. -/
structure WordWrite where
  bufIdx : Int
  offset : Fin 18
  data : BitVec 32

/-- The model after the call. -/
def RefModel.writeWord (m : RefModel) (w : WordWrite) : RefModel :=
  m.writeTxBuf w.bufIdx (BitVec.ofNat 32 w.offset) w.data

/-- The word a call writes to offset `o` of buffer `i`, if it does. -/
def writtenWord (i : Fin 32) (o : Nat) (w : WordWrite) : Option (BitVec 32) :=
  if (i : Int) = w.bufIdx ∧ w.offset.val = o then some w.data else none

/-- The last word written to offset `o` of buffer `i`. -/
def lastWord (ws : List WordWrite) (i : Fin 32) (o : Nat) : Option (BitVec 32) :=
  lastWrite (writtenWord i o) ws

namespace TxBuf

/-! ### One write -/

/-- `byte_idx` of a payload write. -/
def byteIdx (offset : Fin 18) : Int := ((BitVec.ofNat 32 offset - 2#32) * 4#32).toInt

theorem byteIdx_eq {offset : Fin 18} (h : 2 ≤ offset.val) :
    byteIdx offset = (4 * (offset.val - 2) : Nat) := by
  revert h; revert offset; decide

/-- A word from offset 2 on is four payload bytes. -/
theorem write_payload (b : TxBuf) {offset : Fin 18} (h : 2 ≤ offset.val) (data : BitVec 32) :
    b.write (BitVec.ofNat 32 offset) data =
      { b with valid := true, data := setWord b.data (byteIdx offset) data } := by
  have hne : BitVec.ofNat 32 offset ≠ 0 ∧ BitVec.ofNat 32 offset ≠ 1 := by
    revert h; revert offset; decide
  have hlt : byteIdx offset < 64 := by
    rw [byteIdx_eq h]
    omega
  rw [write, if_neg hne.1, if_neg hne.2]
  exact if_pos hlt

/-- **A word fills the buffer and overwrites what its offset stands for.** -/
theorem write_eq (b : TxBuf) (offset : Fin 18) (data : BitVec 32) :
    b.write (BitVec.ofNat 32 offset) data =
      { b with
        valid := true
        id := if offset.val = 0 then data.setWidth 29 else b.id
        ide := if offset.val = 0 then data.getLsbD 31 else b.ide
        rtr := if offset.val = 0 then data.getLsbD 30 else b.rtr
        fdf := if offset.val = 0 then data.getLsbD 29 else b.fdf
        dlc := if offset.val = 1 then data.setWidth 4 else b.dlc
        brs := if offset.val = 1 then data.getLsbD 4 else b.brs
        esi := if offset.val = 1 then data.getLsbD 5 else b.esi
        data := fun k =>
          if offset.val = k.val / 4 + 2 then data.extractLsb' (8 * (k.val % 4)) 8
          else b.data k } := by
  by_cases hpay : 2 ≤ offset.val
  · have h0 : offset.val ≠ 0 := by omega
    have h1 : offset.val ≠ 1 := by omega
    rw [write_payload b hpay, byteIdx_eq hpay]
    simp only [h0, h1, if_false]
    congr 1
    funext k
    rw [setWord_apply]
    by_cases hoff : offset.val = k.val / 4 + 2
    · rw [if_pos hoff, if_pos (by omega), show k.val - 4 * (offset.val - 2) = k.val % 4 by omega]
    · rw [if_neg hoff, if_neg (by omega)]
  · have hnone : ∀ k : Fin 64, offset.val ≠ k.val / 4 + 2 := fun k => by omega
    simp only [hnone, if_false]
    obtain rfl | rfl : offset = 0 ∨ offset = 1 := by omega
    · rfl
    · rfl

theorem data_write (b : TxBuf) (offset : Fin 18) (data : BitVec 32) (k : Fin 64) :
    (b.write (BitVec.ofNat 32 offset) data).data k =
      if offset.val = k.val / 4 + 2 then data.extractLsb' (8 * (k.val % 4)) 8 else b.data k := by
  rw [write_eq]

end TxBuf

namespace RefModel

/-! ### Sequences of writes -/

/-- The model after a sequence of calls. -/
def writeWords (m : RefModel) (ws : List WordWrite) : RefModel := run writeWord m ws

theorem txBufs_writeWord (m : RefModel) (w : WordWrite) (i : Fin 32) :
    (m.writeWord w).txBufs i =
      if (i : Int) = w.bufIdx then (m.txBufs i).write (BitVec.ofNat 32 w.offset) w.data
      else m.txBufs i := m.txBufs_writeTxBuf _ _ _ i

/-- **A field that the word at offset `o` writes is a register of the buffer.** -/
theorem field_writeWords {β : Type} (get : TxBuf → β) (o : Nat) (g : BitVec 32 → β)
    (hget : ∀ (b : TxBuf) (offset : Fin 18) (data : BitVec 32),
      get (b.write (BitVec.ofNat 32 offset) data) = if offset.val = o then g data else get b)
    (m : RefModel) (ws : List WordWrite) (i : Fin 32) :
    get ((m.writeWords ws).txBufs i) = ((lastWord ws i o).map g).getD (get (m.txBufs i)) := by
  have hstep : ∀ m : RefModel, ∀ w ∈ ws, get ((m.writeWord w).txBufs i) =
      ((writtenWord i o w).map g).getD (get (m.txBufs i)) := by
    intro m w _
    rw [txBufs_writeWord, writtenWord]
    by_cases hbuf : (i : Int) = w.bufIdx
    · rw [if_pos hbuf, hget]
      by_cases hoff : w.offset.val = o
      · rw [if_pos hoff, if_pos ⟨hbuf, hoff⟩]
        rfl
      · rw [if_neg hoff, if_neg fun h => hoff h.2]
        rfl
    · rw [if_neg hbuf, if_neg fun h => hbuf h.1]
      rfl
  rw [lastWord, ← lastWrite_map]
  exact @run_lastWrite _ _ _ writeWord (fun m => get (m.txBufs i)) _ ws hstep m

/-- A buffer is valid after the calls iff it was or some call addresses it. -/
theorem valid_writeWords (m : RefModel) (ws : List WordWrite) (i : Fin 32) :
    ((m.writeWords ws).txBufs i).valid = true ↔
      (m.txBufs i).valid = true ∨ ∃ w ∈ ws, w.bufIdx = i := by
  have hone : ∀ (m : RefModel) (w : WordWrite), ((m.writeWord w).txBufs i).valid = true ↔
      (m.txBufs i).valid = true ∨ w.bufIdx = i := by
    intro m w
    rw [txBufs_writeWord]
    by_cases hbuf : (i : Int) = w.bufIdx
    · rw [if_pos hbuf, TxBuf.write_eq]
      exact iff_of_true rfl (Or.inr hbuf.symm)
    · rw [if_neg hbuf, or_iff_left (Ne.symm hbuf)]
  induction ws generalizing m with
  | nil => simp [writeWords]
  | cons w ws ih =>
    rw [List.exists_mem_cons_iff, ← or_assoc, ← hone]
    exact ih (m.writeWord w)

/-- The calls change buffers and nothing else. -/
theorem writeWords_eq (m : RefModel) (ws : List WordWrite) :
    m.writeWords ws = { m with txBufs := (m.writeWords ws).txBufs } := by
  have hstep : ∀ (m' : RefModel) (w : WordWrite), m' = { m with txBufs := m'.txBufs } →
      m'.writeWord w = { m with txBufs := (m'.writeWord w).txBufs } := by
    intro m' w h
    obtain ⟨bufs, heq⟩ := m'.writeTxBuf_eq w.bufIdx (BitVec.ofNat 32 w.offset) w.data
    have heq : m'.writeWord w = { m' with txBufs := bufs } := heq
    rw [heq, h]
  exact @run_invariant _ _ writeWord (fun m' => m' = { m with txBufs := m'.txBufs }) hstep m rfl ws

/-- A call that addresses no buffer does nothing. -/
theorem writeWord_outside (m : RefModel) {w : WordWrite} (h : w.bufIdx < 0 ∨ 32 ≤ w.bufIdx) :
    m.writeWord w = m := by
  rw [writeWord, writeTxBuf, dif_neg (by omega)]

end RefModel

/-! ### The prediction -/

/-- The frame reports the fields of the buffer as they are, with the payload bytes its DLC
stands for, none for a remote frame. -/
structure Reports (frame : CanphyTrans) (b : TxBuf) : Prop where
  canId : frame.canId = b.id
  ide : frame.ide = b.ide
  rtr : frame.rtr = b.rtr
  fdf : frame.fdf = b.fdf
  brs : frame.brs = b.brs
  esi : frame.esi = b.esi
  dlc : frame.dlc = b.dlc
  data : frame.data =
    if b.rtr then [] else ((List.ofFn b.data).take (dlcToBytes b.dlc)).map some

theorem reports_expectedFrame (b : TxBuf) : Reports (RefModel.expectedFrame b) b where
  canId := rfl
  ide := rfl
  rtr := rfl
  fdf := rfl
  brs := rfl
  esi := rfl
  dlc := rfl
  data := by
    have hle := dlcToBytes_le b.dlc
    cases hrtr : b.rtr with
    | true => simp [RefModel.expectedFrame, hrtr]
    | false =>
      have hlen := RefModel.length_expectedFrame_data b
      rw [hrtr, if_neg Bool.false_ne_true] at hlen
      rw [if_neg Bool.false_ne_true]
      apply List.ext_getElem
      · rw [hlen, List.length_map, List.length_take, List.length_ofFn, min_eq_left hle]
      · intro k hk _
        have hpos : 0 < dlcToBytes b.dlc := by omega
        have hk64 : k < 64 := by omega
        rw [List.getElem_map, List.getElem_take, List.getElem_ofFn]
        simp [RefModel.expectedFrame, hrtr, hpos, hk64]

/-- A buffer after some words were written to it: each field comes from the last word at
its offset, or is what it was. -/
structure LastWriterWins (before after : TxBuf) (word : Nat → Option (BitVec 32)) : Prop where
  id : after.id = ((word 0).map fun w => w.setWidth 29).getD before.id
  ide : after.ide = ((word 0).map fun w => w.getLsbD 31).getD before.ide
  rtr : after.rtr = ((word 0).map fun w => w.getLsbD 30).getD before.rtr
  fdf : after.fdf = ((word 0).map fun w => w.getLsbD 29).getD before.fdf
  dlc : after.dlc = ((word 1).map fun w => w.setWidth 4).getD before.dlc
  brs : after.brs = ((word 1).map fun w => w.getLsbD 4).getD before.brs
  esi : after.esi = ((word 1).map fun w => w.getLsbD 5).getD before.esi
  data : ∀ (o : Nat) (j : Nat) (k : Fin 64), 2 ≤ o → j < 4 → k.val = 4 * (o - 2) + j →
    after.data k = ((word o).map fun w => w.extractLsb' (8 * j) 8).getD (before.data k)
  readyReq : after.readyReq = before.readyReq

namespace RefModel

/-- What a sequence of word writes leaves behind. -/
structure BufferWrites (m : RefModel) (ws : List WordWrite) : Prop where
  buffers : ∀ i, LastWriterWins (m.txBufs i) ((m.writeWords ws).txBufs i) (lastWord ws i)
  valid : ∀ i, ((m.writeWords ws).txBufs i).valid = true ↔
    (m.txBufs i).valid = true ∨ ∃ w ∈ ws, w.bufIdx = i
  others : m.writeWords ws = { m with txBufs := (m.writeWords ws).txBufs }
  outside : ∀ w ∈ ws, w.bufIdx < 0 ∨ 32 ≤ w.bufIdx → ∀ m' : RefModel, m'.writeWord w = m'
  inside : ∀ w ∈ ws, 2 ≤ w.offset.val →
    0 ≤ TxBuf.byteIdx w.offset ∧ TxBuf.byteIdx w.offset + 3 ≤ 63
  predicted : ∀ i, (m.writeWords ws).getExpectedTxFrameIdx = some i →
    ∃ frame, (m.writeWords ws).getExpectedTxFrame = some frame ∧
      Reports frame ((m.writeWords ws).txBufs i)

/-- **Buffer writes are last-writer-wins, word by word**, and the prediction reports what
they leave. -/
theorem bufferWrites (m : RefModel) (ws : List WordWrite) : BufferWrites m ws where
  buffers := by
    intro i
    constructor
    case id => exact field_writeWords TxBuf.id 0 _ (fun b o d => by rw [TxBuf.write_eq]) m ws i
    case ide => exact field_writeWords TxBuf.ide 0 _ (fun b o d => by rw [TxBuf.write_eq]) m ws i
    case rtr => exact field_writeWords TxBuf.rtr 0 _ (fun b o d => by rw [TxBuf.write_eq]) m ws i
    case fdf => exact field_writeWords TxBuf.fdf 0 _ (fun b o d => by rw [TxBuf.write_eq]) m ws i
    case dlc => exact field_writeWords TxBuf.dlc 1 _ (fun b o d => by rw [TxBuf.write_eq]) m ws i
    case brs => exact field_writeWords TxBuf.brs 1 _ (fun b o d => by rw [TxBuf.write_eq]) m ws i
    case esi => exact field_writeWords TxBuf.esi 1 _ (fun b o d => by rw [TxBuf.write_eq]) m ws i
    case data =>
      intro o j k ho hj hk
      refine field_writeWords (fun b => b.data k) o _ (fun b offset d => ?_) m ws i
      have hdiv : k.val / 4 + 2 = o := by omega
      have hmod : k.val % 4 = j := by omega
      rw [TxBuf.data_write, hdiv, hmod]
    case readyReq =>
      have hstep : ∀ m : RefModel, ∀ w ∈ ws,
          ((m.writeWord w).txBufs i).readyReq = (m.txBufs i).readyReq := by
        intro m w _
        rw [txBufs_writeWord]
        split
        · exact readyReq_write _ _ _
        · rfl
      exact @run_const _ _ _ writeWord (fun m => (m.txBufs i).readyReq) ws hstep m
  valid := m.valid_writeWords ws
  others := m.writeWords_eq ws
  outside := fun w _ h m' => m'.writeWord_outside h
  inside := by
    intro w _ h
    rw [TxBuf.byteIdx_eq h]
    have hoff := w.offset.isLt
    omega
  predicted := by
    intro i hi
    refine ⟨_, ?_, reports_expectedFrame _⟩
    rw [getExpectedTxFrame, hi, Option.map_some]

end RefModel

end Testbench.Canfd
