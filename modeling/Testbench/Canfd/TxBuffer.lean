import Testbench.Lib.CellStore
import Testbench.Canfd.Scoreboard
import Testbench.Testcase.CommonTaskFunction

/-!
Filling a TX buffer through the register interface.

`canfd_tx_msg` asks for consecutive words, and the randomizer is free to write others. When
it draws what it is asked for, the scoreboard spreads the words over buffers of four words
and hands the model a byte offset where `write_tx_buf` expects a word offset. Each word then
lands in one of four cells of a buffer: the header, or four payload bytes at 8, 24 or 40. The
cells obey the laws of `CellStore`, so what a message leaves in every buffer follows from the
library (`encoded_iff`).
-/

namespace Testbench.Canfd

open Testbench.Lib Testbench.Axi4lite Testbench.Testcase

/-! ### The cells of a buffer -/

namespace TxBuf

/-- The cell that word `p` of a message reaches. -/
def cellOf (p : Nat) : Fin 4 := ⟨p % 4, Nat.mod_lt p (by decide)⟩

@[simp] theorem cellOf_val (p : Nat) : (cellOf p).val = p % 4 := rfl

/-- A word written at byte offset `4 * r` of a buffer. -/
def putWord (b : TxBuf) (r : Fin 4) (word : BitVec 32) : TxBuf :=
  b.write (BitVec.ofNat 32 (4 * r)) word

/-- Where the four bytes of a word at offset `4 * r` land in the payload, `r` not 0. -/
def InCell (r : Nat) (k : Fin 64) : Prop := r ≠ 0 ∧ 16 * r ≤ k.val + 8 ∧ k.val + 8 < 16 * r + 4

instance (r : Nat) (k : Fin 64) : Decidable (InCell r k) := by unfold InCell; infer_instance

/-- The buffer is filled and holds `word` in cell `r`: as its header, or as four
payload bytes. -/
def HoldsWord (b : TxBuf) (r : Fin 4) (word : BitVec 32) : Prop :=
  b.valid = true ∧
    (r.val = 0 → b.id = word.setWidth 29 ∧ b.ide = word.getLsbD 31 ∧ b.rtr = word.getLsbD 30 ∧
      b.fdf = word.getLsbD 29) ∧
    ∀ k, InCell r.val k → b.data k = word.extractLsb' (8 * (k.val + 8 - 16 * r.val)) 8

theorem putWord_zero (b : TxBuf) (word : BitVec 32) :
    b.putWord (cellOf 0) word =
      { b with
        valid := true
        id := word.setWidth 29
        ide := word.getLsbD 31
        rtr := word.getLsbD 30
        fdf := word.getLsbD 29 } := rfl

/-- A payload word is four consecutive bytes, least significant first. -/
theorem setWord_apply (data : Fin 64 → BitVec 8) (n : Nat) (word : BitVec 32) (k : Fin 64) :
    setWord data n word k =
      if n ≤ k.val ∧ k.val < n + 4 then word.extractLsb' (8 * (k.val - n)) 8 else data k := by
  simp only [setWord, setByte]
  by_cases hin : n ≤ k.val ∧ k.val < n + 4
  · obtain ⟨j, hj, hk⟩ : ∃ j, j < 4 ∧ k.val = n + j := ⟨k.val - n, by omega, by omega⟩
    rw [if_pos hin, hk, Nat.add_sub_cancel_left]
    interval_cases j <;> simp
  · rw [if_neg hin, if_neg (by omega), if_neg (by omega), if_neg (by omega), if_neg (by omega)]

/-- The byte offset is taken for a word offset: the payload index is four times too
large. -/
theorem putWord_of_ne_zero (b : TxBuf) {r : Fin 4} (h : r.val ≠ 0) (word : BitVec 32) :
    b.putWord r word =
      { b with
        valid := true
        data := fun k =>
          if InCell r.val k then word.extractLsb' (8 * (k.val + 8 - 16 * r.val)) 8
          else b.data k } := by
  have hwrite : b.putWord r word =
      { b with valid := true, data := setWord b.data ((16 * r.val - 8 : Nat) : Int) word } := by
    fin_cases r
    · exact absurd rfl h
    all_goals rfl
  rw [hwrite]
  congr 1
  funext k
  have hcell : InCell r.val k ↔ 16 * r.val - 8 ≤ k.val ∧ k.val < 16 * r.val - 8 + 4 := by
    unfold InCell
    omega
  rw [setWord_apply]
  by_cases hin : InCell r.val k
  · rw [if_pos (hcell.mp hin), if_pos hin]
    congr 2
    omega
  · rw [if_neg (mt hcell.mpr hin), if_neg hin]

/-- A word changes neither BRS nor DLC, nor the payload outside its cell. -/
theorem putWord_unwritten (b : TxBuf) (r : Fin 4) (word : BitVec 32) :
    (b.putWord r word).brs = b.brs ∧ (b.putWord r word).dlc = b.dlc ∧
      ∀ k, ¬ InCell r.val k → (b.putWord r word).data k = b.data k := by
  by_cases hr : r.val = 0
  · obtain rfl : r = cellOf 0 := Fin.ext hr
    exact ⟨rfl, rfl, fun _ _ => rfl⟩
  · rw [putWord_of_ne_zero b hr]
    exact ⟨rfl, rfl, fun k hk => if_neg hk⟩

/-- Cells do not overlap. -/
theorem inCell_unique {r r' : Nat} {k : Fin 64} (h : InCell r k) (h' : InCell r' k) : r = r' := by
  unfold InCell at h h'
  omega

/-- **The words of a buffer are independent cells.** -/
theorem cellStore : CellStore putWord HoldsWord where
  holds_put := by
    intro b r word
    by_cases hr : r.val = 0
    · obtain rfl : r = cellOf 0 := Fin.ext hr
      refine ⟨rfl, fun _ => ⟨rfl, rfl, rfl, rfl⟩, ?_⟩
      rintro k ⟨hne, -⟩
      exact absurd rfl hne
    · rw [putWord_of_ne_zero b hr]
      refine ⟨rfl, fun h0 => absurd h0 hr, ?_⟩
      intro k hk
      exact if_pos hk
  holds_put_of_ne := by
    rintro b r r' word word' hne ⟨-, hheader, hdata⟩
    have hval : r.val ≠ r'.val := fun heq => hne (Fin.ext heq)
    by_cases hr : r'.val = 0
    · obtain rfl : r' = cellOf 0 := Fin.ext hr
      exact ⟨rfl, fun h0 => absurd h0 hval, hdata⟩
    · rw [putWord_of_ne_zero b hr]
      refine ⟨rfl, hheader, ?_⟩
      intro k hk
      have hout : ¬ InCell r'.val k := fun hk' => hval (inCell_unique hk hk')
      exact (if_neg hout).trans (hdata k hk)
  put_eq_self := by
    rintro b r word ⟨hvalid, hheader, hdata⟩
    by_cases hr : r.val = 0
    · obtain rfl : r = cellOf 0 := Fin.ext hr
      obtain ⟨hid, hide, hrtr, hfdf⟩ := hheader rfl
      rw [putWord_zero, ← hvalid, ← hid, ← hide, ← hrtr, ← hfdf]
    · have hsame : (fun k => if InCell r.val k then
          word.extractLsb' (8 * (k.val + 8 - 16 * r.val)) 8 else b.data k) = b.data := by
        funext k
        by_cases hk : InCell r.val k
        · rw [if_pos hk, hdata k hk]
        · rw [if_neg hk]
      rw [putWord_of_ne_zero b hr, hsame, ← hvalid]

end TxBuf

/-! ### From the bus to the cells -/

namespace Scoreboard

/-- An address past the register block reaches no register. -/
theorem txBufs_writeReg (m : RefModel) {addr : BitVec 32} (h : 0x0100#32 ≤ addr)
    (data : BitVec 32) : (m.writeReg addr data).txBufs = m.txBufs := by
  rcases m.writeReg_cases addr data with ⟨hreset, -⟩ | ⟨-, ⟨rfl, -⟩ | ⟨rfl, -⟩ | ⟨-, -, hsame⟩⟩
  · have haddr : addr = 0x0000#32 := by
      simp only [isSoftReset, Bool.and_eq_true, decide_eq_true_eq] at hreset
      exact hreset.1
    rw [haddr] at h
    exact absurd h (by decide)
  · exact absurd h (by decide)
  · exact absurd h (by decide)
  · exact hsame.txBufs

/-- A write to the TX buffer region reaches one cell of one buffer. -/
theorem txBufs_writeRefModel (m : RefModel) {n : Nat} (hn : n < 1024) (word : BitVec 32)
    (c : Fin 32) :
    (writeRefModel m (0x0100#32 + BitVec.ofNat 32 (4 * n)) word).txBufs c =
      if c.val = n / 4 then (m.txBufs c).putWord (TxBuf.cellOf n) word else m.txBufs c := by
  set addr := 0x0100#32 + BitVec.ofNat 32 (4 * n) with haddr
  have hnat : addr.toNat = 256 + 4 * n := by
    rw [haddr, BitVec.toNat_add, BitVec.toNat_ofNat]
    simp
    omega
  have hregion : 0x0100#32 ≤ addr ∧ addr ≤ 0x1FFF#32 := by
    rw [BitVec.le_def, BitVec.le_def, hnat]
    simp
    omega
  have hsub : addr - 0x0100#32 = BitVec.ofNat 32 (4 * n) := by
    rw [haddr, add_sub_cancel_left]
  have hmul : (4 * n) % 2 ^ 32 = 4 * n := Nat.mod_eq_of_lt (by omega)
  have hidx : ((addr - 0x0100#32) / 16#32).toInt = (n / 4 : Nat) := by
    rw [hsub, BitVec.toInt_eq_toNat_of_lt, BitVec.toNat_udiv, BitVec.toNat_ofNat, hmul]
    · simp
      omega
    · rw [BitVec.toNat_udiv, BitVec.toNat_ofNat, hmul]
      simp
      omega
  have hoffset : (addr - 0x0100#32) % 16#32 = BitVec.ofNat 32 (4 * (TxBuf.cellOf n).val) := by
    rw [hsub]
    apply BitVec.eq_of_toNat_eq
    rw [BitVec.toNat_umod, BitVec.toNat_ofNat, BitVec.toNat_ofNat, hmul]
    simp
    omega
  rw [writeRefModel, if_pos hregion, RefModel.txBufs_writeTxBuf, txBufs_writeReg m hregion.1,
    hidx, hoffset]
  simp only [Nat.cast_inj]
  rfl

/-- The cells of buffer `c` that words written from buffer `b` on reach, with the
words that reach them. -/
def cellWrites (b : Nat) (c : Fin 32) (words : List (BitVec 32 × Nat)) :
    List (Fin 4 × BitVec 32) :=
  (words.filter fun w => c.val = b + w.2 / 4).map fun w => (TxBuf.cellOf w.2, w.1)

/-- The writes of consecutive words, word `p` at byte `4 * p` from the base of buffer `b`. -/
def wordWrites (resp : Nat → Axi4liteResp) (b : Nat) (words : List (BitVec 32 × Nat)) :
    List ScbOp :=
  words.map fun (word, p) =>
    .axi ⟨.write, TxMsg.baseAddr b + BitVec.ofNat 32 (4 * p), word, resp p⟩

/-- **Drawn as asked for, the buffer writes of a message are writes of consecutive words.** -/
theorem asked_bufferWrites (resp : Nat → Axi4liteResp) (b : Nat) (msg : TxMsg) :
    (asked resp (msg.bufferWrites b)).map ScbOp.axi = wordWrites resp b msg.words.zipIdx := by
  apply List.ext_getElem
  · simp [asked, TxMsg.bufferWrites, wordWrites]
  · intro p hp hp'
    simp [asked, TxMsg.bufferWrites, wordWrites, regWrite, SingleAccess.item]

theorem wordAddr_eq (b p : Nat) : TxMsg.baseAddr b + BitVec.ofNat 32 (4 * p) =
    0x0100#32 + BitVec.ofNat 32 (4 * (4 * b + p)) := by
  apply BitVec.eq_of_toNat_eq
  simp only [TxMsg.baseAddr, BitVec.toNat_add, BitVec.toNat_mul, BitVec.toNat_ofNat]
  omega

/-- **A batch of word writes is a batch of cell writes in each buffer.** -/
theorem txBufs_wordWrites (resp : Nat → Axi4liteResp) {b : Nat} (hb : b < 32) (c : Fin 32)
    (words : List (BitVec 32 × Nat)) (hfit : ∀ w ∈ words, w.2 < 512) (s : Scoreboard) :
    (run step s (wordWrites resp b words)).refModel.txBufs c =
      putAll TxBuf.putWord (s.refModel.txBufs c) (cellWrites b c words) := by
  induction words generalizing s with
  | nil => rfl
  | cons w words ih =>
    obtain ⟨word, p⟩ := w
    have hp : p < 512 := hfit _ List.mem_cons_self
    have haddr := wordAddr_eq b p
    have hcell : TxBuf.cellOf (4 * b + p) = TxBuf.cellOf p := by
      apply Fin.ext
      simp
    have hone := txBufs_writeRefModel s.refModel (n := 4 * b + p) (by omega) word c
    have hdiv : (4 * b + p) / 4 = b + p / 4 := by omega
    rw [hcell, hdiv, ← haddr] at hone
    rw [wordWrites, List.map_cons, run_cons, ← wordWrites,
      ih fun w hw => hfit w (List.mem_cons_of_mem _ hw)]
    simp only [step, refModel_processAxi4liteTr, hone, cellWrites]
    by_cases hc : c.val = b + p / 4
    · rw [if_pos hc, List.filter_cons_of_pos (by simpa using hc)]
      rfl
    · rw [if_neg hc, List.filter_cons_of_neg (by simpa using hc)]

/-- Which cells are reached, and by which words. -/
theorem mem_cellWrites {b : Nat} {c : Fin 32} {words : List (BitVec 32)} {r : Fin 4}
    {word : BitVec 32} :
    (r, word) ∈ cellWrites b c words.zipIdx ↔
      b ≤ c.val ∧ words[4 * (c.val - b) + r.val]? = some word := by
  simp only [cellWrites, List.mem_map, List.mem_filter, decide_eq_true_eq, Prod.mk.injEq,
    Prod.exists, List.mem_zipIdx_iff_getElem?]
  constructor
  · rintro ⟨word', p, ⟨hget, hc⟩, rfl, rfl⟩
    have hr : (TxBuf.cellOf p).val = p % 4 := rfl
    refine ⟨by omega, ?_⟩
    rw [hr, show 4 * (c.val - b) + p % 4 = p by omega, hget]
  · rintro ⟨hbc, hget⟩
    refine ⟨word, 4 * (c.val - b) + r.val, ⟨hget, by omega⟩, ?_, rfl⟩
    apply Fin.ext
    show (4 * (c.val - b) + r.val) % 4 = r.val
    omega

/-- No cell is reached twice. -/
theorem nodup_cellWrites (b : Nat) (c : Fin 32) (words : List (BitVec 32)) :
    ((cellWrites b c words.zipIdx).map Prod.fst).Nodup := by
  have hnodup : words.zipIdx.Nodup := by
    refine List.Nodup.of_map Prod.snd ?_
    rw [List.zipIdx_map_snd]
    exact List.nodup_range'
  rw [cellWrites, List.map_map]
  refine List.Nodup.map_on ?_ (hnodup.filter _)
  rintro ⟨word, p⟩ hw ⟨word', p'⟩ hw' heq
  simp only [List.mem_filter, decide_eq_true_eq, List.mem_zipIdx_iff_getElem?] at hw hw'
  have hmod : p % 4 = p' % 4 := congrArg Fin.val heq
  obtain rfl : p = p' := by omega
  rw [hw.1] at hw'
  simpa using hw'.1

end Scoreboard

/-! ### The words of a message -/

namespace TxMsg

open Testcase

theorem headerWord_getLsbD (msg : TxMsg) (i : Nat) :
    msg.headerWord.getLsbD i =
      if i < 29 then msg.id.getLsbD i
      else (BitVec.ofBool msg.ide ++ BitVec.ofBool (!msg.fdf) ++ BitVec.ofBool msg.fdf).getLsbD
        (i - 29) := by
  exact BitVec.getLsbD_append

theorem headerWord_fields (msg : TxMsg) :
    msg.headerWord.setWidth 29 = msg.id ∧ msg.headerWord.getLsbD 31 = msg.ide ∧
      msg.headerWord.getLsbD 30 = !msg.fdf ∧ msg.headerWord.getLsbD 29 = msg.fdf := by
  refine ⟨?_, ?_, ?_, ?_⟩
  · apply BitVec.eq_of_getLsbD_eq
    intro i hi
    rw [BitVec.getLsbD_setWidth, headerWord_getLsbD, if_pos hi]
    simp [hi]
  all_goals
    rw [headerWord_getLsbD]
    cases msg.ide <;> cases msg.fdf <;> rfl

/-- One byte of a packed word. -/
theorem append_byte (b3 b2 b1 b0 : BitVec 8) {j : Nat} (hj : j < 4) :
    (b3 ++ b2 ++ b1 ++ b0 : BitVec (8 + 8 + 8 + 8)).extractLsb' (8 * j) 8 =
      if j = 0 then b0 else if j = 1 then b1 else if j = 2 then b2 else b3 := by
  apply BitVec.eq_of_getLsbD_eq
  intro t ht
  rw [BitVec.getLsbD_extractLsb', decide_eq_true ht, Bool.true_and, BitVec.getLsbD_append,
    BitVec.getLsbD_append, BitVec.getLsbD_append]
  interval_cases j
  · rw [if_pos (by omega), Nat.mul_zero, Nat.zero_add]
    rfl
  · rw [if_neg (by omega), if_pos (by omega), Nat.mul_one, Nat.add_sub_cancel_left]
    rfl
  · rw [if_neg (by omega), if_neg (by omega), if_pos (by omega), show 8 * 2 + t - 8 - 8 = t by omega]
    rfl
  · rw [if_neg (by omega), if_neg (by omega), if_neg (by omega),
      show 8 * 3 + t - 8 - 8 - 8 = t by omega]
    rfl

theorem payloadWord_byte (msg : TxMsg) (i : Nat) {j : Nat} (hj : j < 4) :
    (msg.payloadWord i).extractLsb' (8 * j) 8 = msg.data[i + j]?.getD 0 := by
  refine (append_byte _ _ _ _ hj).trans ?_
  interval_cases j <;> rfl

theorem words_add_two (msg : TxMsg) (q : Nat) (h : 4 * q < msg.data.length) :
    msg.words[2 + q]? = some (msg.payloadWord (4 * q)) := by
  have hq : q < (msg.data.length + 3) / 4 := by omega
  simp [TxMsg.words, TxMsg.payloadWords, Nat.add_comm 2 q, hq]

end TxMsg

/-! ### Encoding a message -/

section Encoding

variable (bufs bufs' : Fin 32 → TxBuf) (b : Fin 32) (msg : TxMsg)

/-- What the writes of a message are meant to achieve: buffer `b` holds the message, and
no other buffer changes. -/
structure Encoded : Prop where
  valid : (bufs' b).valid = true
  id : (bufs' b).id = msg.id
  ide : (bufs' b).ide = msg.ide
  fdf : (bufs' b).fdf = msg.fdf
  brs : (bufs' b).brs = msg.brs
  dlc : (bufs' b).dlc = msg.dlc
  rtr : (bufs' b).rtr = false
  data : ∀ k : Fin 64, ∀ h : k.val < msg.data.length, (bufs' b).data k = msg.data[k.val]
  others : ∀ c, c ≠ b → bufs' c = bufs c

/-- The byte at payload position `k` of buffer `b` after the writes of a message that
reaches it: DLC word at 8, first and second payload word at 24 and 40. -/
def landedByte (k : Fin 64) : BitVec 8 :=
  if TxBuf.InCell 1 k then msg.dlcWord.extractLsb' (8 * (k.val - 8)) 8
  else if TxBuf.InCell 2 k then msg.data[k.val - 24]?.getD 0
  else if TxBuf.InCell 3 k then msg.data[k.val - 36]?.getD 0
  else (bufs b).data k

/-- The buffers and messages on which the two layouts lead to the same result. DLC and
BRS are never written, the payload is read where it lands, and what spills over from
the fifth word on is there already. -/
structure AlreadyEncoded : Prop where
  fdf : msg.fdf = true
  brs : (bufs b).brs = msg.brs
  dlc : (bufs b).dlc = msg.dlc
  payload : ∀ k : Fin 64, ∀ h : k.val < msg.data.length, msg.data[k.val] = landedByte bufs b msg k
  spill : ∀ p word, 4 ≤ p → msg.words[p]? = some word → ∀ c : Fin 32, c.val = b.val + p / 4 →
    (bufs c).HoldsWord (TxBuf.cellOf p) word

end Encoding

namespace Scoreboard

open TxMsg

/-- The buffers after the scoreboard has processed transactions. -/
def bufsAfter (s : Scoreboard) (trs : List Axi4liteTrans) : Fin 32 → TxBuf :=
  (run step s (trs.map .axi)).refModel.txBufs

/-! ### What the randomizer may draw -/

section Drawn

variable (s : Scoreboard) (b : Fin 32) (msg : TxMsg)

/-- A header word of a remote frame. -/
def remoteWord : BitVec 32 := 0x40000000#32

/-- The header of buffer `b` alone, written over and over with a header of a remote frame. -/
def remoteWrites (n : Nat) : List Axi4liteTrans :=
  List.replicate n ⟨.write, TxMsg.baseAddr b, remoteWord, .okay⟩

theorem issues_remoteWrites :
    Issues (msg.bufferWrites b) (remoteWrites b msg.words.length) := by
  have haligned : (TxMsg.baseAddr b).extractLsb' 0 2 = 0#2 := by
    revert b
    decide
  have hlength : msg.words.length = (msg.words.zipIdx).length := List.length_zipIdx.symm
  rw [Issues, TxMsg.bufferWrites, remoteWrites, hlength, ← List.map_const',
    List.forall₂_map_left_iff, List.forall₂_map_right_iff, List.forall₂_same]
  rintro ⟨word, p⟩ -
  exact SingleAccess.issues_iff.mpr ⟨rfl, haligned⟩

theorem rtr_remoteWrites (n : Nat) : (bufsAfter s (remoteWrites b (n + 1)) b).rtr = true := by
  have hlast := txBufs_writeRefModel (run step s ((remoteWrites b n).map .axi)).refModel
    (n := 4 * b.val) (by omega) remoteWord b
  have haddr := wordAddr_eq b 0
  have hcell : TxBuf.cellOf (4 * b.val) = TxBuf.cellOf 0 := Fin.ext (by simp)
  rw [Nat.mul_zero, BitVec.add_zero, Nat.add_zero] at haddr
  rw [if_pos (by omega), hcell, TxBuf.putWord_zero, ← haddr] at hlast
  rw [bufsAfter, remoteWrites, List.replicate_succ', ← remoteWrites, List.map_append, run_append]
  simp only [List.map_cons, List.map_nil, run_cons, run_nil, step, refModel_processAxi4liteTr]
  rw [hlast]
  rfl

end Drawn

/-! ### What is asked for -/

section Filled

variable (s : Scoreboard) (resp : Nat → Axi4liteResp) (b : Fin 32) (msg : TxMsg)

/-- The buffers after the writes of `canfd_tx_msg`, drawn as asked for. -/
def filledBufs : Fin 32 → TxBuf := bufsAfter s (asked resp (msg.bufferWrites b))

variable (hlen : msg.data.length = Canphy.dlcToBytes msg.dlc)
include hlen

theorem filledBufs_eq (c : Fin 32) :
    filledBufs s resp b msg c =
      putAll TxBuf.putWord (s.refModel.txBufs c) (cellWrites b c msg.words.zipIdx) := by
  have hfit : ∀ w ∈ msg.words.zipIdx, w.2 < 512 := by
    intro w hw
    have hpos : w.2 < msg.words.length := by
      have := List.mem_zipIdx hw
      omega
    have hwords : msg.words.length = 2 + (msg.data.length + 3) / 4 := by
      simp [TxMsg.words, TxMsg.payloadWords]
      omega
    have h64 := Canphy.dlcToBytes_le msg.dlc
    omega
  rw [filledBufs, bufsAfter, asked_bufferWrites, txBufs_wordWrites resp b.isLt c _ hfit]

/-- Buffer `b` holds its first four words. -/
theorem holdsWord_filledBufs {r : Fin 4} {word : BitVec 32} (h : msg.words[r.val]? = some word) :
    (filledBufs s resp b msg b).HoldsWord r word := by
  rw [filledBufs_eq s resp b msg hlen]
  refine TxBuf.cellStore.holds_putAll (nodup_cellWrites b b msg.words) _ (r, word) ?_
  rw [mem_cellWrites]
  exact ⟨le_rfl, by rwa [Nat.sub_self, Nat.mul_zero, Nat.zero_add]⟩

/-- DLC, BRS and the payload bytes outside the written cells stay. -/
theorem filledBufs_unwritten :
    (filledBufs s resp b msg b).brs = (s.refModel.txBufs b).brs ∧
      (filledBufs s resp b msg b).dlc = (s.refModel.txBufs b).dlc ∧
      ∀ k, (∀ r : Fin 4, TxBuf.InCell r.val k → msg.words[r.val]? = none) →
        (filledBufs s resp b msg b).data k = (s.refModel.txBufs b).data k := by
  rw [filledBufs_eq s resp b msg hlen]
  refine ⟨putAll_const (f := TxBuf.brs) (fun buf w _ => (buf.putWord_unwritten w.1 w.2).1) _,
    putAll_const (f := TxBuf.dlc) (fun buf w _ => (buf.putWord_unwritten w.1 w.2).2.1) _,
    fun k hk => putAll_const (f := fun buf : TxBuf => buf.data k) ?_ _⟩
  rintro buf ⟨r, word⟩ hw
  apply (buf.putWord_unwritten r word).2.2 k
  intro hcell
  obtain ⟨-, hget⟩ := mem_cellWrites.mp hw
  rw [Nat.sub_self, Nat.mul_zero, Nat.zero_add, hk r hcell] at hget
  cases hget

/-- The cell of payload word `q` holds payload bytes `4 * q` to `4 * q + 3`. -/
theorem data_filledBufs_payload {q : Nat} (hq : q < 2) (hlt : 4 * q < msg.data.length) {k : Fin 64}
    (hcell : TxBuf.InCell (2 + q) k) :
    (filledBufs s resp b msg b).data k = msg.data[4 * q + (k.val + 8 - 16 * (2 + q))]?.getD 0 := by
  have hr : (TxBuf.cellOf (2 + q)).val = 2 + q := Nat.mod_eq_of_lt (by omega)
  have hword : msg.words[(TxBuf.cellOf (2 + q)).val]? = some (msg.payloadWord (4 * q)) := by
    rw [hr]
    exact words_add_two msg q hlt
  have hholds := (holdsWord_filledBufs s resp b msg hlen hword).2.2 k
  rw [hr] at hholds
  rw [hholds hcell]
  obtain ⟨-, -, hhi⟩ := hcell
  exact payloadWord_byte msg (4 * q) (by omega)

/-- Every payload position a message reaches holds the byte that lands there. -/
theorem data_filledBufs {k : Fin 64} (hk : k.val < msg.data.length) :
    (filledBufs s resp b msg b).data k = landedByte s.refModel.txBufs b msg k := by
  unfold landedByte
  by_cases h1 : TxBuf.InCell 1 k
  · rw [if_pos h1]
    exact (holdsWord_filledBufs s resp b msg hlen (r := TxBuf.cellOf 1) rfl).2.2 k h1
  rw [if_neg h1]
  by_cases h2 : TxBuf.InCell 2 k
  · have hlo := h2.2.1
    rw [if_pos h2, data_filledBufs_payload s resp b msg hlen (q := 0) (by omega) (by omega) h2,
      show 4 * 0 + (k.val + 8 - 16 * (2 + 0)) = k.val - 24 by omega]
  rw [if_neg h2]
  by_cases h3 : TxBuf.InCell 3 k
  · have hlo := h3.2.1
    rw [if_pos h3, data_filledBufs_payload s resp b msg hlen (q := 1) (by omega) (by omega) h3,
      show 4 * 1 + (k.val + 8 - 16 * (2 + 1)) = k.val - 36 by omega]
  rw [if_neg h3]
  apply (filledBufs_unwritten s resp b msg hlen).2.2 k
  intro r hcell
  fin_cases r
  · exact absurd rfl hcell.1
  · exact absurd hcell h1
  · exact absurd hcell h2
  · exact absurd hcell h3

/-- The other buffers stay iff what reaches them is there already. -/
theorem filledBufs_others_iff :
    (∀ c, c ≠ b → filledBufs s resp b msg c = s.refModel.txBufs c) ↔
      ∀ p word, 4 ≤ p → msg.words[p]? = some word → ∀ c : Fin 32, c.val = b.val + p / 4 →
        (s.refModel.txBufs c).HoldsWord (TxBuf.cellOf p) word := by
  have hiff : ∀ c, filledBufs s resp b msg c = s.refModel.txBufs c ↔
      ∀ w ∈ cellWrites b c msg.words.zipIdx, (s.refModel.txBufs c).HoldsWord w.1 w.2 := by
    intro c
    rw [filledBufs_eq s resp b msg hlen]
    exact TxBuf.cellStore.putAll_eq_self_iff (nodup_cellWrites b c msg.words) _
  simp only [hiff, Prod.forall, mem_cellWrites]
  constructor
  · intro h p word hp hget c hc
    have hr : (TxBuf.cellOf p).val = p % 4 := rfl
    refine h c (fun hcb => ?_) _ _ ⟨by omega, ?_⟩
    · rw [hcb] at hc
      omega
    · rw [hr, show 4 * (c.val - b.val) + p % 4 = p by omega, hget]
  · rintro h c hne r word ⟨hbc, hget⟩
    have hlt : b.val < c.val := lt_of_le_of_ne hbc fun heq => hne (Fin.ext heq.symm)
    have hcell : TxBuf.cellOf (4 * (c.val - b.val) + r.val) = r := by
      apply Fin.ext
      show (4 * (c.val - b.val) + r.val) % 4 = r.val
      omega
    have := h (4 * (c.val - b.val) + r.val) word (by omega) hget c (by omega)
    rwa [hcell] at this

/-- The writes asked for encode the message iff the buffers and the message agree with the
layout the scoreboard decodes. -/
theorem encoded_filledBufs_iff :
    Encoded s.refModel.txBufs (filledBufs s resp b msg) b msg ↔
      AlreadyEncoded s.refModel.txBufs b msg := by
  obtain ⟨hvalid, hheader, -⟩ := holdsWord_filledBufs s resp b msg hlen (r := TxBuf.cellOf 0) rfl
  obtain ⟨hid, hide, hrtr, hfdf⟩ := hheader rfl
  obtain ⟨hid', hide', hrtr', hfdf'⟩ := headerWord_fields msg
  obtain ⟨hbrs, hdlc, -⟩ := filledBufs_unwritten s resp b msg hlen
  constructor
  · intro h
    refine ⟨?_, hbrs ▸ h.brs, hdlc ▸ h.dlc, fun k hk => ?_,
      (filledBufs_others_iff s resp b msg hlen).mp h.others⟩
    · have hnot := hrtr.symm.trans h.rtr
      rw [hrtr'] at hnot
      simpa using hnot
    · rw [← data_filledBufs s resp b msg hlen hk, h.data k hk]
  · intro h
    exact { valid := hvalid, id := hid.trans hid', ide := hide.trans hide', fdf := hfdf.trans hfdf'
            brs := hbrs.trans h.brs, dlc := hdlc.trans h.dlc
            rtr := by rw [hrtr, hrtr', h.fdf]; rfl
            data := fun k hk => (data_filledBufs s resp b msg hlen hk).trans (h.payload k hk).symm
            others := (filledBufs_others_iff s resp b msg hlen).mpr h.spill }

/-- **No message is encoded by all the writes that may be issued for it; the writes asked for
encode it iff the buffers and the message agree with the layout the scoreboard decodes.** -/
theorem encoded_iff :
    (¬ ∀ trs, Issues (msg.bufferWrites b) trs →
      Encoded s.refModel.txBufs (bufsAfter s trs) b msg) ∧
    (Encoded s.refModel.txBufs (filledBufs s resp b msg) b msg ↔
      AlreadyEncoded s.refModel.txBufs b msg) := by
  refine ⟨fun hall => ?_, encoded_filledBufs_iff s resp b msg hlen⟩
  have hremote : (bufsAfter s (remoteWrites b msg.words.length) b).rtr = true :=
    rtr_remoteWrites s b (msg.dlcWord :: msg.payloadWords).length
  rw [(hall _ (issues_remoteWrites b msg)).rtr] at hremote
  exact Bool.false_ne_true hremote

end Filled

/-- An FD message without payload, as a fresh buffer encodes it. -/
def emptyFdMsg : TxMsg :=
  { id := 0x123, ide := false, fdf := true, brs := false, dlc := 0, data := [] }

theorem emptyFdMsg_encoded :
    Encoded ({} : Scoreboard).refModel.txBufs (filledBufs {} (fun _ => .okay) 0 emptyFdMsg) 0
        emptyFdMsg ∧
      ¬ ∀ trs, Issues (emptyFdMsg.bufferWrites 0) trs →
        Encoded ({} : Scoreboard).refModel.txBufs (bufsAfter {} trs) 0 emptyFdMsg := by
  obtain ⟨hnever, hasked⟩ := encoded_iff {} (fun _ => .okay) 0 emptyFdMsg rfl
  refine ⟨hasked.mpr ?_, hnever⟩
  exact
    { fdf := rfl
      brs := rfl
      dlc := rfl
      payload := fun _ h => absurd h (Nat.not_lt_zero _)
      spill := by
        intro p word hp hget
        have htwo : emptyFdMsg.words.length = 2 := rfl
        rw [List.getElem?_eq_none (by omega)] at hget
        cases hget }

/-- An FD message with one payload byte. -/
def oneByteMsg : TxMsg :=
  { id := 0x123, ide := false, fdf := true, brs := false, dlc := 1, data := [0xAB] }

/-- The randomizer may draw what it is asked for, and then the DLC does not reach the buffer. -/
theorem oneByteMsg_not_encoded :
    Issues (oneByteMsg.bufferWrites 0) (asked (fun _ => .okay) (oneByteMsg.bufferWrites 0)) ∧
      ¬ Encoded ({} : Scoreboard).refModel.txBufs (filledBufs {} (fun _ => .okay) 0 oneByteMsg) 0
        oneByteMsg := by
  refine ⟨issues_asked _ (by decide), fun h => ?_⟩
  have hdlc : (filledBufs {} (fun _ => .okay) 0 oneByteMsg 0).dlc = 0 := by decide +kernel
  rw [h.dlc] at hdlc
  exact absurd hdlc (by decide)

end Scoreboard

end Testbench.Canfd
