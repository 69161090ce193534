import Testbench.Lib.BoundedQueue
import Testbench.Canfd.Operations

/-!
The two RX FIFOs.

`fifoEvent` says what an operation means to one FIFO, `fifo_effect` that it has
just that effect; the refinement of the abstract bounded queue
(`rxFifo_refines`) is then the library's rule. `fsrMirrors_step` does the same for
the FSR mirror, which holds the two depths modulo 64.
-/

namespace Testbench.Canfd

open Testbench.Lib Testbench.Canphy

/-- A message carries every field of the frame it was made from, the payload padded
with zeros, and the time of its reception. -/
structure Carries (msg : RxMsg) (tr : CanphyTrans) (tsr : BitVec 16) : Prop where
  id : msg.id = tr.canId
  ide : msg.ide = tr.ide
  rtr : msg.rtr = tr.rtr
  fdf : msg.fdf = tr.fdf
  brs : msg.brs = tr.brs
  esi : msg.esi = tr.esi
  dlc : msg.dlc = tr.dlc
  data : List.ofFn msg.data =
    tr.data.map LogicByte.toBits ++ List.replicate (64 - tr.data.length) 0
  timestamp : msg.timestamp = tsr

namespace RefModel

/-- The stored message loses nothing of a frame with at most 64 payload bytes. -/
theorem rxMsgOf_carries {tr : CanphyTrans} (h : tr.data.length ≤ 64) (tsr : BitVec 16) :
    Carries (rxMsgOf tr tsr) tr tsr where
  id := rfl
  ide := rfl
  rtr := rfl
  fdf := rfl
  brs := rfl
  esi := rfl
  dlc := rfl
  timestamp := rfl
  data := by
    apply List.ext_getElem
    · simp only [List.length_ofFn, List.length_append, List.length_map, List.length_replicate]
      omega
    · intro i h1 h2
      rw [List.getElem_ofFn]
      by_cases hi : i < tr.data.length
      · simp [rxMsgOf, hi, List.getElem_append_left]
      · rw [List.getElem_append_right (by simpa using hi), List.getElem_replicate]
        simp [rxMsgOf, hi, LogicByte.toBits]

/-! ### One FIFO -/

def fifo (m : RefModel) (k : Fin 2) : List RxMsg :=
  if k.val = 0 then m.rxFifo0 else m.rxFifo1

def filters (m : RefModel) (k : Fin 2) : Fin 32 → Filter :=
  if k.val = 0 then m.filters0 else m.filters1

/-- The frame reaches FIFO `k`: a data or remote frame its filters accept. -/
def offers (k : Fin 2) (m : RefModel) (tr : CanphyTrans) : Bool :=
  tr.isDataOrRemote && checkFilter tr (m.filters k)

/-- What an operation means to FIFO `k`. A read of an empty FIFO takes nothing. -/
def fifoEvent (k : Fin 2) (m : RefModel) (op : RefOp) :
    QueueEvent (CanphyTrans × BitVec 16) RxMsg :=
  match op with
  | .received tr => if m.offers k tr then .offer (tr, m.tsr) else .idle
  | .readRxFifo fifoId =>
      if fifoId = (k : Nat) ∧ m.fifo k ≠ [] then .take (m.readRxFifo fifoId).1 else .idle
  | op => if op.softReset then .clear else .idle

/-- The message stored for an accepted frame. -/
def stored (a : CanphyTrans × BitVec 16) : RxMsg := rxMsgOf a.1 a.2

/-- A FIFO after a frame that reaches it or not: appended while there is room. -/
def pushed (fifo : List RxMsg) (matched : Bool) (msg : RxMsg) : List RxMsg :=
  if matched = true ∧ fifo.length < 64 then fifo ++ [msg] else fifo

/-- The FIFO0 half appends to FIFO0 while it has room and otherwise reports the overflow. -/
theorem receiveFifo0_fifos (m : RefModel) (tr : CanphyTrans) (matched0 : Bool) :
    (m.receiveFifo0 tr matched0).rxFifo0 = pushed m.rxFifo0 matched0 (rxMsgOf tr m.tsr) ∧
      (m.receiveFifo0 tr matched0).rxFifo1 = m.rxFifo1 ∧
      (m.receiveFifo0 tr matched0).tsr = m.tsr ∧
      (matched0 = true → 64 ≤ m.rxFifo0.length →
        (m.receiveFifo0 tr matched0).ISR.getLsbD 4 = true) := by
  unfold receiveFifo0 pushed rxFifo0Depth
  by_cases hroom : matched0 = true ∧ m.rxFifo0.length < 64
  · rw [if_pos hroom, if_pos hroom]
    exact ⟨rfl, rfl, rfl, fun _ h => absurd hroom.2 (not_lt.mpr h)⟩
  · rw [if_neg hroom, if_neg hroom]
    by_cases hfull : matched0 = true ∧ 64 ≤ m.rxFifo0.length
    · rw [if_pos hfull]
      exact ⟨rfl, rfl, rfl, fun _ _ => getLsbD_setBit_self (by decide)⟩
    · rw [if_neg hfull]
      refine ⟨rfl, rfl, rfl, ?_⟩
      intro hmatch hlen
      exact absurd ⟨hmatch, hlen⟩ hfull

/-- The FIFO1 half does the same and never withdraws a reported overflow. -/
theorem receiveFifo1_fifos (m : RefModel) (tr : CanphyTrans) (matched1 : Bool) :
    (m.receiveFifo1 tr matched1).rxFifo1 = pushed m.rxFifo1 matched1 (rxMsgOf tr m.tsr) ∧
      (m.receiveFifo1 tr matched1).rxFifo0 = m.rxFifo0 ∧
      (m.ISR.getLsbD 4 = true ∨ matched1 = true ∧ 64 ≤ m.rxFifo1.length →
        (m.receiveFifo1 tr matched1).ISR.getLsbD 4 = true) := by
  unfold receiveFifo1 pushed rxFifo1Depth
  by_cases hroom : matched1 = true ∧ m.rxFifo1.length < 64
  · rw [if_pos hroom, if_pos hroom]
    refine ⟨rfl, rfl, ?_⟩
    rintro (hovf | ⟨-, hfull⟩)
    · exact hovf
    · exact absurd hroom.2 (not_lt.mpr hfull)
  · rw [if_neg hroom, if_neg hroom]
    by_cases hfull : matched1 = true ∧ 64 ≤ m.rxFifo1.length
    · rw [if_pos hfull]
      exact ⟨rfl, rfl, fun _ => getLsbD_setBit_self (by decide)⟩
    · rw [if_neg hfull]
      refine ⟨rfl, rfl, ?_⟩
      rintro (hovf | hfull')
      · exact hovf
      · exact absurd hfull' hfull

theorem onCanFrameReceived_of_not_dataOrRemote (m : RefModel) {tr : CanphyTrans}
    (h : tr.isDataOrRemote = false) : m.onCanFrameReceived tr = m := by
  unfold onCanFrameReceived
  rw [if_pos (by simpa [CanphyTrans.isDataOrRemote, or_iff_not_imp_left] using h)]

theorem onCanFrameReceived_of_dataOrRemote (m : RefModel) {tr : CanphyTrans}
    (h : tr.isDataOrRemote = true) :
    m.onCanFrameReceived tr =
      (m.receiveFifo0 tr (checkFilter tr m.filters0)).receiveFifo1 tr
        (checkFilter tr m.filters1) := by
  unfold onCanFrameReceived
  rw [if_neg (by simpa [CanphyTrans.isDataOrRemote] using h)]

/-- **A reception appends to each FIFO the frame reaches while it has room.** -/
theorem fifo_received (m : RefModel) (tr : CanphyTrans) (k : Fin 2) :
    (m.onCanFrameReceived tr).fifo k =
      pushed (m.fifo k) (m.offers k tr) (rxMsgOf tr m.tsr) := by
  cases hframe : tr.isDataOrRemote with
  | false =>
    rw [onCanFrameReceived_of_not_dataOrRemote m hframe]
    simp [offers, hframe, pushed]
  | true =>
    obtain ⟨h00, h01, htsr, -⟩ := receiveFifo0_fifos m tr (checkFilter tr m.filters0)
    obtain ⟨h11, h10, -⟩ := receiveFifo1_fifos (m.receiveFifo0 tr (checkFilter tr m.filters0)) tr
      (checkFilter tr m.filters1)
    rw [onCanFrameReceived_of_dataOrRemote m hframe]
    match k with
    | 0 => exact (h10.trans h00).trans (by simp [offers, hframe, filters, fifo])
    | 1 => exact h11.trans (by rw [h01, htsr]; simp [offers, hframe, filters, fifo])

/-- A matching frame that meets a full FIFO raises the overflow interrupt. -/
theorem overflow_received (m : RefModel) (tr : CanphyTrans) (k : Fin 2)
    (hoffer : m.offers k tr = true) (hfull : 64 ≤ (m.fifo k).length) :
    (m.onCanFrameReceived tr).ISR.getLsbD 4 = true := by
  obtain ⟨hframe, hmatch⟩ := (Bool.and_eq_true _ _).mp hoffer
  obtain ⟨-, h01, -, hovf0⟩ := receiveFifo0_fifos m tr (checkFilter tr m.filters0)
  obtain ⟨-, -, hovf1⟩ := receiveFifo1_fifos (m.receiveFifo0 tr (checkFilter tr m.filters0)) tr
    (checkFilter tr m.filters1)
  rw [onCanFrameReceived_of_dataOrRemote m hframe]
  match k with
  | 0 => exact hovf1 (Or.inl (hovf0 hmatch hfull))
  | 1 => exact hovf1 (Or.inr ⟨hmatch, by rw [h01]; exact hfull⟩)

/-- Operations of the other sides leave both FIFOs alone. -/
theorem fifo_step_of_not_receiveSide (m : RefModel) {op : RefOp} (hreset : op.softReset = false)
    (hside : op.receiveSide = false) (k : Fin 2) : (m.step op).fifo k = m.fifo k := by
  have hkeeps := m.step_keepsSides hreset
  rw [fifo, fifo, hkeeps.rxFifo0 hside, hkeeps.rxFifo1 hside]

/-- A read of a non-empty FIFO takes its head. -/
theorem readRxFifo_of_cons (m : RefModel) (k : Fin 2) {msg : RxMsg} {rest : List RxMsg}
    (h : m.fifo k = msg :: rest) :
    (m.readRxFifo (k : Nat)).1 = msg ∧ (m.readRxFifo (k : Nat)).2.fifo k = rest := by
  match k with
  | 0 =>
    have h : m.rxFifo0 = msg :: rest := h
    simp [readRxFifo, h, fifo, updateFifoStatus]
  | 1 =>
    have h : m.rxFifo1 = msg :: rest := h
    simp [readRxFifo, h, fifo, updateFifoStatus]

/-- Any other read leaves the FIFO alone. -/
theorem fifo_readRxFifo_of_not (m : RefModel) (fifoId : Int) (k : Fin 2)
    (h : ¬ (fifoId = (k : Nat) ∧ m.fifo k ≠ [])) :
    (m.readRxFifo fifoId).2.fifo k = m.fifo k := by
  unfold readRxFifo
  match k with
  | 0 =>
    have h0 : ¬ (fifoId = 0 ∧ 0 < m.rxFifo0.length) := fun h' =>
      h ⟨h'.1, List.length_pos_iff.mp h'.2⟩
    rw [if_neg h0]
    split <;> rfl
  | 1 =>
    have h1 : ¬ (fifoId = 1 ∧ 0 < m.rxFifo1.length) := fun h' =>
      h ⟨h'.1, List.length_pos_iff.mp h'.2⟩
    rw [if_neg h1]
    split <;> rfl

/-- **Every operation has on FIFO `k` the effect its event announces.** -/
theorem fifo_effect (k : Fin 2) (m : RefModel) (op : RefOp) :
    Effect 64 stored (m.fifo k) ((m.step op).fifo k) (fifoEvent k m op) := by
  cases hreset : op.softReset with
  | true =>
    have hevent : fifoEvent k m op = .clear := by
      cases op with
      | writeReg addr data => exact if_pos hreset
      | _ => cases hreset
    rw [hevent, m.step_softReset hreset]
    exact ite_self _
  | false =>
    have hidle := m.fifo_step_of_not_receiveSide hreset
    cases op with
    | received tr =>
      have hfifo := m.fifo_received tr k
      simp only [fifoEvent, step]
      cases hoffer : m.offers k tr with
      | false => rw [hfifo, hoffer]; rfl
      | true => rw [hfifo, hoffer]; simp [Effect, pushed, stored]
    | readRxFifo fifoId =>
      simp only [fifoEvent, step]
      by_cases hread : fifoId = (k : Nat) ∧ m.fifo k ≠ []
      · obtain ⟨rfl, hne⟩ := hread
        obtain ⟨msg, rest, hcons⟩ := List.exists_cons_of_ne_nil hne
        obtain ⟨hmsg, hrest⟩ := m.readRxFifo_of_cons k hcons
        rw [if_pos ⟨rfl, hne⟩, hmsg, hrest, hcons]
        rfl
      · rw [if_neg hread, m.fifo_readRxFifo_of_not fifoId k hread]
        rfl
    | _ =>
      simp only [fifoEvent, hreset, Bool.false_eq_true, if_false]
      exact hidle rfl k

/-- What FIFO `k` owes its user in a state, when `q` is the history of what it accepted
and gave up since the last reset and `events` what happened to it. -/
structure RefinesQueue (k : Fin 2) (m : RefModel)
    (events : List (QueueEvent (CanphyTrans × BitVec 16) RxMsg))
    (q : BoundedQueue (CanphyTrans × BitVec 16) 64) : Prop where
  content : m.fifo k = q.content.map stored
  delivered : delivered events = (q.accepted.take q.taken).map stored
  read : m.fifo k ≠ [] → ∃ tr tsr, q.accepted[q.taken]? = some (tr, tsr) ∧
    (tr.data.length ≤ 64 → Carries (m.readRxFifo (k : Nat)).1 tr tsr)
  full : ∀ tr, m.offers k tr = true → (m.fifo k).length = 64 →
    (m.onCanFrameReceived tr).fifo k = m.fifo k ∧
      (m.onCanFrameReceived tr).ISR.getLsbD 4 = true
  flagFrame : ∀ tr, tr.frameType = .errorFrame ∨ tr.frameType = .overloadFrame →
    m.onCanFrameReceived tr = m

/-- **Each RX FIFO is a bounded queue of capacity 64 since the last reset**, whatever
happens to the other one and to the rest of the model in between. -/
theorem rxFifo_refines (bufs : Fin 32 → TxBuf) (f0 f1 : Fin 32 → Filter) (ops : List RefOp)
    (k : Fin 2) :
    let events := trace step (fifoEvent k) (preset bufs f0 f1) ops
    RefinesQueue k (run step (preset bufs f0 f1) ops) events
      (run BoundedQueue.step BoundedQueue.empty events) := by
  intro events
  have hempty : (preset bufs f0 f1).fifo k = [] := ite_self _
  obtain ⟨hcontent, hout⟩ := run_refines (fifo_effect k) hempty ops
  set q : BoundedQueue (CanphyTrans × BitVec 16) 64 :=
    run BoundedQueue.step BoundedQueue.empty events
  set m := run step (preset bufs f0 f1) ops
  refine ⟨hcontent, hout, ?_, ?_, ?_⟩
  · intro hne
    obtain ⟨msg, rest, hcons⟩ := List.exists_cons_of_ne_nil hne
    obtain ⟨⟨tr, tsr⟩, rest', hq, hmsg, -⟩ := List.map_eq_cons_iff.mp (hcontent.symm.trans hcons)
    have holdest : q.accepted[q.taken]? = some (tr, tsr) := by
      rw [← q.head?_content, hq]
      rfl
    refine ⟨tr, tsr, holdest, ?_⟩
    intro hsize
    rw [(m.readRxFifo_of_cons k hcons).1, ← hmsg]
    exact rxMsgOf_carries hsize tsr
  · intro tr hoffer hlen
    have hfull : ¬ (m.offers k tr = true ∧ (m.fifo k).length < 64) := by
      rintro ⟨-, hlt⟩
      omega
    refine ⟨?_, m.overflow_received tr k hoffer (le_of_eq hlen.symm)⟩
    rw [fifo_received, pushed, if_neg hfull]
  · intro tr hflag
    apply m.onCanFrameReceived_of_not_dataOrRemote
    rcases hflag with h | h <;> simp [CanphyTrans.isDataOrRemote, h]

/-! ### The depth mirror -/

/-- The FSR value for two depths: each keeps six bits. -/
def fsrOf (depth0 depth1 : Nat) : BitVec 32 :=
  (BitVec.ofNat 6 depth1 ++ BitVec.ofNat 6 depth0).setWidth 32

/-- **FSR determines the depths modulo 64.** -/
theorem fsrOf_eq_iff (d0 d1 e0 e1 : Nat) :
    fsrOf d0 d1 = fsrOf e0 e1 ↔ d0 % 64 = e0 % 64 ∧ d1 % 64 = e1 % 64 := by
  have hnat : ∀ a b : Nat, (fsrOf a b).toNat = b % 64 * 64 + a % 64 := by
    intro a b
    have hlt : a % 2 ^ 6 < 2 ^ 6 := Nat.mod_lt _ (by decide)
    simp only [fsrOf, BitVec.toNat_setWidth, BitVec.toNat_append, BitVec.toNat_ofNat]
    rw [← Nat.shiftLeft_add_eq_or_of_lt hlt, Nat.shiftLeft_eq]
    omega
  rw [← BitVec.toNat_inj, hnat, hnat]
  omega

/-- FSR holds the depths of the two FIFOs. -/
def FsrMirrors (m : RefModel) : Prop := m.FSR = fsrOf (m.fifo 0).length (m.fifo 1).length

theorem fsrMirrors_updateFifoStatus (m : RefModel) : FsrMirrors m.updateFifoStatus := rfl

/-- A reception updates FSR exactly when it changes a FIFO. -/
theorem fsrMirrors_received {m : RefModel} (h : FsrMirrors m) (tr : CanphyTrans) :
    FsrMirrors (m.onCanFrameReceived tr) := by
  have h0 : ∀ {m : RefModel} b, FsrMirrors m → FsrMirrors (m.receiveFifo0 tr b) := by
    intro m b h
    unfold receiveFifo0
    split
    · exact fsrMirrors_updateFifoStatus _
    · split <;> exact h
  have h1 : ∀ {m : RefModel} b, FsrMirrors m → FsrMirrors (m.receiveFifo1 tr b) := by
    intro m b h
    unfold receiveFifo1
    split
    · exact fsrMirrors_updateFifoStatus _
    · split <;> exact h
  unfold onCanFrameReceived
  split
  · exact h
  · exact h1 _ (h0 _ h)

theorem fsrMirrors_readRxFifo {m : RefModel} (h : FsrMirrors m) (fifoId : Int) :
    FsrMirrors (m.readRxFifo fifoId).2 := by
  unfold readRxFifo
  split
  · exact fsrMirrors_updateFifoStatus _
  · split
    · exact fsrMirrors_updateFifoStatus _
    · exact h

/-- **Every operation keeps the mirror.** -/
theorem fsrMirrors_step (m : RefModel) (op : RefOp) (h : FsrMirrors m) :
    FsrMirrors (m.step op) := by
  cases hreset : op.softReset with
  | true =>
    rw [m.step_softReset hreset]
    rfl
  | false =>
    have hidle : op.receiveSide = false → FsrMirrors (m.step op) := by
      intro hside
      have hfifo := m.fifo_step_of_not_receiveSide hreset hside
      rw [FsrMirrors, (m.step_keepsSides hreset).FSR hside, hfifo, hfifo]
      exact h
    cases op with
    | received tr => exact fsrMirrors_received h tr
    | readRxFifo fifoId => exact fsrMirrors_readRxFifo h fifoId
    | _ => exact hidle rfl

/-- The operation does not store a frame into a FIFO that holds 63 already. -/
def LeavesRoom (m : RefModel) (op : RefOp) : Prop :=
  ∀ k tr, op = .received tr → m.offers k tr = true → (m.fifo k).length ≠ 63

/-- Only a received frame is offered to a FIFO. -/
theorem received_of_offer {k : Fin 2} {m : RefModel} {op : RefOp} {a : CanphyTrans × BitVec 16}
    (h : fifoEvent k m op = .offer a) : ∃ tr, op = .received tr ∧ m.offers k tr = true := by
  unfold fifoEvent at h
  split at h
  · next tr =>
    by_cases hoffer : m.offers k tr = true
    · exact ⟨tr, rfl, hoffer⟩
    · rw [if_neg hoffer] at h
      cases h
  · split at h <;> cases h
  · split at h <;> cases h

/-- Depths six bits can hold, mirrored by FSR. -/
structure ExactFsr (m : RefModel) : Prop where
  mirrors : FsrMirrors m
  below : ∀ k, (m.fifo k).length < 64

theorem exactFsr_step (m : RefModel) (op : RefOp) (h : ExactFsr m) (hroom : LeavesRoom m op) :
    ExactFsr (m.step op) := by
  refine ⟨fsrMirrors_step m op h.mirrors, ?_⟩
  intro k
  have heff := fifo_effect k m op
  have hlt := h.below k
  cases hevent : fifoEvent k m op with
  | offer a =>
    obtain ⟨tr, rfl, hoffer⟩ := received_of_offer hevent
    have hne := hroom k tr rfl hoffer
    simp only [hevent, Effect, hlt, if_true] at heff
    rw [heff, List.length_append, List.length_singleton]
    omega
  | take out =>
    simp only [hevent, Effect] at heff
    rw [heff, List.length_cons] at hlt
    omega
  | clear =>
    simp only [hevent, Effect] at heff
    rw [heff]
    exact Nat.zero_lt_succ _
  | idle =>
    simp only [hevent, Effect] at heff
    rw [heff]
    exact hlt

theorem exactFsr_preset (bufs : Fin 32 → TxBuf) (f0 f1 : Fin 32 → Filter) :
    ExactFsr (preset bufs f0 f1) where
  mirrors := show (0 : BitVec 32) = fsrOf 0 0 by decide
  below := by
    intro k
    have hempty : (preset bufs f0 f1).fifo k = [] := ite_self _
    rw [hempty]
    exact Nat.zero_lt_succ _

theorem readReg_fsr (m : RefModel) : m.readReg 0x00E8#32 = m.FSR := rfl

/-- **While no frame fills a FIFO, FSR determines the depths of both**, and is zero iff
both are empty. -/
theorem fsr_determines_depths {bufs bufs' : Fin 32 → TxBuf} {f0 f1 f0' f1' : Fin 32 → Filter}
    {ops ops' : List RefOp} (h : Along step LeavesRoom (preset bufs f0 f1) ops)
    (h' : Along step LeavesRoom (preset bufs' f0' f1') ops') :
    let m := run step (preset bufs f0 f1) ops
    let m' := run step (preset bufs' f0' f1') ops'
    (m.readReg 0x00E8#32 = m'.readReg 0x00E8#32 →
        ∀ k, (m.fifo k).length = (m'.fifo k).length) ∧
      (m.readReg 0x00E8#32 = 0 ↔ ∀ k, m.fifo k = []) := by
  intro m m'
  obtain ⟨hfsr, hlt⟩ : ExactFsr m :=
    along_invariant exactFsr_step (exactFsr_preset bufs f0 f1) h
  obtain ⟨hfsr', hlt'⟩ : ExactFsr m' :=
    along_invariant exactFsr_step (exactFsr_preset bufs' f0' f1') h'
  have hzero : (0 : BitVec 32) = fsrOf 0 0 := by decide
  rw [readReg_fsr, readReg_fsr, hfsr, hfsr', fsrOf_eq_iff, hzero, fsrOf_eq_iff]
  simp only [Fin.forall_fin_two, ← List.length_eq_zero_iff] at hlt hlt' ⊢
  exact ⟨by omega, by omega⟩

/-- One frame in each FIFO against none: the runs meet the condition. -/
theorem fsr_determines_depths_one_zero :
    let m := run step new [.received { canId := 0x100 }]
    let m' := run step new []
    (m.readReg 0x00E8#32 = m'.readReg 0x00E8#32 →
        ∀ k, (m.fifo k).length = (m'.fifo k).length) ∧
      (m.readReg 0x00E8#32 = 0 ↔ ∀ k, m.fifo k = []) :=
  fsr_determines_depths ⟨fun k _ _ _ => by fin_cases k <;> decide, trivial⟩ trivial

/-- After 64 receptions both FIFOs are full and FSR reads as on an empty model. -/
theorem fsr_full_eq_empty :
    let full := run step new (List.replicate 64 (.received { canId := 0x100 }))
    full.readReg 0x00E8#32 = new.readReg 0x00E8#32 ∧
      (full.fifo 0).length = 64 ∧ (full.fifo 1).length = 64 ∧ (new.fifo 0).length = 0 := by
  decide +kernel

end RefModel

end Testbench.Canfd
