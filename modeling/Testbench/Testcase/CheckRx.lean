import Testbench.Canfd.TxBuffer

/-!
`canfd_check_rx` (`canfd/testcase/sequence_lib/canfd_common_task_function.sv`) against the
layout in which `canfd_tx_msg` writes a message.

Each `reg_read` gets the word at the address its item is drawn with, which is any word-aligned
one. What the check asks for is in `canfdCheckRx_pass_iff`, for the words it gets, and
`decodes_iff` is about all of them and about those at the addresses asked for. There the sender
packs four bytes in a word while the check looks for each byte in a word of its own
(`seenByte`), and the word with the DLC is not read. Up to one byte the two agree.
-/

namespace Testbench.Testcase

open Testbench.Canfd Testbench.Axi4lite

/-- The words of the DUT, by address. -/
abbrev WordMemory := BitVec 32 → BitVec 32

/-- What `canfd_check_rx` expects. -/
structure ExpectedRx where
  id : BitVec 29
  dlc : BitVec 4
  data : List (BitVec 8)
  deriving DecidableEq

/-- The outcome of a check, with the identifiers that its error message has. -/
structure CheckResult where
  pass : Bool
  mismatch : Option (BitVec 29 × BitVec 29)

/-! ### The check -/

/-- The `n`-th read of the task: the word with the identifier, then one for each byte. -/
def checkRead : Nat → SingleAccess
  | 0 => regRead 0x2000#32
  | i + 1 => regRead (0x2008#32 + BitVec.ofNat 32 (i * 4))

/-- The items the reads are drawn with. -/
structure CheckDraw where
  req : Nat → DriverItem
  solution : ∀ n, (checkRead n).Solution (req n)

/-- A draw of these addresses. -/
def CheckDraw.ofAddrs (addr : Nat → BitVec 32) (aligned : ∀ n, (addr n).extractLsb' 0 2 = 0#2) :
    CheckDraw where
  req n := (regRead (addr n)).item
  solution n := SingleAccess.solution_iff.mpr ⟨by cases n <;> rfl, aligned n, rfl⟩

theorem CheckDraw.aligned (draw : CheckDraw) (n : Nat) :
    (draw.req n).addr.extractLsb' 0 2 = 0#2 := (draw.solution n).aligned

/-- What the `n`-th read returns. -/
def CheckDraw.rxData (draw : CheckDraw) (mem : WordMemory) (n : Nat) : BitVec 32 :=
  mem (draw.req n).addr

/-- The loop over the expected bytes, from byte `i` on. -/
def checkBytes (rxData : Nat → BitVec 32) : Nat → List (BitVec 8) → Bool
  | _, [] => true
  | i, byte :: rest =>
      if (rxData (i + 1)).setWidth 8 ≠ byte then false else checkBytes rxData (i + 1) rest

/-- `canfd_check_rx`, with what its reads return. Its `got_dlc` is taken from the word with the
identifier and compared with nothing. -/
def canfdCheckRx (rxData : Nat → BitVec 32) (expected : ExpectedRx) : CheckResult :=
  let gotId := (rxData 0).setWidth 29
  let pass :=
    if gotId = expected.id ∧ 0 < expected.data.length then checkBytes rxData 0 expected.data
    else decide (gotId = expected.id)
  { pass := pass, mismatch := if pass then none else some (expected.id, gotId) }

/-! ### Stored messages -/

/-- The message space holds the words of a message; what is behind them is not known. -/
def Stores (mem : WordMemory) (msg : TxMsg) : Prop :=
  ∀ (p : Nat) (word : BitVec 32), msg.words[p]? = some word →
    mem (0x2000#32 + BitVec.ofNat 32 (4 * p)) = word

/-- What a check of the message would expect. -/
def TxMsg.expected (msg : TxMsg) : ExpectedRx where
  id := msg.id
  dlc := msg.dlc
  data := msg.data

/-- **The check decodes the stored message**, whichever of the draws it is made with: it passes
iff that is the expected one. -/
structure Decodes (draws : CheckDraw → Prop) (mem : WordMemory) (msg : TxMsg)
    (expected : ExpectedRx) : Prop where
  accepts : expected = msg.expected → ∀ draw, draws draw →
    (canfdCheckRx (draw.rxData mem) expected).pass = true
  rejects : expected ≠ msg.expected → ∀ draw, draws draw →
    (canfdCheckRx (draw.rxData mem) expected).pass = false

/-- The addresses asked for. -/
def askedDraw : CheckDraw where
  req n := (checkRead n).item
  solution n := SingleAccess.solution_item (by
    cases n with
    | zero => decide
    | succ i =>
      apply BitVec.eq_of_toNat_eq
      simp only [checkRead, regRead, SingleAccess.item, BitVec.extractLsb'_toNat,
        BitVec.toNat_add, BitVec.toNat_ofNat]
      omega)

/-- The byte the check compares with byte `i`: byte `4 * i` of the message, or what is in the
memory behind it. -/
def seenByte (mem : WordMemory) (msg : TxMsg) (i : Nat) : BitVec 8 :=
  if h : 4 * i < msg.data.length then msg.data[4 * i]
  else (mem (0x2008#32 + BitVec.ofNat 32 (i * 4))).setWidth 8

/-! ### What the check asks for -/

/-- The loop passes iff each expected byte is the low byte of its word. -/
theorem checkBytes_iff (rxData : Nat → BitVec 32) (i : Nat) (data : List (BitVec 8)) :
    checkBytes rxData i data = true ↔
      ∀ (k : Nat) (hk : k < data.length), (rxData (i + k + 1)).setWidth 8 = data[k] := by
  induction data generalizing i with
  | nil => simp [checkBytes]
  | cons byte rest ih =>
    rw [checkBytes]
    split_ifs with hbyte
    · refine iff_of_false not_false fun hall => hbyte ?_
      exact hall 0 (Nat.zero_lt_succ _)
    · rw [not_not] at hbyte
      rw [ih]
      constructor
      · intro hrest k hk
        cases k with
        | zero => exact hbyte
        | succ k =>
          have hnext := hrest k (Nat.lt_of_succ_lt_succ hk)
          rwa [Nat.add_right_comm i 1 k] at hnext
      · intro hall k hk
        have hnext := hall (k + 1) (Nat.succ_lt_succ hk)
        rwa [← Nat.add_assoc, Nat.add_right_comm i k 1] at hnext

/-- **What the check asks for**: the identifier, and each expected byte in a word of its own. -/
theorem canfdCheckRx_pass_iff (rxData : Nat → BitVec 32) (expected : ExpectedRx) :
    (canfdCheckRx rxData expected).pass = true ↔ (rxData 0).setWidth 29 = expected.id ∧
      ∀ (i : Nat) (hi : i < expected.data.length),
        (rxData (i + 1)).setWidth 8 = expected.data[i] := by
  have hbytes := checkBytes_iff rxData 0 expected.data
  simp only [Nat.zero_add] at hbytes
  unfold canfdCheckRx
  dsimp only
  rw [← hbytes]
  split_ifs with hid
  · rw [and_iff_right hid.1]
  · rw [decide_eq_true_iff]
    refine ⟨fun heq => ⟨heq, ?_⟩, And.left⟩
    have hempty : expected.data = [] := by
      rw [not_and, not_lt, Nat.le_zero, List.length_eq_zero_iff] at hid
      exact hid heq
    rw [hempty, checkBytes]

/-! ### Any draw -/

section Drawn

variable {mem : WordMemory} {expected : ExpectedRx}

/-- The check passes with every draw iff every word it may get is right. -/
theorem passes_iff : (∀ draw : CheckDraw, (canfdCheckRx (draw.rxData mem) expected).pass = true) ↔
    ∀ a : BitVec 32, a.extractLsb' 0 2 = 0#2 →
      (mem a).setWidth 29 = expected.id ∧ ∀ byte ∈ expected.data, (mem a).setWidth 8 = byte := by
  constructor
  · intro hpass a ha
    -- all reads drawn at the one address
    have hword := (canfdCheckRx_pass_iff _ _).mp (hpass (.ofAddrs (fun _ => a) fun _ => ha))
    refine ⟨hword.1, fun byte hbyte => ?_⟩
    obtain ⟨i, hi, rfl⟩ := List.getElem_of_mem hbyte
    exact hword.2 i hi
  · intro hall draw
    exact (canfdCheckRx_pass_iff _ _).mpr ⟨(hall _ (draw.aligned 0)).1,
      fun i hi => (hall _ (draw.aligned (i + 1))).2 _ (List.getElem_mem hi)⟩

/-- The check passes with some draw iff for the identifier and for each of the bytes some word
is right. -/
theorem exists_passes_iff :
    (∃ draw : CheckDraw, (canfdCheckRx (draw.rxData mem) expected).pass = true) ↔
      (∃ a : BitVec 32, a.extractLsb' 0 2 = 0#2 ∧ (mem a).setWidth 29 = expected.id) ∧
        ∀ byte ∈ expected.data, ∃ a : BitVec 32, a.extractLsb' 0 2 = 0#2 ∧
          (mem a).setWidth 8 = byte := by
  constructor
  · rintro ⟨draw, hpass⟩
    obtain ⟨hid, hbytes⟩ := (canfdCheckRx_pass_iff _ _).mp hpass
    refine ⟨⟨_, draw.aligned 0, hid⟩, fun byte hbyte => ?_⟩
    obtain ⟨i, hi, rfl⟩ := List.getElem_of_mem hbyte
    exact ⟨_, draw.aligned (i + 1), hbytes i hi⟩
  · rintro ⟨⟨idAddr, hidAddr, hid⟩, hbytes⟩
    choose! byteAddr hbyteAddr hbyte using hbytes
    let addr : Nat → BitVec 32
      | 0 => idAddr
      | i + 1 => if h : i < expected.data.length then byteAddr expected.data[i] else idAddr
    have haddr : ∀ n, (addr n).extractLsb' 0 2 = 0#2 := by
      intro n
      cases n with
      | zero => exact hidAddr
      | succ i =>
        dsimp only [addr]
        split_ifs with h
        · exact hbyteAddr _ (List.getElem_mem h)
        · exact hidAddr
    refine ⟨.ofAddrs addr haddr, (canfdCheckRx_pass_iff _ _).mpr ⟨hid, fun i hi => ?_⟩⟩
    have hdrawn : addr (i + 1) = byteAddr expected.data[i] := dif_pos hi
    show (mem (addr (i + 1))).setWidth 8 = _
    rw [hdrawn]
    exact hbyte _ (List.getElem_mem hi)

/-- The check fails with every draw iff no word it may get is right, for the identifier or for
one of the bytes. -/
theorem fails_iff : (∀ draw : CheckDraw, (canfdCheckRx (draw.rxData mem) expected).pass = false) ↔
    (∀ a : BitVec 32, a.extractLsb' 0 2 = 0#2 → (mem a).setWidth 29 ≠ expected.id) ∨
      ∃ byte ∈ expected.data, ∀ a : BitVec 32, a.extractLsb' 0 2 = 0#2 →
        (mem a).setWidth 8 ≠ byte := by
  have hsome := not_congr (@exists_passes_iff mem expected)
  rw [not_and_or] at hsome
  push Not at hsome
  simpa only [ne_eq, Bool.not_eq_true] using hsome

end Drawn

/-! ### What the check sees -/

section Check

variable {mem : WordMemory} {msg : TxMsg}

theorem wordAddress (i : Nat) : 0x2008#32 + BitVec.ofNat 32 (i * 4) =
    0x2000#32 + BitVec.ofNat 32 (4 * (2 + i)) := by
  apply BitVec.eq_of_toNat_eq
  simp only [BitVec.toNat_add, BitVec.toNat_ofNat]
  omega

/-- The low byte of a payload word is the first of its four bytes. -/
theorem setWidth_payloadWord (msg : TxMsg) (i : Nat) :
    (msg.payloadWord i).setWidth 8 = msg.data[i]?.getD 0 := by
  have hbyte := Canfd.TxMsg.payloadWord_byte msg i (j := 0) (by decide)
  rw [Nat.mul_zero, Nat.add_zero] at hbyte
  rw [← hbyte]
  ext j hj
  simp [BitVec.getElem_extractLsb']

theorem seenByte_eq (h : Stores mem msg) (i : Nat) :
    (mem (0x2008#32 + BitVec.ofNat 32 (i * 4))).setWidth 8 = seenByte mem msg i := by
  unfold seenByte
  split_ifs with hi
  · rw [wordAddress, h (2 + i) _ (Canfd.TxMsg.words_add_two msg i hi), setWidth_payloadWord,
      List.getElem?_eq_getElem hi, Option.getD_some]
  · rfl

theorem storedId (h : Stores mem msg) : (mem 0x2000#32).setWidth 29 = msg.id := by
  have hword : mem (0x2000#32 + BitVec.ofNat 32 (4 * 0)) = msg.headerWord := h 0 _ rfl
  have haddr : 0x2000#32 + BitVec.ofNat 32 (4 * 0) = 0x2000#32 := by decide
  rw [haddr] at hword
  rw [hword]
  exact (Canfd.TxMsg.headerWord_fields msg).1

/-- The bytes the check sees where it asks for them. -/
theorem asked_rxData (h : Stores mem msg) (i : Nat) :
    (askedDraw.rxData mem (i + 1)).setWidth 8 = seenByte mem msg i := seenByte_eq h i

/-- **Drawn as asked for, the check decodes the stored message iff, for the message itself, the
bytes it sees are those of the message, and for any other, the identifier or a byte it sees is
different.** -/
theorem decodes_asked_iff (h : Stores mem msg) (expected : ExpectedRx) :
    Decodes (· = askedDraw) mem msg expected ↔
      (expected = msg.expected → ∀ (i : Nat) (hi : i < msg.data.length),
        seenByte mem msg i = msg.data[i]) ∧
      (expected ≠ msg.expected → msg.id ≠ expected.id ∨
        ∃ (i : Nat) (hi : i < expected.data.length), seenByte mem msg i ≠ expected.data[i]) := by
  have hpass := canfdCheckRx_pass_iff (askedDraw.rxData mem) expected
  have hid : (askedDraw.rxData mem 0).setWidth 29 = msg.id := storedId h
  simp only [hid, asked_rxData h] at hpass
  constructor
  · intro hd
    refine ⟨?_, fun hne => ?_⟩
    · rintro rfl
      exact (hpass.mp (hd.accepts rfl _ rfl)).2
    · have hfail := mt hpass.mpr (Bool.eq_false_iff.mp (hd.rejects hne _ rfl))
      by_contra hall
      push Not at hall
      exact hfail hall
  · rintro ⟨hsame, hother⟩
    refine ⟨?_, fun hne => ?_⟩
    · rintro rfl draw rfl
      exact hpass.mpr ⟨rfl, hsame rfl⟩
    · rintro draw rfl
      refine Bool.eq_false_iff.mpr fun htrue => ?_
      obtain ⟨hid, hbytes⟩ := hpass.mp htrue
      rcases hother hne with hne | ⟨i, hi, hne⟩
      · exact hne hid
      · exact hne (hbytes i hi)

/-- Where it is asked for, a message of one byte at most is accepted. -/
theorem accepts_of_length_le_one (h : Stores mem msg) (hlength : msg.data.length ≤ 1) :
    (canfdCheckRx (askedDraw.rxData mem) msg.expected).pass = true := by
  refine (canfdCheckRx_pass_iff _ _).mpr ⟨storedId h, fun i hi => ?_⟩
  have hi' : i < msg.data.length := hi
  obtain rfl : i = 0 := by omega
  rw [asked_rxData h]
  exact dif_pos hi'

/-- **When the check decodes the stored message**, with every draw and drawn as asked for. -/
theorem decodes_iff (h : Stores mem msg) (expected : ExpectedRx) :
    (Decodes (fun _ => True) mem msg expected ↔
      (expected = msg.expected → ∀ a : BitVec 32, a.extractLsb' 0 2 = 0#2 →
        (mem a).setWidth 29 = msg.id ∧ ∀ byte ∈ msg.data, (mem a).setWidth 8 = byte) ∧
      (expected ≠ msg.expected →
        (∀ a : BitVec 32, a.extractLsb' 0 2 = 0#2 → (mem a).setWidth 29 ≠ expected.id) ∨
        ∃ byte ∈ expected.data, ∀ a : BitVec 32, a.extractLsb' 0 2 = 0#2 →
          (mem a).setWidth 8 ≠ byte)) ∧
    (Decodes (· = askedDraw) mem msg expected ↔
      (expected = msg.expected → ∀ (i : Nat) (hi : i < msg.data.length),
        seenByte mem msg i = msg.data[i]) ∧
      (expected ≠ msg.expected → msg.id ≠ expected.id ∨
        ∃ (i : Nat) (hi : i < expected.data.length), seenByte mem msg i ≠ expected.data[i])) := by
  refine ⟨?_, decodes_asked_iff h expected⟩
  constructor
  · intro hd
    refine ⟨?_, fun hne => fails_iff.mp fun draw => hd.rejects hne draw trivial⟩
    rintro rfl
    exact passes_iff.mp fun draw => hd.accepts rfl draw trivial
  · rintro ⟨hsame, hother⟩
    refine ⟨?_, fun hne draw _ => fails_iff.mpr (hother hne) draw⟩
    rintro rfl draw -
    exact passes_iff.mpr (hsame rfl) draw

end Check

/-! ### Short messages -/

/-- The memory with the words of a message, and 0 behind them. -/
def memoryOf (msg : TxMsg) : WordMemory := fun addr =>
  msg.words[(addr - 0x2000#32).toNat / 4]?.getD 0

theorem stores_memoryOf (msg : TxMsg) (hlength : msg.words.length ≤ 2 ^ 30) :
    Stores (memoryOf msg) msg := by
  intro p word hword
  have hp : p < msg.words.length := (List.getElem?_eq_some_iff.mp hword).1
  have haddr : (0x2000#32 + BitVec.ofNat 32 (4 * p) - 0x2000#32).toNat / 4 = p := by
    simp only [BitVec.toNat_sub, BitVec.toNat_add, BitVec.toNat_ofNat]
    omega
  rw [memoryOf, haddr, hword, Option.getD_some]

/-- A data frame with these bytes. -/
def shortMsg (id : BitVec 29) (dlc : BitVec 4) (data : List (BitVec 8)) : TxMsg where
  id := id
  ide := false
  fdf := false
  brs := false
  dlc := dlc
  data := data

/-- With identifier 0 and no data every word is right. -/
theorem memoryOf_zero (a : BitVec 32) : (memoryOf (shortMsg 0 0 []) a).setWidth 29 = 0#29 := by
  unfold memoryOf
  rcases (a - 0x2000#32).toNat / 4 with _ | _ | p
  · decide
  · decide
  · rfl

/-- A message that every draw accepts, and one that is accepted where it is asked for. -/
theorem decodes_short :
    Decodes (fun _ => True) (memoryOf (shortMsg 0 0 [])) (shortMsg 0 0 [])
        (shortMsg 0 0 []).expected ∧
      Decodes (· = askedDraw) (memoryOf (shortMsg 0x123 1 [0x11])) (shortMsg 0x123 1 [0x11])
        (shortMsg 0x123 1 [0x11]).expected := by
  have hempty := decodes_iff (stores_memoryOf (shortMsg 0 0 []) (by decide))
    (shortMsg 0 0 []).expected
  have hone := decodes_iff (stores_memoryOf (shortMsg 0x123 1 [0x11]) (by decide))
    (shortMsg 0x123 1 [0x11]).expected
  refine ⟨hempty.1.mpr ⟨fun _ a _ => ⟨memoryOf_zero a, fun byte hbyte => ?_⟩,
    fun hne => absurd rfl hne⟩, hone.2.mpr ⟨fun _ i hi => ?_, fun hne => absurd rfl hne⟩⟩
  · exact absurd hbyte List.not_mem_nil
  · obtain rfl : i = 0 := Nat.lt_one_iff.mp hi
    rfl

/-- Of two bytes the second is looked for in the word behind them, where it is asked for. -/
theorem two_bytes_not_decoded :
    Stores (memoryOf (shortMsg 0x123 2 [0x11, 0x22])) (shortMsg 0x123 2 [0x11, 0x22]) ∧
      (canfdCheckRx (askedDraw.rxData (memoryOf (shortMsg 0x123 2 [0x11, 0x22])))
        (shortMsg 0x123 2 [0x11, 0x22]).expected).pass = false ∧
      ¬ Decodes (fun _ => True) (memoryOf (shortMsg 0x123 2 [0x11, 0x22]))
        (shortMsg 0x123 2 [0x11, 0x22]) (shortMsg 0x123 2 [0x11, 0x22]).expected := by
  have hfail : (canfdCheckRx (askedDraw.rxData (memoryOf (shortMsg 0x123 2 [0x11, 0x22])))
      (shortMsg 0x123 2 [0x11, 0x22]).expected).pass = false := by decide
  refine ⟨stores_memoryOf _ (by decide), hfail, fun h => ?_⟩
  rw [h.accepts rfl askedDraw trivial] at hfail
  exact absurd hfail (by decide)

end Testbench.Testcase
