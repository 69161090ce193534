import Testbench.Axi4lite.Channels

/-!
`axi4lite_monitor` (`canfd/uvc/axi4lite/axi4lite_monitor.sv`).

The monitor folds each request channel into one register and one flag. `Follows` relates
that to the queues of `Bus`: a register holds what its queue holds as long as no word is
handed over while the one before it waits for its response. `published_iff` says that this
is the only way to lose a transaction: every word that overwrites another is missing from
the count of those published.
-/

namespace Testbench.Axi4lite

open Testbench.Lib

/-- The variables of `run_phase` and what went to `mon_analysis_port`. -/
structure Monitor where
  awAddrQ : BitVec 32 := 0
  arAddrQ : BitVec 32 := 0
  wDataQ : BitVec 32 := 0
  awDone : Bool := false
  wDone : Bool := false
  arDone : Bool := false
  published : List Axi4liteTrans := []

namespace Monitor

def sampleAw (m : Monitor) (x : AxiSample) : Monitor :=
  if x.awvalid && x.awready then { m with awAddrQ := x.awaddr, awDone := true } else m

def sampleW (m : Monitor) (x : AxiSample) : Monitor :=
  if x.wvalid && x.wready then { m with wDataQ := x.wdata, wDone := true } else m

def sampleAr (m : Monitor) (x : AxiSample) : Monitor :=
  if x.arvalid && x.arready then { m with arAddrQ := x.araddr, arDone := true } else m

def reportWrite (m : Monitor) (x : AxiSample) : Monitor :=
  if m.awDone && m.wDone && x.bvalid && x.bready then
    { m with
      published := m.published ++
        [{ dir := .write, addr := m.awAddrQ, data := m.wDataQ, resp := respOf x.bresp }]
      awDone := false
      wDone := false }
  else m

def reportRead (m : Monitor) (x : AxiSample) : Monitor :=
  if m.arDone && x.rvalid && x.rready then
    { m with
      published := m.published ++
        [{ dir := .read, addr := m.arAddrQ, data := x.rdata, resp := respOf x.rresp }]
      arDone := false }
  else m

/-- One iteration of the loop of `run_phase`. -/
def step (m : Monitor) (x : AxiSample) : Monitor :=
  ((((m.sampleAw x).sampleW x).reportWrite x).sampleAr x).reportRead x

@[simp] theorem wDone_sampleAw (m : Monitor) (x : AxiSample) :
    (m.sampleAw x).wDone = m.wDone := by
  unfold sampleAw
  split <;> rfl

@[simp] theorem arDone_sampleAw (m : Monitor) (x : AxiSample) :
    (m.sampleAw x).arDone = m.arDone := by
  unfold sampleAw
  split <;> rfl

@[simp] theorem arDone_sampleW (m : Monitor) (x : AxiSample) :
    (m.sampleW x).arDone = m.arDone := by
  unfold sampleW
  split <;> rfl

@[simp] theorem arDone_reportWrite (m : Monitor) (x : AxiSample) :
    (m.reportWrite x).arDone = m.arDone := by
  unfold reportWrite
  split <;> rfl

/-! ### Registers and queues -/

/-- What a register and its flag stand for. -/
def pending (done : Bool) (reg : BitVec 32) : List (BitVec 32) := if done then [reg] else []

/-- The registers hold the queues and everything completed has been published. -/
structure Follows (m : Monitor) (b : Bus) : Prop where
  aw : b.aw = pending m.awDone m.awAddrQ
  w : b.w = pending m.wDone m.wDataQ
  ar : b.ar = pending m.arDone m.arAddrQ
  published : m.published = b.completed

end Monitor

/-- No word is handed over before the one ahead of it on its channel is answered. -/
structure Bus.NoOverlap (b : Bus) (x : AxiSample) : Prop where
  aw : x.awHandshake.isSome → b.aw = []
  w : x.wHandshake.isSome → b.w = []
  ar : x.arHandshake.isSome → b.ar = []

namespace Monitor

/-- No register is loaded while its flag is up. -/
structure Intact (m : Monitor) (x : AxiSample) : Prop where
  aw : x.awHandshake.isSome → m.awDone = false
  w : x.wHandshake.isSome → m.wDone = false
  ar : x.arHandshake.isSome → m.arDone = false

@[simp] theorem pending_eq_nil_iff {done : Bool} {reg : BitVec 32} :
    pending done reg = [] ↔ done = false := by
  cases done <;> simp [pending]

theorem Follows.noOverlap_iff {m : Monitor} {b : Bus} (h : Follows m b) (x : AxiSample) :
    m.Intact x ↔ b.NoOverlap x := by
  constructor
  · intro hi
    constructor
    · rw [h.aw, pending_eq_nil_iff]
      exact hi.aw
    · rw [h.w, pending_eq_nil_iff]
      exact hi.w
    · rw [h.ar, pending_eq_nil_iff]
      exact hi.ar
  · rintro ⟨haw, hw, har⟩
    rw [h.aw, pending_eq_nil_iff] at haw
    rw [h.w, pending_eq_nil_iff] at hw
    rw [h.ar, pending_eq_nil_iff] at har
    exact ⟨haw, hw, har⟩

section Step

variable {m : Monitor} {b : Bus} {x : AxiSample} (h : Follows m b)
include h

theorem Follows.pushAw (hi : x.awHandshake.isSome → m.awDone = false) :
    Follows (m.sampleAw x) (b.pushAw x) := by
  unfold sampleAw Bus.pushAw AxiSample.awHandshake at *
  split
  · next hs =>
    have hfree := hi (by simp [hs])
    exact { h with aw := by simp [h.aw, hfree, pending] }
  · simpa using h

theorem Follows.pushW (hi : x.wHandshake.isSome → m.wDone = false) :
    Follows (m.sampleW x) (b.pushW x) := by
  unfold sampleW Bus.pushW AxiSample.wHandshake at *
  split
  · next hs =>
    have hfree := hi (by simp [hs])
    exact { h with w := by simp [h.w, hfree, pending] }
  · simpa using h

theorem Follows.pushAr (hi : x.arHandshake.isSome → m.arDone = false) :
    Follows (m.sampleAr x) (b.pushAr x) := by
  unfold sampleAr Bus.pushAr AxiSample.arHandshake at *
  split
  · next hs =>
    have hfree := hi (by simp [hs])
    exact { h with ar := by simp [h.ar, hfree, pending] }
  · simpa using h

/-- The write a response completes is the one in the registers. -/
theorem Follows.completesWrite : b.completesWrite x =
    if m.awDone && m.wDone && x.bvalid && x.bready then
      some { dir := .write, addr := m.awAddrQ, data := m.wDataQ, resp := respOf x.bresp }
    else none := by
  unfold Bus.completesWrite AxiSample.bHandshake
  rw [h.aw, h.w]
  cases m.awDone with
  | false => simp [pending]
  | true =>
    cases m.wDone with
    | false => simp [pending]
    | true => cases x.bvalid <;> cases x.bready <;> rfl

theorem Follows.completesRead : b.completesRead x =
    if m.arDone && x.rvalid && x.rready then
      some { dir := .read, addr := m.arAddrQ, data := x.rdata, resp := respOf x.rresp }
    else none := by
  unfold Bus.completesRead AxiSample.rHandshake
  rw [h.ar]
  cases m.arDone with
  | false => simp [pending]
  | true => cases x.rvalid <;> cases x.rready <;> rfl

theorem Follows.respond : Follows (m.reportWrite x) (b.respond x) := by
  unfold reportWrite Bus.respond
  rw [h.completesWrite]
  split
  · next hs =>
    simp only [Bool.and_eq_true] at hs
    obtain ⟨⟨⟨haw, hw⟩, -⟩, -⟩ := hs
    exact { aw := by simp [h.aw, haw, pending], w := by simp [h.w, hw, pending], ar := h.ar
            published := by rw [h.published] }
  · exact h

theorem Follows.respondRead : Follows (m.reportRead x) (b.respondRead x) := by
  unfold reportRead Bus.respondRead
  rw [h.completesRead]
  split
  · next hs =>
    simp only [Bool.and_eq_true] at hs
    exact { aw := h.aw, w := h.w, ar := by simp [h.ar, hs.1.1, pending]
            published := by rw [h.published] }
  · exact h

/-- One edge at which no register in use is loaded. -/
theorem Follows.step (hi : m.Intact x) : Follows (m.step x) (b.step x) := by
  have haw := h.pushAw hi.aw
  have hw := haw.pushW (x := x) (by simpa using hi.w)
  have hrespond := hw.respond (x := x)
  have har := hrespond.pushAr (x := x) (by simpa using hi.ar)
  exact har.respondRead

end Step

/-! ### Counting what was lost -/

/-- Writes published and one in the registers, counted by AW and by W, and reads published
and one in the register. -/
def counts (m : Monitor) : Nat × Nat × Nat :=
  let writes := m.published.countP fun tr => tr.dir = .write
  let reads := m.published.countP fun tr => tr.dir = .read
  (writes + m.awDone.toNat, writes + m.wDone.toNat, reads + m.arDone.toNat)

/-- What an edge adds: a word that overwrites another is not counted. -/
def gains (m : Monitor) (x : AxiSample) : Nat × Nat × Nat :=
  ((x.awHandshake.isSome && !m.awDone).toNat, (x.wHandshake.isSome && !m.wDone).toNat,
    (x.arHandshake.isSome && !m.arDone).toNat)

theorem counts_reportWrite (m : Monitor) (x : AxiSample) :
    (m.reportWrite x).counts = m.counts := by
  unfold reportWrite
  split
  · next hs =>
    simp only [Bool.and_eq_true] at hs
    simp [counts, hs]
  · rfl

theorem counts_reportRead (m : Monitor) (x : AxiSample) :
    (m.reportRead x).counts = m.counts := by
  unfold reportRead
  split
  · next hs =>
    simp only [Bool.and_eq_true] at hs
    simp [counts, hs]
  · rfl

theorem counts_sampleAw (m : Monitor) (x : AxiSample) : (m.sampleAw x).counts =
    m.counts + ((x.awHandshake.isSome && !m.awDone).toNat, 0, 0) := by
  unfold sampleAw AxiSample.awHandshake
  split
  · cases hd : m.awDone <;> simp [counts, hd]
  · simp

theorem counts_sampleW (m : Monitor) (x : AxiSample) : (m.sampleW x).counts =
    m.counts + (0, (x.wHandshake.isSome && !m.wDone).toNat, 0) := by
  unfold sampleW AxiSample.wHandshake
  split
  · cases hd : m.wDone <;> simp [counts, hd]
  · simp

theorem counts_sampleAr (m : Monitor) (x : AxiSample) : (m.sampleAr x).counts =
    m.counts + (0, 0, (x.arHandshake.isSome && !m.arDone).toNat) := by
  unfold sampleAr AxiSample.arHandshake
  split
  · cases hd : m.arDone <;> simp [counts, hd]
  · simp

theorem counts_step (m : Monitor) (x : AxiSample) :
    (m.step x).counts = m.counts + m.gains x := by
  rw [step, counts_reportRead, counts_sampleAr, counts_reportWrite, counts_sampleW,
    counts_sampleAw, arDone_reportWrite, arDone_sampleW, arDone_sampleAw, wDone_sampleAw]
  simp [gains, add_assoc]

end Monitor

namespace Bus

/-- The same counts by the queues. -/
def counts (b : Bus) : Nat × Nat × Nat :=
  let writes := b.completed.countP fun tr => tr.dir = .write
  let reads := b.completed.countP fun tr => tr.dir = .read
  (writes + b.aw.length, writes + b.w.length, reads + b.ar.length)

theorem counts_respond (b : Bus) (x : AxiSample) : (b.respond x).counts = b.counts := by
  unfold respond completesWrite
  rcases haw : b.aw with _ | ⟨addr, aw⟩
  · rfl
  · rcases hw : b.w with _ | ⟨data, w⟩
    · rfl
    · cases x.bHandshake with
      | none => rfl
      | some resp =>
        simp [counts, haw, hw]
        omega

theorem counts_respondRead (b : Bus) (x : AxiSample) : (b.respondRead x).counts = b.counts := by
  unfold respondRead completesRead
  rcases har : b.ar with _ | ⟨addr, ar⟩
  · rfl
  · cases x.rHandshake with
    | none => rfl
    | some r =>
      simp [counts, har]
      omega

theorem length_toList (o : Option (BitVec 32)) : o.toList.length = o.isSome.toNat := by
  cases o <;> rfl

theorem counts_step (b : Bus) (x : AxiSample) : (b.step x).counts = b.counts +
    (x.awHandshake.isSome.toNat, x.wHandshake.isSome.toNat, x.arHandshake.isSome.toNat) := by
  rw [step, counts_respondRead]
  have har : ∀ b : Bus, (b.pushAr x).counts = b.counts + (0, 0, x.arHandshake.isSome.toNat) := by
    intro b
    simp [counts, pushAr, length_toList, Nat.add_assoc]
  rw [har, counts_respond]
  simp [counts, pushAw, pushW, length_toList, Nat.add_assoc]

end Bus

namespace Monitor

/-- A count that reaches the number of words handed over has lost none. -/
theorem along_of_count {f : Monitor → Nat} {done : Monitor → Bool} {push : AxiSample → Bool}
    (hstep : ∀ m x, f (step m x) = f m + (push x && !done m).toNat) (hzero : f {} = 0)
    (xs : List AxiSample) (hcount : xs.countP push ≤ f (run step {} xs)) :
    Along step (fun m x => push x → done m = false) {} xs := by
  have hle : ∀ m x, (push x && !done m).toNat ≤ (push x).toNat := by
    intro m x
    cases push x <;> cases done m <;> decide
  have hsum : (trace step (fun _ x => (push x).toNat) {} xs).sum = xs.countP push :=
    sum_trace_op push _ xs
  rw [run_counter hstep, hzero, Nat.zero_add, ← hsum] at hcount
  have halong := along_of_sum_le hle {} xs hcount
  refine (along_congr (p := fun _ => True) ?_ (fun _ _ _ _ _ => trivial) trivial).mp halong
  intro m x _ _
  cases push x <;> cases done m <;> decide

theorem follows_run {xs : List AxiSample} :
    (Along step Intact {} xs ↔ Along Bus.step Bus.NoOverlap {} xs) ∧
      (Along step Intact {} xs → Follows (run step {} xs) (run Bus.step {} xs)) := by
  have hempty : Follows {} {} := ⟨rfl, rfl, rfl, rfl⟩
  exact along_simulate (fun m b x h => h.noOverlap_iff x) (fun m b x h => h.step) hempty xs

/-- A count the queues and the words handed over agree on. -/
theorem countP_eq_of_counts {f : Bus → Nat} {push : AxiSample → Bool} (hzero : f {} = 0)
    (hstep : ∀ b x, f (b.step x) = f b + (push x).toNat) (xs : List AxiSample) :
    xs.countP push = f (run Bus.step {} xs) := by
  rw [run_counter hstep, hzero, Nat.zero_add, sum_trace_op]

/-- When every word has been answered, publishing what was completed takes an intact run. -/
theorem intact_of_published {xs : List AxiSample} (idle : (run Bus.step {} xs).Idle)
    (h : (run step {} xs).published = (run Bus.step {} xs).completed) :
    Along step Intact {} xs := by
  have hbusAw := countP_eq_of_counts (f := fun b => b.counts.1) rfl
    (fun b x => congrArg (fun c => c.1) (b.counts_step x)) xs
  have hbusW := countP_eq_of_counts (f := fun b => b.counts.2.1) rfl
    (fun b x => congrArg (fun c => c.2.1) (b.counts_step x)) xs
  have hbusAr := countP_eq_of_counts (f := fun b => b.counts.2.2) rfl
    (fun b x => congrArg (fun c => c.2.2) (b.counts_step x)) xs
  simp only [Bus.counts, idle.aw, idle.w, idle.ar, ← h, List.length_nil, Nat.add_zero]
    at hbusAw hbusW hbusAr
  have haw : Along step (fun m x => x.awHandshake.isSome → m.awDone = false) {} xs :=
    along_of_count (f := fun m => m.counts.1)
      (fun m x => congrArg (fun c => c.1) (m.counts_step x)) rfl xs
      (hbusAw.trans_le (Nat.le_add_right _ _))
  have hw : Along step (fun m x => x.wHandshake.isSome → m.wDone = false) {} xs :=
    along_of_count (f := fun m => m.counts.2.1)
      (fun m x => congrArg (fun c => c.2.1) (m.counts_step x)) rfl xs
      (hbusW.trans_le (Nat.le_add_right _ _))
  have har : Along step (fun m x => x.arHandshake.isSome → m.arDone = false) {} xs :=
    along_of_count (f := fun m => m.counts.2.2)
      (fun m x => congrArg (fun c => c.2.2) (m.counts_step x)) rfl xs
      (hbusAr.trans_le (Nat.le_add_right _ _))
  have hall := (along_and _ xs).mpr ⟨haw, (along_and _ xs).mpr ⟨hw, har⟩⟩
  refine (along_congr (p := fun _ => True) ?_ (fun _ _ _ _ _ => trivial) trivial).mp hall
  intro m x _ _
  exact ⟨fun ⟨haw, hw, har⟩ => ⟨haw, hw, har⟩, fun hi => ⟨hi.aw, hi.w, hi.ar⟩⟩

/-- **The monitor publishes exactly the completed transactions of a run in which no word
is handed over before the one ahead of it on its channel is answered**; and no other run
ends, with every word answered, with exactly these published. -/
theorem published_run (xs : List AxiSample) :
    (Along Bus.step Bus.NoOverlap {} xs →
      (run step {} xs).published = (run Bus.step {} xs).completed) ∧
    ((run Bus.step {} xs).Idle → (run step {} xs).published = (run Bus.step {} xs).completed →
      Along Bus.step Bus.NoOverlap {} xs) := by
  constructor
  · intro h
    exact (follows_run.2 (follows_run.1.mpr h)).published
  · intro idle h
    exact follows_run.1.mp (intact_of_published idle h)

/-- Two writes, the address of the second handed over with the response to the first. -/
def backToBack : List AxiSample :=
  [{ awvalid := true, awready := true, awaddr := 0x4, wvalid := true, wready := true, wdata := 1 },
   { bvalid := true, bready := true, awvalid := true, awready := true, awaddr := 0x8 },
   { wvalid := true, wready := true, wdata := 2 },
   { bvalid := true, bready := true }]

/-- The first is published under the address of the second, and the second not at all. -/
theorem backToBack_not_published :
    Legal backToBack ∧
      (run step {} backToBack).published ≠ (run Bus.step {} backToBack).completed := by
  decide

end Monitor

end Testbench.Axi4lite
