import Testbench.Lib.Run
import Testbench.Spi.Monitor

/-!
Frames of an SPI mode-0 master between the slave `spi_driver` and the monitor
`spi_monitor`.

A session is a sequence of frames of any sizes and timing. The driver takes its first bit
at the second rising edge, so it is a bit behind through the whole session (`Behind`) and
never serves all the frames (`received_iff`). The monitor follows MOSI iff every frame has
32 bits and every word reads the same in either bit order (`mosi_published_iff`).
-/

namespace Testbench.Spi

open Testbench.Lib

/-- What may happen at any time: a clock edge of the testbench, a new level of MOSI or of the
interrupt. -/
inductive Quiet where
  | clk
  | mosi (b : Bool)
  | ssiIntr (b : Bool)

/-- What happens on the interface, one thing at a time. -/
inductive Event where
  | quiet (q : Quiet)
  | sclk (b : Bool)
  | ssN (v : BitVec 4)

def quiet (qs : List Quiet) : List Event := qs.map .quiet

/-- Driver and monitor on one interface; `sampled` are the levels of MISO at the rising edges,
where the master samples it. -/
structure Bench where
  lines : Lines := {}
  driver : Driver
  monitor : Monitor := {}
  sampled : List Bool := []

namespace Bench

/-- The slave has got its first item. -/
def start (items : List SpiTrans) : Bench :=
  { driver := Driver.tryNextItem {} { items } }

/-- A rising edge of SCLK. Master and monitor sample MISO before the driver moves it. -/
def posedgeSclk (b : Bench) : Bench :=
  let lines := { b.lines with sclk := true }
  { lines
    driver := b.driver.posedgeSclk lines
    monitor := b.monitor.posedgeSclk lines b.driver.miso
    sampled := b.sampled ++ [b.driver.miso] }

/-- A falling edge of SCLK. -/
def negedgeSclk (b : Bench) : Bench :=
  { b with lines := { b.lines with sclk := false }, driver := b.driver.negedgeSclk }

/-- A change of `ss_n`. -/
def ssNChange (b : Bench) (v : BitVec 4) : Bench :=
  let lines := { b.lines with ssN := v }
  { b with
    lines
    driver := b.driver.ssNChange lines
    monitor := b.monitor.ssNChange lines b.driver.miso }

/-- One event; a line that is given the level it has does not change. -/
def step (b : Bench) : Event → Bench
  | .quiet .clk => { b with driver := b.driver.clk b.lines }
  | .quiet (.mosi v) => { b with lines := { b.lines with mosi := v } }
  | .quiet (.ssiIntr v) => { b with lines := { b.lines with ssiIntr := v } }
  | .sclk v =>
      if v = b.lines.sclk then b else if v then b.posedgeSclk else b.negedgeSclk
  | .ssN v => if v = b.lines.ssN then b else b.ssNChange v

end Bench

/-- One frame of a mode-0 master: the words both sides send, and its timing. -/
structure Frame where
  channel : Fin 4
  size : Nat
  pos : 0 < size
  le : size ≤ 32
  mosi : BitVec size
  miso : BitVec size
  gap : List Quiet
  low : Nat → List Quiet
  setup : Nat → Nat
  high : Nat → List Quiet
  trail : List Quiet

namespace Frame

variable (f : Frame)

/-- The pulse of bit `j`: MOSI, the rising edge, the falling edge. -/
def pulse (j : Nat) : List Event :=
  quiet (f.low j) ++ [.quiet (.mosi (f.mosi.getMsbD j))] ++
    quiet (List.replicate (f.setup j) .clk) ++ [.sclk true] ++ quiet (f.high j) ++ [.sclk false]

/-- `ss_n` with this channel selected. -/
def select : BitVec 4 := 0xF ^^^ BitVec.twoPow 4 f.channel

/-- The frame: the slave is selected with SCLK low, and deselected after the last pulse. -/
def events : List Event :=
  quiet f.gap ++ [.ssN f.select] ++ (List.range f.size).flatMap f.pulse ++ quiet f.trail ++
    [.ssN 0xF]

/-- The item with which the slave serves the frame. -/
def item : SpiTrans :=
  { channel := f.channel, frameSize := f.size, txData := f.miso.setWidth 32 }

end Frame

/-- Frames, and what follows the last one. -/
structure Session where
  frames : List Frame
  tail : List Quiet

namespace Session

variable (s : Session)

def events : List Event := s.frames.flatMap Frame.events ++ quiet s.tail

/-- The bench after the session. -/
def bench : Bench := run Bench.step (.start (s.frames.map Frame.item)) s.events

/-- The driver has received the master's word in every frame. -/
def Received : Prop :=
  s.bench.driver.finished.map (fun c => (c.timedOut, c.tr.rxData)) =
    s.frames.map fun f => (false, f.mosi.setWidth 32)

/-- Driver and monitor agree with the master on every frame. -/
structure Agrees : Prop where
  received : s.Received
  sampled : s.bench.sampled = s.frames.flatMap fun f => bitsDown f.miso 0 f.size
  published : s.bench.monitor.published.map (fun tr => (tr.frameSize, tr.rxData, tr.txData)) =
    s.frames.map fun f => (f.size, f.mosi.setWidth 32, f.miso.setWidth 32)

end Session

/-- What a step can do: nothing the monitor sees, a change of `ss_n`, or an edge of SCLK. -/
theorem step_cases (b : Bench) (e : Event) :
    (∃ lines driver, b.step e = { b with lines, driver } ∧ lines.sclk = b.lines.sclk ∧
        Driver.Takes 0 b.driver driver) ∨
      (∃ v, b.step e = b.ssNChange v) ∨
      (e = .sclk true ∧ b.step e = b.posedgeSclk) ∨
      (b.lines.sclk = true ∧ b.step e = b.negedgeSclk) := by
  cases e with
  | quiet q =>
    refine Or.inl ?_
    cases q with
    | clk => exact ⟨_, _, rfl, rfl, b.driver.takes_clk _⟩
    | mosi v => exact ⟨_, _, rfl, rfl, Driver.Takes.rfl⟩
    | ssiIntr v => exact ⟨_, _, rfl, rfl, Driver.Takes.rfl⟩
  | ssN v =>
    rw [Bench.step]
    split
    · exact Or.inl ⟨_, _, rfl, rfl, Driver.Takes.rfl⟩
    · exact Or.inr (Or.inl ⟨v, rfl⟩)
  | sclk v =>
    rw [Bench.step]
    by_cases hsame : v = b.lines.sclk
    · rw [if_pos hsame]
      exact Or.inl ⟨_, _, rfl, rfl, Driver.Takes.rfl⟩
    · rw [if_neg hsame]
      cases v with
      | true => exact Or.inr (Or.inr (Or.inl ⟨rfl, rfl⟩))
      | false =>
        have hhigh : b.lines.sclk = true := Bool.eq_true_of_not_eq_false (Ne.symm hsame)
        exact Or.inr (Or.inr (Or.inr ⟨hhigh, rfl⟩))

/-! ### The driver -/

/-- Rising edges, as the master produces them. -/
def rises (es : List Event) : Nat :=
  es.countP fun
    | .sclk true => true
    | _ => false

theorem rises_quiet (qs : List Quiet) : rises (quiet qs) = 0 := by
  rw [rises, quiet, List.countP_map]
  exact List.countP_eq_zero.mpr fun _ _ => Bool.false_ne_true

theorem rises_append (es es' : List Event) : rises (es ++ es') = rises es + rises es' :=
  List.countP_append

theorem rises_flatMap {α : Type*} (xs : List α) (f : α → List Event) :
    rises (xs.flatMap f) = (xs.map fun x => rises (f x)).sum :=
  List.countP_flatMap

theorem rises_pulse (f : Frame) (j : Nat) : rises (f.pulse j) = 1 := by
  simp only [Frame.pulse, rises_append, rises_quiet]
  rfl

theorem rises_frame (f : Frame) : rises f.events = f.size := by
  simp only [Frame.events, rises_append, rises_quiet, rises_flatMap, rises_pulse]
  simp [rises]

theorem rises_session (s : Session) : rises s.events = (s.frames.map (·.size)).sum := by
  simp only [Session.events, rises_append, rises_quiet, rises_flatMap, rises_frame, Nat.add_zero]

/-- The driver has taken fewer bits than there were rising edges. -/
structure Behind (b : Bench) (n : Nat) : Prop where
  taken : b.driver.taken ≤ n - 1
  sampling : b.driver.Sampling → 0 < n
  high : b.lines.sclk = true → 0 < n

variable {b : Bench} {n : Nat}

/-- A step that takes nothing. -/
theorem Behind.takes {b' : Bench} (h : Behind b n) (hdriver : Driver.Takes 0 b.driver b'.driver)
    (hsclk : b'.lines.sclk = b.lines.sclk) : Behind b' n :=
  ⟨hdriver.taken.trans h.taken, fun hs => h.sampling (hdriver.sampling hs),
    fun hs => h.high (hsclk ▸ hs)⟩

theorem Behind.add (h : Behind b n) (k : Nat) : Behind b (n + k) where
  taken := h.taken.trans (by omega)
  sampling := fun hs => Nat.add_pos_left (h.sampling hs) k
  high := fun hs => Nat.add_pos_left (h.high hs) k

theorem Behind.posedgeSclk (h : Behind b n) : Behind b.posedgeSclk (n + 1) := by
  refine ⟨?_, fun _ => Nat.succ_pos n, fun _ => Nat.succ_pos n⟩
  show (b.driver.posedgeSclk _).taken ≤ n
  rcases b.driver.takes_posedgeSclk { b.lines with sclk := true } with ⟨hsampling, htakes⟩ | heq
  · have hpos := h.sampling hsampling
    have htaken := h.taken
    have hone := htakes.taken
    omega
  · rw [heq]
    exact h.taken.trans (Nat.sub_le n 1)

/-- A falling edge gets the driver ready to sample, but there was a rising one before it. -/
theorem Behind.negedgeSclk (h : Behind b n) (hhigh : b.lines.sclk = true) :
    Behind b.negedgeSclk n := by
  refine ⟨?_, fun _ => h.high hhigh, fun _ => h.high hhigh⟩
  show b.driver.negedgeSclk.taken ≤ n - 1
  rw [b.driver.negedgeSclk_spec.1]
  exact h.taken

theorem Behind.step (h : Behind b n) (e : Event) : Behind (b.step e) (n + rises [e]) := by
  rcases step_cases b e with ⟨lines, driver, heq, hsclk, htakes⟩ | ⟨v, heq⟩ | ⟨rfl, heq⟩ |
    ⟨hhigh, heq⟩
  · rw [heq]
    exact (h.takes htakes hsclk).add _
  · have htakes : Driver.Takes 0 b.driver (b.ssNChange v).driver := b.driver.takes_ssNChange _
    rw [heq]
    exact (h.takes htakes rfl).add _
  · rw [heq]
    exact h.posedgeSclk
  · rw [heq]
    exact (h.negedgeSclk hhigh).add _

theorem Behind.run (h : Behind b n) (es : List Event) :
    Behind (run Bench.step b es) (n + rises es) := by
  induction es generalizing b n with
  | nil => exact h
  | cons e es ih =>
    have hrest := ih (h.step e)
    rwa [Nat.add_assoc, ← rises_append] at hrest

/-- No step drops a frame. -/
theorem sizes_step (b : Bench) (e : Event) : (b.step e).driver.sizes = b.driver.sizes := by
  rcases step_cases b e with ⟨lines, driver, heq, -, htakes⟩ | ⟨v, heq⟩ | ⟨-, heq⟩ | ⟨-, heq⟩
  · rw [heq]
    exact htakes.sizes
  · rw [heq]
    exact (b.driver.takes_ssNChange _).sizes
  · rw [heq]
    rcases b.driver.takes_posedgeSclk { b.lines with sclk := true } with ⟨-, htakes⟩ | hsame
    · exact htakes.sizes
    · exact congrArg Driver.sizes hsame
  · rw [heq]
    exact b.driver.negedgeSclk_spec.2

section Session

variable (s : Session)

theorem behind_bench : Behind s.bench (s.frames.map (·.size)).sum := by
  obtain ⟨htaken, -, hsampling⟩ := Driver.tryNextItem_spec {} { items := s.frames.map Frame.item }
  have hstart : Behind (.start (s.frames.map Frame.item)) 0 :=
    ⟨htaken.le, fun h => absurd h hsampling, Bool.noConfusion⟩
  have hrun := hstart.run s.events
  rwa [Nat.zero_add, rises_session] at hrun

theorem sizes_bench : s.bench.driver.sizes = s.frames.map (·.size) := by
  obtain ⟨-, hsizes, -⟩ := Driver.tryNextItem_spec {} { items := s.frames.map Frame.item }
  rw [Session.bench, run_const (f := fun b : Bench => b.driver.sizes) fun b e _ => sizes_step b e]
  show (Driver.tryNextItem _ _).sizes = _
  rw [hsizes, List.map_map]
  rfl

/-- Nothing has happened, and no item is there. -/
def Fresh (b : Bench) : Prop :=
  b.driver = { items := [] } ∧ b.monitor = {} ∧ b.sampled = []

theorem fresh_quiet (h : Fresh b) (q : Quiet) : Fresh (b.step (.quiet q)) := by
  cases q with
  | clk =>
    refine ⟨?_, h.2⟩
    show b.driver.clk b.lines = _
    rw [h.1]
    rfl
  | mosi v => exact h
  | ssiIntr v => exact h

theorem fresh_bench {s : Session} (h : s.frames = []) : Fresh s.bench := by
  rw [Session.bench, Session.events, h, quiet, List.flatMap_nil, List.nil_append, run,
    List.foldl_map]
  have hstart : Fresh (.start []) := ⟨rfl, rfl, rfl⟩
  exact run_invariant (p := Fresh) (fun _ q hb => fresh_quiet hb q) hstart s.tail

/-- **The driver never receives all the words of a session that has a frame.** -/
theorem received_iff : s.Received ↔ s.frames = [] := by
  constructor
  · intro h
    -- all the calls are over, and none was given up
    have hlen : s.bench.driver.finished.length = s.frames.length := by
      simpa using congrArg List.length h
    have hkept : ∀ c ∈ s.bench.driver.finished, (!c.timedOut) = true := by
      intro c hc
      have hmem := List.mem_map_of_mem (f := fun c : Call => (c.timedOut, c.tr.rxData)) hc
      rw [h] at hmem
      obtain ⟨f, -, heq⟩ := List.mem_map.mp hmem
      rw [← show false = c.timedOut from congrArg Prod.fst heq]
      rfl
    have hsizes : s.bench.driver.finished.map (·.tr.frameSize) = s.frames.map (·.size) := by
      have hall := (sizes_bench s).trans (List.append_nil _).symm
      exact (List.append_inj hall (by simp [hlen])).1
    have htaken : (s.frames.map (·.size)).sum ≤ s.bench.driver.taken := by
      rw [← hsizes, Driver.taken, Driver.takenIn, List.filter_eq_self.mpr hkept]
      exact Nat.le_add_right _ _
    -- one bit is missing
    have hbehind := (behind_bench s).taken
    have hsum : (s.frames.map (·.size)).sum = 0 := by omega
    rw [List.sum_eq_zero_iff] at hsum
    refine List.eq_nil_iff_forall_not_mem.mpr fun f hf => ?_
    exact f.pos.ne' (hsum f.size (List.mem_map_of_mem hf))
  · intro h
    rw [Session.Received, h, (fresh_bench h).1]
    rfl

end Session

/-! ### The monitor -/

theorem run_quiet (b : Bench) (qs : List Quiet) :
    (run Bench.step b (quiet qs)).monitor = b.monitor ∧
      (run Bench.step b (quiet qs)).lines.sclk = b.lines.sclk ∧
      (run Bench.step b (quiet qs)).lines.ssN = b.lines.ssN := by
  induction qs generalizing b with
  | nil => exact ⟨rfl, rfl, rfl⟩
  | cons q qs ih =>
    cases q with
    | clk => exact ih _
    | mosi v => exact ih _
    | ssiIntr v => exact ih _

theorem run_clk (b : Bench) (n : Nat) :
    (run Bench.step b (quiet (List.replicate n .clk))).lines = b.lines := by
  refine run_const (f := Bench.lines) (fun b e he => ?_) b
  obtain ⟨q, hq, rfl⟩ := List.mem_map.mp he
  rw [List.eq_of_mem_replicate hq]
  rfl

/-- A pulse shows its bit to the monitor at one rising edge. -/
theorem run_pulse (f : Frame) (j : Nat) {b : Bench} (hlow : b.lines.sclk = false) :
    let b' := run Bench.step b (f.pulse j)
    b'.lines.sclk = false ∧ b'.lines.ssN = b.lines.ssN ∧
      ∃ l miso, l.ssN = b.lines.ssN ∧ l.mosi = f.mosi.getMsbD j ∧
        b'.monitor = b.monitor.posedgeSclk l miso := by
  simp only [Frame.pulse, run_append, run_cons, run_nil]
  obtain ⟨hmon1, hsclk1, hssN1⟩ := run_quiet b (f.low j)
  generalize run Bench.step b (quiet (f.low j)) = b1 at *
  have hlines3 := run_clk (b1.step (.quiet (.mosi (f.mosi.getMsbD j)))) (f.setup j)
  have hmon3 := (run_quiet (b1.step (.quiet (.mosi (f.mosi.getMsbD j))))
    (List.replicate (f.setup j) .clk)).1
  generalize run Bench.step _ (quiet (List.replicate (f.setup j) .clk)) = b3 at *
  have hsclk3 : b3.lines.sclk = false := by
    rw [hlines3]
    exact hsclk1.trans hlow
  have hrise : b3.step (.sclk true) = b3.posedgeSclk := by
    rw [Bench.step, hsclk3]
    rfl
  rw [hrise]
  obtain ⟨hmon5, hsclk5, hssN5⟩ := run_quiet b3.posedgeSclk (f.high j)
  generalize run Bench.step b3.posedgeSclk (quiet (f.high j)) = b5 at *
  have hfall : b5.step (.sclk false) = b5.negedgeSclk := by
    rw [Bench.step, hsclk5]
    rfl
  rw [hfall]
  have hssN3 : b3.lines.ssN = b.lines.ssN := by
    rw [hlines3]
    exact hssN1
  refine ⟨rfl, hssN5.trans hssN3, { b3.lines with sclk := true }, b3.driver.miso, hssN3, ?_, ?_⟩
  · show b3.lines.mosi = _
    rw [hlines3]
    rfl
  · show b5.monitor = _
    rw [hmon5, ← hmon1]
    exact congrArg (Monitor.posedgeSclk _ _) hmon3

theorem selected_select (f : Frame) {l : Lines} (h : l.ssN = f.select) :
    l.selected f.channel = true ∧ Monitor.channel l = f.channel := by
  have hall : ∀ c : Fin 4, ∀ ssN, ssN = 0xF ^^^ BitVec.twoPow 4 c →
      ({ ssN } : Lines).selected c = true ∧ Monitor.channel { ssN } = c := by decide
  exact hall f.channel l.ssN h

/-- Nothing is selected, and the clock is low. -/
def Idle (b : Bench) : Prop := b.lines.sclk = false ∧ b.lines.ssN = 0xF

theorem run_pulses (f : Frame) {pre : List SpiTrans} {n : Nat} (hn : n ≤ 32)
    (hlow : b.lines.sclk = false) (hssN : b.lines.ssN = f.select)
    (hstart : Monitor.Captured pre f.channel f.mosi.getMsbD 0 b.monitor) :
    let b' := run Bench.step b ((List.range n).flatMap f.pulse)
    b'.lines.sclk = false ∧ b'.lines.ssN = f.select ∧
      Monitor.Captured pre f.channel f.mosi.getMsbD n b'.monitor := by
  induction n with
  | zero => exact ⟨hlow, hssN, hstart⟩
  | succ n ih =>
    obtain ⟨hlow', hssN', hcaptured⟩ := ih (by omega)
    rw [List.range_succ, List.flatMap_append, List.flatMap_singleton, run_append]
    obtain ⟨hlow'', hssN'', l, miso, hl, hmosi, hmon⟩ := run_pulse f n hlow'
    refine ⟨hlow'', hssN''.trans hssN', ?_⟩
    rw [hmon]
    exact hcaptured.posedgeSclk (by omega) (selected_select f (hl.trans hssN')).1 hmosi miso

/-- The monitor captures the bits of a frame. -/
theorem run_frame (f : Frame) {pre : List SpiTrans} (hidle : Idle b)
    (hmon : b.monitor = { published := pre }) :
    Idle (run Bench.step b f.events) ∧
      Monitor.Captured pre f.channel f.mosi.getMsbD f.size (run Bench.step b f.events).monitor := by
  simp only [Frame.events, run_append, run_cons, run_nil]
  obtain ⟨hmon1, hsclk1, hssN1⟩ := run_quiet b f.gap
  generalize run Bench.step b (quiet f.gap) = b1 at *
  -- the selection
  have hssN2 : f.select ≠ b1.lines.ssN := by
    rw [hssN1, hidle.2]
    exact Monitor.ssN_of_selected (l := { ssN := f.select }) (selected_select f rfl).1
  have hsel : b1.step (.ssN f.select) = b1.ssNChange f.select := if_neg hssN2
  rw [hsel]
  have hstart : Monitor.Captured pre f.channel f.mosi.getMsbD 0 (b1.ssNChange f.select).monitor := by
    obtain ⟨hsel, hchannel⟩ := selected_select f (l := { b1.lines with ssN := f.select }) rfl
    show Monitor.Captured _ _ _ _ (b1.monitor.ssNChange _ _)
    rw [hmon1, hmon]
    exact Monitor.captured_start hsel hchannel _
  -- the pulses
  have hpulses := run_pulses f (n := f.size) f.le (b := b1.ssNChange f.select)
    (hsclk1.trans hidle.1) rfl hstart
  generalize run Bench.step (b1.ssNChange f.select) ((List.range f.size).flatMap f.pulse) = b3 at *
  obtain ⟨hsclk3, hssN3, hcaptured⟩ := hpulses
  obtain ⟨hmon4, hsclk4, hssN4⟩ := run_quiet b3 f.trail
  generalize run Bench.step b3 (quiet f.trail) = b4 at *
  -- the end of the selection
  have hdesel : b4.step (.ssN 0xF) = b4.ssNChange 0xF := by
    refine if_neg ?_
    rw [hssN4, hssN3]
    exact (Monitor.ssN_of_selected (l := { ssN := f.select }) (selected_select f rfl).1).symm
  rw [hdesel]
  refine ⟨⟨hsclk4.trans hsclk3, rfl⟩, ?_⟩
  show Monitor.Captured _ _ _ _ (b4.monitor.ssNChange _ _)
  rw [Monitor.ssNChange_idle rfl, hmon4]
  exact hcaptured

theorem overrun_step {pre : List SpiTrans} (h : Monitor.Overrun pre n b.monitor) (e : Event) :
    Monitor.Overrun pre n (b.step e).monitor := by
  rcases step_cases b e with ⟨lines, driver, heq, -, -⟩ | ⟨v, heq⟩ | ⟨-, heq⟩ | ⟨-, heq⟩
  · rw [heq]
    exact h
  · rw [heq]
    exact h.ssNChange _ _
  · rw [heq]
    exact h.posedgeSclk _ _
  · rw [heq]
    exact h

/-- The frame size and the MOSI word of a transaction. -/
def mosiOf (tr : SpiTrans) : Nat × BitVec 32 := (tr.frameSize, tr.rxData)

/-- What the monitor publishes for some frames and the events after them. -/
theorem run_session (frames : List Frame) (tail : List Quiet) {pre : List SpiTrans}
    (hidle : Idle b) (hmon : b.monitor = { published := pre }) :
    ∃ out,
      (run Bench.step b (frames.flatMap Frame.events ++ quiet tail)).monitor.published =
        pre ++ out ∧
      (out.map mosiOf = frames.map (fun f => (f.size, f.mosi.setWidth 32)) ↔
        ∀ f ∈ frames, f.size = 32 ∧ f.mosi.reverse = f.mosi) := by
  induction frames generalizing b pre with
  | nil =>
    refine ⟨[], ?_, by simp⟩
    rw [List.flatMap_nil, List.nil_append, (run_quiet b tail).1, hmon, List.append_nil]
  | cons f frames ih =>
    obtain ⟨hidle', hcaptured⟩ := run_frame f hidle hmon
    rw [List.flatMap_cons, List.append_assoc, run_append]
    generalize run Bench.step b f.events = b' at *
    generalize hm : b'.monitor = m at hcaptured
    cases hcaptured with
    | pending tr _ _ hlt =>
      -- the frame is too short, and the next transaction too long
      have hover : Monitor.Overrun pre f.size b'.monitor := by
        rw [hm]
        exact .pending tr f.size rfl le_rfl rfl
      have hrest := run_invariant (p := fun b : Bench => Monitor.Overrun pre f.size b.monitor)
        (fun _ e hb => overrun_step hb e) hover (frames.flatMap Frame.events ++ quiet tail)
      have hshort : ¬ ∀ f' ∈ f :: frames, f'.size = 32 ∧ f'.mosi.reverse = f'.mosi :=
        fun h => hlt.ne (h f List.mem_cons_self).1
      cases hrest with
      | pending _ _ _ _ hpub =>
        exact ⟨[], by rw [hpub, List.append_nil], by simp, fun h => absurd h hshort⟩
      | published tr' rest hpub hsize =>
        refine ⟨tr' :: rest, hpub, fun h => ?_, fun h => absurd h hshort⟩
        have hhead := (List.cons.inj h).1
        exact absurd (congrArg Prod.fst hhead) hsize.ne'
    | published tr hsize hbits hfull =>
      obtain ⟨out, hpub, hiff⟩ := ih hidle' hm
      refine ⟨tr :: out, by rw [hpub, List.append_assoc, List.singleton_append], ?_⟩
      rw [List.map_cons, List.map_cons, List.cons.injEq, hiff, List.forall_mem_cons]
      refine and_congr_left' ?_
      rw [mosiOf, Prod.mk.injEq, hsize]
      exact and_congr ⟨fun _ => hfull, fun _ => rfl⟩ (Monitor.LsbFirst.eq_iff f.le hbits)

/-- **The monitor publishes the MOSI words of a session iff every frame has 32 bits and every
word reads the same in either bit order.** -/
theorem mosi_published_iff (s : Session) :
    s.bench.monitor.published.map mosiOf = s.frames.map (fun f => (f.size, f.mosi.setWidth 32)) ↔
      ∀ f ∈ s.frames, f.size = 32 ∧ f.mosi.reverse = f.mosi := by
  have hmon : (Bench.start (s.frames.map Frame.item)).monitor = { published := [] } := rfl
  obtain ⟨out, hpub, hiff⟩ := run_session s.frames s.tail ⟨rfl, rfl⟩ hmon
  rw [Session.bench, Session.events, hpub]
  exact hiff

/-! ### Both sides -/

/-- **Driver and monitor never agree with the master on a session that has a frame.** -/
theorem agrees_iff (s : Session) : s.Agrees ↔ s.frames = [] := by
  constructor
  · intro h
    exact (received_iff s).mp h.received
  · intro h
    obtain ⟨-, hmon, hsampled⟩ := fresh_bench h
    refine ⟨(received_iff s).mpr h, ?_, ?_⟩
    · rw [hsampled, h]
      rfl
    · rw [hmon, h]
      rfl

/-- One byte on the last channel: the master sends 0xA1, the slave 0x5A. -/
def oneByte : Session where
  frames := [{
    channel := Fin.last 3, size := 8, pos := by decide, le := by decide, mosi := 0xA1, miso := 0x5A
    gap := [.clk], low := fun _ => [.clk], setup := fun _ => 1, high := fun _ => [.clk, .clk]
    trail := [.clk] }]
  tail := [.clk, .clk]

/-- The driver still waits for a ninth clock when the frame is over. -/
theorem oneByte_not_agrees : ¬ oneByte.Agrees := by
  intro h
  have hreceived := congrArg List.length h.received
  revert hreceived
  decide +kernel

end Testbench.Spi
