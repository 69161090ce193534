import Testbench.Lib.LastWrite

/-!
The SDRAM responder `sdram_driver` (`mpsoc/uvc/sdram/sdram_driver.sv`).

`driver_one_pkt` serves one command: it waits for a clock edge with CS low, and a READ
keeps it for three more edges. The main loop calls it again at once as long as the
sequencer has an item, so the responder is a machine that is cut at its clock edges.
A trace gives the level of each line at each edge.
-/

namespace Testbench.Sdram

open Testbench.Lib

/-- The lines of `sdram_vif` at a rising edge of `clk`. -/
structure Pins where
  sdramClk : Bool := false
  sdramCke : Bool := true
  sdramCsN : Bool := true
  sdramRasN : Bool := true
  sdramCasN : Bool := true
  sdramWeN : Bool := true
  sdramBa : BitVec 2 := 0
  sdramAddr : BitVec 13 := 0
  sdramDq : BitVec 16 := 0
  sdramDqm : BitVec 2 := 0

/-- `sdram_trans`: the protocol fields and the lines it was taken from. -/
structure SdramTrans where
  pins : Pins := {}
  cmd : BitVec 4 := 0
  bank : BitVec 2 := 0
  addr : BitVec 13 := 0
  wdata : BitVec 16 := 0
  rdata : BitVec 16 := 0

def CMD_READ : BitVec 4 := 0b0101
def CMD_WRITE : BitVec 4 := 0b0100

def TIMEOUT_CYCLES : Nat := 10000

namespace Pins

/-- The command code `{cs_n, ras_n, cas_n, we_n}`. -/
def cmd (p : Pins) : BitVec 4 :=
  BitVec.ofBool p.sdramCsN ++ BitVec.ofBool p.sdramRasN ++ BitVec.ofBool p.sdramCasN ++
    BitVec.ofBool p.sdramWeN

/-- The memory key `{bank, addr}`. -/
def key (p : Pins) : BitVec 15 := p.sdramBa ++ p.sdramAddr

end Pins

/-- `mem`; a key never written reads as 0. -/
abbrev Mem := BitVec 15 → BitVec 16

/-- `mem_read`. -/
def memRead (mem : Mem) (bank : BitVec 2) (addr : BitVec 13) : BitVec 16 := mem (bank ++ addr)

/-- `mem_write`. -/
def memWrite (mem : Mem) (bank : BitVec 2) (addr : BitVec 13) (d : BitVec 16) : Mem :=
  Function.update mem (bank ++ addr) d

/-- Where `driver_one_pkt` waits: for a command (and how many edges it has waited), for the
CAS latency to pass, or for the end of the data cycle. -/
inductive Phase where
  | waitCmd (cycles : Nat)
  | casLatency (tr : SdramTrans) (left : Nat)
  | dataCycle (tr : SdramTrans)

/-- The responder between two edges; `dq` is what it drives, `finished` the items it is
done with. -/
structure Driver where
  phase : Phase := .waitCmd 0
  mem : Mem := fun _ => 0
  dq : Option (BitVec 16) := none
  finished : List SdramTrans := []

namespace Driver

/-- The end of a call of `driver_one_pkt`, and the start of the next one. -/
def itemDone (d : Driver) (tr : SdramTrans) : Driver :=
  { d with phase := .waitCmd 0, finished := d.finished ++ [tr] }

/-- `driver_one_pkt` once CS is low. ACT, PRE, REF, LMR and any other code have no data
phase. -/
def execute (d : Driver) (req : SdramTrans) (p : Pins) : Driver :=
  let tr := { req with cmd := p.cmd, bank := p.sdramBa, addr := p.sdramAddr }
  if p.cmd = CMD_READ then { d with phase := .casLatency tr 2 }
  else if p.cmd = CMD_WRITE then
    let tr := { tr with wdata := p.sdramDq }
    { d with mem := memWrite d.mem tr.bank tr.addr tr.wdata }.itemDone tr
  else d.itemDone tr

/-- One clock edge; `reqs` are the items of the sequence, call by call. -/
def step (reqs : Nat → SdramTrans) (d : Driver) (p : Pins) : Driver :=
  match d.phase with
  | .waitCmd cycles =>
      let req := reqs d.finished.length
      if p.sdramCsN = false then d.execute req p
      else if cycles + 1 = TIMEOUT_CYCLES then d.itemDone req  -- gives the item up
      else { d with phase := .waitCmd (cycles + 1) }
  | .casLatency tr left =>
      if left = 1 then
        let rdata := memRead d.mem tr.bank tr.addr
        { d with dq := some rdata, phase := .dataCycle { tr with rdata } }
      else { d with phase := .casLatency tr (left - 1) }
  | .dataCycle tr => { d with dq := none }.itemDone tr

/-- The responder before edge `t` of a trace. -/
def before (reqs : Nat → SdramTrans) (trace : Nat → Pins) (t : Nat) : Driver :=
  run (step reqs) {} ((List.range t).map trace)

theorem before_succ (reqs : Nat → SdramTrans) (trace : Nat → Pins) (t : Nat) :
    before reqs trace (t + 1) = step reqs (before reqs trace t) (trace t) :=
  run_map_range_succ trace _ t

/-! ### One command -/

theorem csN_of_cmd {p : Pins} (h : p.cmd = CMD_READ ∨ p.cmd = CMD_WRITE) : p.sdramCsN = false := by
  have hbits : ∀ cs ras cas we : Bool,
      BitVec.ofBool cs ++ BitVec.ofBool ras ++ BitVec.ofBool cas ++ BitVec.ofBool we = CMD_READ ∨
        BitVec.ofBool cs ++ BitVec.ofBool ras ++ BitVec.ofBool cas ++ BitVec.ofBool we =
          CMD_WRITE → cs = false := by decide
  exact hbits _ _ _ _ h

/-- The item of a command, as far as the command fills it in. -/
def filled (reqs : Nat → SdramTrans) (d : Driver) (p : Pins) : SdramTrans :=
  { reqs d.finished.length with cmd := p.cmd, bank := p.sdramBa, addr := p.sdramAddr }

/-- The responder waits for a command, and drives nothing. -/
def Waiting (d : Driver) : Prop := (∃ cycles, d.phase = .waitCmd cycles) ∧ d.dq = none

/-- **At an edge the waiting responder starts a READ, performs a WRITE, or does neither.** -/
theorem step_waiting (reqs : Nat → SdramTrans) {d : Driver} (h : d.Waiting) (p : Pins) :
    p.cmd = CMD_READ ∧ step reqs d p = { d with phase := .casLatency (d.filled reqs p) 2 } ∨
    p.cmd = CMD_WRITE ∧ step reqs d p =
      { d with
        mem := Function.update d.mem p.key p.sdramDq
        phase := .waitCmd 0
        finished := d.finished ++ [{ d.filled reqs p with wdata := p.sdramDq }] } ∨
    p.cmd ≠ CMD_READ ∧ p.cmd ≠ CMD_WRITE ∧ ∃ cycles finished,
      step reqs d p = { d with phase := .waitCmd cycles, finished } := by
  obtain ⟨⟨cycles, hphase⟩, -⟩ := h
  have hstep : step reqs d p =
      if p.sdramCsN = false then d.execute (reqs d.finished.length) p
      else if cycles + 1 = TIMEOUT_CYCLES then d.itemDone (reqs d.finished.length)
      else { d with phase := .waitCmd (cycles + 1) } := by
    rw [step, hphase]
  by_cases hread : p.cmd = CMD_READ
  · refine Or.inl ⟨hread, ?_⟩
    rw [hstep, if_pos (csN_of_cmd (Or.inl hread)), execute, if_pos hread]
    rfl
  by_cases hwrite : p.cmd = CMD_WRITE
  · refine Or.inr (Or.inl ⟨hwrite, ?_⟩)
    rw [hstep, if_pos (csN_of_cmd (Or.inr hwrite)), execute, if_neg hread, if_pos hwrite]
    rfl
  refine Or.inr (Or.inr ⟨hread, hwrite, ?_⟩)
  rw [hstep]
  by_cases hcs : p.sdramCsN = false
  · rw [if_pos hcs, execute, if_neg hread, if_neg hwrite]
    exact ⟨_, _, rfl⟩
  · rw [if_neg hcs]
    split
    · exact ⟨_, _, rfl⟩
    · exact ⟨_, _, rfl⟩

section Trace

variable (reqs : Nat → SdramTrans) (trace : Nat → Pins)

/-- The four edges of a READ the responder waits for: two of latency, the data cycle, and
the release of the lines. -/
theorem serves_read {t : Nat} (h : (before reqs trace t).Waiting)
    (hread : (trace t).cmd = CMD_READ) :
    let d := before reqs trace t
    let tr := d.filled reqs (trace t)
    let rdata := d.mem (trace t).key
    before reqs trace (t + 1) = { d with phase := .casLatency tr 2 } ∧
      before reqs trace (t + 2) = { d with phase := .casLatency tr 1 } ∧
      before reqs trace (t + 3) =
        { d with dq := some rdata, phase := .dataCycle { tr with rdata } } ∧
      before reqs trace (t + 4) =
        { d with phase := .waitCmd 0, finished := d.finished ++ [{ tr with rdata }] } := by
  intro d tr rdata
  have h1 : before reqs trace (t + 1) = { d with phase := .casLatency tr 2 } := by
    rw [before_succ]
    rcases step_waiting reqs h (trace t) with ⟨-, heq⟩ | ⟨hwrite, -⟩ | ⟨hnot, -⟩
    · exact heq
    · rw [hread] at hwrite
      exact absurd hwrite (by decide)
    · exact absurd hread hnot
  have h2 : before reqs trace (t + 2) = { d with phase := .casLatency tr 1 } := by
    rw [before_succ, h1]
    rfl
  have h3 : before reqs trace (t + 3) =
      { d with dq := some rdata, phase := .dataCycle { tr with rdata } } := by
    rw [before_succ, h2]
    rfl
  refine ⟨h1, h2, h3, ?_⟩
  have hdq : d.dq = none := h.2
  rw [before_succ, h3]
  show itemDone { d with dq := none, phase := _ } _ = _
  rw [← hdq]
  rfl

theorem waiting_succ {t : Nat} (h : (before reqs trace t).Waiting)
    (hread : (trace t).cmd ≠ CMD_READ) : (before reqs trace (t + 1)).Waiting := by
  rw [before_succ]
  rcases step_waiting reqs h (trace t) with ⟨hread', -⟩ | ⟨-, heq⟩ | ⟨-, -, cycles, _, heq⟩
  · exact absurd hread' hread
  · rw [heq]
    exact ⟨⟨0, rfl⟩, h.2⟩
  · rw [heq]
    exact ⟨⟨cycles, rfl⟩, h.2⟩

theorem waiting_read {t : Nat} (h : (before reqs trace t).Waiting)
    (hread : (trace t).cmd = CMD_READ) : (before reqs trace (t + 4)).Waiting := by
  obtain ⟨-, -, -, h4⟩ := serves_read reqs trace h hread
  rw [h4]
  exact ⟨⟨0, rfl⟩, h.2⟩

/-- At every edge the responder waits for a command, or is in the three edges after a READ
it serves. -/
theorem waiting_or_busy (t : Nat) :
    (before reqs trace t).Waiting ∨
      ∃ s, s < t ∧ t < s + 4 ∧ (before reqs trace s).Waiting ∧ (trace s).cmd = CMD_READ := by
  induction t with
  | zero => exact Or.inl ⟨⟨0, rfl⟩, rfl⟩
  | succ t ih =>
    rcases ih with hwait | ⟨s, hst, hts, hwait, hread⟩
    · by_cases hread : (trace t).cmd = CMD_READ
      · exact Or.inr ⟨t, by omega, by omega, hwait, hread⟩
      · exact Or.inl (waiting_succ reqs trace hwait hread)
    · rcases Nat.lt_or_ge (t + 1) (s + 4) with hlt | hge
      · exact Or.inr ⟨s, by omega, hlt, hwait, hread⟩
      · obtain rfl : t = s + 3 := by omega
        exact Or.inl (waiting_read reqs trace hwait hread)

/-- A responder that waits drives nothing at the next two edges either. -/
theorem dq_waiting {t : Nat} (h : (before reqs trace t).Waiting) :
    (before reqs trace (t + 1)).dq = none ∧ (before reqs trace (t + 2)).dq = none := by
  have hone : ∀ {t}, (before reqs trace t).Waiting → (before reqs trace (t + 1)).dq = none := by
    intro t h
    by_cases hread : (trace t).cmd = CMD_READ
    · rw [(serves_read reqs trace h hread).1]
      exact h.2
    · exact (waiting_succ reqs trace h hread).2
  refine ⟨hone h, ?_⟩
  by_cases hread : (trace t).cmd = CMD_READ
  · rw [(serves_read reqs trace h hread).2.1]
    exact h.2
  · exact hone (waiting_succ reqs trace h hread)

/-! ### What the controller relies on -/

/-- The value written last to a key before edge `t`, 0 if there is none. -/
def lastWritten (t : Nat) (key : BitVec 15) : BitVec 16 :=
  (lastWrite (fun p : Pins => if p.cmd = CMD_WRITE ∧ p.key = key then some p.sdramDq else none)
    ((List.range t).map trace)).getD 0

theorem lastWritten_succ (t : Nat) (key : BitVec 15) :
    lastWritten trace (t + 1) key =
      if (trace t).cmd = CMD_WRITE ∧ (trace t).key = key then (trace t).sdramDq
      else lastWritten trace t key := by
  rw [lastWritten, List.range_succ, List.map_append, List.map_singleton,
    lastWrite_append_singleton]
  split
  · rfl
  · rfl

/-- The step performs the WRITE on the lines: it stores the word and is done with an item
that says so. -/
structure Performs (d d' : Driver) (p : Pins) : Prop where
  mem : d'.mem = Function.update d.mem p.key p.sdramDq
  item : ∃ tr, d'.finished = d.finished ++ [tr] ∧ tr.cmd = CMD_WRITE ∧ tr.bank = p.sdramBa ∧
    tr.addr = p.sdramAddr ∧ tr.wdata = p.sdramDq

/-- Every WRITE is performed, and every READ is answered two edges later with the value
written last to its key. -/
structure Responds : Prop where
  writes : ∀ t, (trace t).cmd = CMD_WRITE →
    Performs (before reqs trace t) (before reqs trace (t + 1)) (trace t)
  reads : ∀ t, (trace t).cmd = CMD_READ →
    (before reqs trace (t + 3)).dq = some (lastWritten trace t (trace t).key)

/-- The command accesses the memory. -/
def Access (p : Pins) : Prop := p.cmd = CMD_READ ∨ p.cmd = CMD_WRITE

/-- No READ or WRITE comes within three edges of a READ. -/
def ReadsSpaced : Prop :=
  ∀ t, (trace t).cmd = CMD_READ → ∀ d, 1 ≤ d → d ≤ 3 → ¬ Access (trace (t + d))

variable {reqs trace}

/-- A responder that responds waits when it is accessed. -/
theorem Responds.waiting (h : Responds reqs trace) {t : Nat} (hacc : Access (trace t)) :
    (before reqs trace t).Waiting := by
  rcases waiting_or_busy reqs trace t with hwait | ⟨s, hst, hts, hwait, hread⟩
  · exact hwait
  exfalso
  obtain ⟨h1, h2, h3, h4⟩ := serves_read reqs trace hwait hread
  obtain ⟨hdq5, hdq6⟩ := dq_waiting reqs trace (waiting_read reqs trace hwait hread)
  have hdq4 : (before reqs trace (s + 4)).dq = none := (waiting_read reqs trace hwait hread).2
  obtain rfl | rfl | rfl : t = s + 1 ∨ t = s + 2 ∨ t = s + 3 := by omega
  all_goals rcases hacc with hacc | hacc
  -- a READ is not answered: the lines stay free
  · cases hdq4.symm.trans (h.reads _ hacc)
  · obtain ⟨tr, hfin, -⟩ := (h.writes _ hacc).item
    rw [h1, h2] at hfin
    simp at hfin
  · cases hdq5.symm.trans (h.reads _ hacc)
  · obtain ⟨tr, hfin, -⟩ := (h.writes _ hacc).item
    rw [h2, h3] at hfin
    simp at hfin
  · cases hdq6.symm.trans (h.reads _ hacc)
  · obtain ⟨tr, hfin, hcmd, -⟩ := (h.writes _ hacc).item
    rw [h3, h4] at hfin
    have htr := List.singleton_inj.mp (List.append_cancel_left hfin)
    rw [← htr] at hcmd
    rw [show (trace s).cmd = CMD_WRITE from hcmd] at hread
    exact absurd hread (by decide)

theorem Responds.readsSpaced (h : Responds reqs trace) : ReadsSpaced trace := by
  intro t hread d hpos hle hacc
  obtain ⟨h1, h2, h3, -⟩ := serves_read reqs trace (h.waiting (Or.inl hread)) hread
  obtain ⟨⟨cycles, hphase⟩, -⟩ := h.waiting hacc
  obtain rfl | rfl | rfl : d = 1 ∨ d = 2 ∨ d = 3 := by omega
  · rw [h1] at hphase
    cases hphase
  · rw [h2] at hphase
    cases hphase
  · rw [h3] at hphase
    cases hphase

theorem ReadsSpaced.waiting (h : ReadsSpaced trace) {t : Nat} (hacc : Access (trace t)) :
    (before reqs trace t).Waiting := by
  rcases waiting_or_busy reqs trace t with hwait | ⟨s, hst, hts, -, hread⟩
  · exact hwait
  · refine absurd ?_ (h s hread (t - s) (by omega) (by omega))
    rwa [Nat.add_sub_cancel' hst.le]

theorem lastWritten_of_not_write {t : Nat} (h : (trace t).cmd ≠ CMD_WRITE) :
    lastWritten trace (t + 1) = lastWritten trace t := by
  funext key
  rw [lastWritten_succ, if_neg fun hwrite => h hwrite.1]

/-- Spaced this way, the memory holds what was written. -/
theorem ReadsSpaced.mem (h : ReadsSpaced trace) (t : Nat) :
    (before reqs trace t).mem = lastWritten trace t := by
  induction t with
  | zero => rfl
  | succ t ih =>
    rcases waiting_or_busy reqs trace t with hwait | ⟨s, hst, hts, hwait, hread⟩
    · rw [before_succ]
      rcases step_waiting reqs hwait (trace t) with
        ⟨hread, heq⟩ | ⟨hwrite, heq⟩ | ⟨-, hnot, _, _, heq⟩
      · rw [heq, lastWritten_of_not_write (by rw [hread]; decide)]
        exact ih
      · rw [heq, ih]
        funext key
        show Function.update (lastWritten trace t) (trace t).key (trace t).sdramDq key = _
        rw [Function.update_apply, lastWritten_succ]
        exact if_congr ⟨fun hkey => ⟨hwrite, hkey.symm⟩, fun hkey => hkey.2.symm⟩ rfl rfl
      · rw [heq, lastWritten_of_not_write hnot]
        exact ih
    · have hquiet : ¬ Access (trace t) := by
        have hgap := h s hread (t - s) (by omega) (by omega)
        rwa [Nat.add_sub_cancel' hst.le] at hgap
      rw [lastWritten_of_not_write fun hwrite => hquiet (Or.inr hwrite), ← ih]
      -- the edges of a READ leave the memory alone
      obtain ⟨h1, h2, h3, h4⟩ := serves_read reqs trace hwait hread
      obtain rfl | rfl | rfl : t = s + 1 ∨ t = s + 2 ∨ t = s + 3 := by omega
      · rw [h1, h2]
      · rw [h2, h3]
      · rw [h3, h4]

/-- **The responder serves every access iff none comes within three edges of a READ.** -/
theorem responds_iff : Responds reqs trace ↔ ReadsSpaced trace := by
  refine ⟨Responds.readsSpaced, fun h => ⟨fun t hwrite => ?_, fun t hread => ?_⟩⟩
  · rw [before_succ]
    rcases step_waiting reqs (h.waiting (Or.inr hwrite)) (trace t) with
      ⟨hread, -⟩ | ⟨-, heq⟩ | ⟨-, hnot, -⟩
    · rw [hwrite] at hread
      exact absurd hread (by decide)
    · rw [heq]
      exact ⟨rfl, _, rfl, hwrite, rfl, rfl, rfl⟩
    · exact absurd hwrite hnot
  · rw [(serves_read reqs trace (h.waiting (Or.inl hread)) hread).2.2.1, h.mem]

end Trace

end Driver

end Testbench.Sdram
