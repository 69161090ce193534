import Testbench.Axi4lite.Trans
import Testbench.Lib.Run

/-!
The five channels of `axi4lite_vif` (`canfd/uvc/axi4lite/axi4lite_vif.sv`).

A trace is the list of the interface's signals at successive clock edges. `Bus` says what
a trace means: each channel hands its words over in order, a write is complete when its
response is taken and a read when its data is.
-/

namespace Testbench.Axi4lite

open Testbench.Lib

/-- The signals the master drives. -/
structure MasterSignals where
  awaddr : BitVec 32 := 0
  awvalid : Bool := false
  wdata : BitVec 32 := 0
  wstrb : BitVec 4 := 0
  wvalid : Bool := false
  bready : Bool := false
  araddr : BitVec 32 := 0
  arvalid : Bool := false
  rready : Bool := false

/-- The signals the slave drives. -/
structure SlaveSignals where
  awready : Bool := false
  wready : Bool := false
  bresp : BitVec 2 := 0
  bvalid : Bool := false
  arready : Bool := false
  rdata : BitVec 32 := 0
  rresp : BitVec 2 := 0
  rvalid : Bool := false

/-- `axi4lite_vif` at one clock edge. -/
structure AxiSample extends MasterSignals, SlaveSignals

/-- The response code on `bresp` or `rresp`. -/
def respOf (resp : BitVec 2) : Axi4liteResp :=
  match resp.toNat with
  | 0 => .okay
  | 1 => .exokay
  | 2 => .slverr
  | _ => .decerr

namespace AxiSample

/-! ### Handshakes -/

/-- The address handed over on AW. -/
def awHandshake (x : AxiSample) : Option (BitVec 32) :=
  if x.awvalid && x.awready then some x.awaddr else none

/-- The data handed over on W. -/
def wHandshake (x : AxiSample) : Option (BitVec 32) :=
  if x.wvalid && x.wready then some x.wdata else none

/-- The response handed over on B. -/
def bHandshake (x : AxiSample) : Option Axi4liteResp :=
  if x.bvalid && x.bready then some (respOf x.bresp) else none

/-- The address handed over on AR. -/
def arHandshake (x : AxiSample) : Option (BitVec 32) :=
  if x.arvalid && x.arready then some x.araddr else none

/-- The data and response handed over on R. -/
def rHandshake (x : AxiSample) : Option (BitVec 32 × Axi4liteResp) :=
  if x.rvalid && x.rready then some (x.rdata, respOf x.rresp) else none

/-! ### The protocol between two edges -/

/-- The master keeps a valid word until it is handed over. -/
structure MasterHolds (x y : AxiSample) : Prop where
  aw : x.awvalid = true → x.awready = false → y.awvalid = true ∧ y.awaddr = x.awaddr
  w : x.wvalid = true → x.wready = false →
    y.wvalid = true ∧ y.wdata = x.wdata ∧ y.wstrb = x.wstrb
  ar : x.arvalid = true → x.arready = false → y.arvalid = true ∧ y.araddr = x.araddr

/-- So does the slave. -/
structure SlaveHolds (x y : AxiSample) : Prop where
  b : x.bvalid = true → x.bready = false → y.bvalid = true ∧ y.bresp = x.bresp
  r : x.rvalid = true → x.rready = false →
    y.rvalid = true ∧ y.rdata = x.rdata ∧ y.rresp = x.rresp

instance (x y : AxiSample) : Decidable (MasterHolds x y) :=
  decidable_of_iff (_ ∧ _ ∧ _) ⟨fun ⟨aw, w, ar⟩ => ⟨aw, w, ar⟩, fun ⟨aw, w, ar⟩ => ⟨aw, w, ar⟩⟩

instance (x y : AxiSample) : Decidable (SlaveHolds x y) :=
  decidable_of_iff (_ ∧ _) ⟨fun ⟨b, r⟩ => ⟨b, r⟩, fun ⟨b, r⟩ => ⟨b, r⟩⟩

end AxiSample

/-! ### Completed transactions -/

/-- Words handed over and not yet answered, oldest first, and the transactions completed. -/
structure Bus where
  aw : List (BitVec 32) := []
  w : List (BitVec 32) := []
  ar : List (BitVec 32) := []
  completed : List Axi4liteTrans := []

namespace Bus

def pushAw (b : Bus) (x : AxiSample) : Bus := { b with aw := b.aw ++ x.awHandshake.toList }

def pushW (b : Bus) (x : AxiSample) : Bus := { b with w := b.w ++ x.wHandshake.toList }

def pushAr (b : Bus) (x : AxiSample) : Bus := { b with ar := b.ar ++ x.arHandshake.toList }

/-- The write a response completes: the oldest address with the oldest data. -/
def completesWrite (b : Bus) (x : AxiSample) : Option Axi4liteTrans :=
  match b.aw, b.w, x.bHandshake with
  | addr :: _, data :: _, some resp => some { dir := .write, addr, data, resp }
  | _, _, _ => none

/-- The read a word of data completes. -/
def completesRead (b : Bus) (x : AxiSample) : Option Axi4liteTrans :=
  match b.ar, x.rHandshake with
  | addr :: _, some (data, resp) => some { dir := .read, addr, data, resp }
  | _, _ => none

def respond (b : Bus) (x : AxiSample) : Bus :=
  match b.completesWrite x with
  | some tr => { b with aw := b.aw.tail, w := b.w.tail, completed := b.completed ++ [tr] }
  | none => b

def respondRead (b : Bus) (x : AxiSample) : Bus :=
  match b.completesRead x with
  | some tr => { b with ar := b.ar.tail, completed := b.completed ++ [tr] }
  | none => b

/-- One clock edge. A write that completes at the same edge as a read comes first. -/
def step (b : Bus) (x : AxiSample) : Bus :=
  ((((b.pushAw x).pushW x).respond x).pushAr x).respondRead x

/-- Every word handed over has been answered. -/
structure Idle (b : Bus) : Prop where
  aw : b.aw = []
  w : b.w = []
  ar : b.ar = []

/-- A response answers words of earlier edges. -/
def Answers (b : Bus) (x : AxiSample) : Prop :=
  (x.bvalid = true → b.aw ≠ [] ∧ b.w ≠ []) ∧ (x.rvalid = true → b.ar ≠ [])

end Bus

instance (b : Bus) (x : AxiSample) : Decidable (b.Answers x) :=
  inferInstanceAs (Decidable (_ ∧ _))

/-- A trace in which both sides hold their words and the slave answers what it was asked. -/
structure Legal (xs : List AxiSample) : Prop where
  master : xs.IsChain AxiSample.MasterHolds
  slave : xs.IsChain AxiSample.SlaveHolds
  answers : Along Bus.step Bus.Answers {} xs

instance (xs : List AxiSample) : Decidable (Legal xs) :=
  decidable_of_iff (_ ∧ _ ∧ _)
    ⟨fun ⟨master, slave, answers⟩ => ⟨master, slave, answers⟩,
      fun ⟨master, slave, answers⟩ => ⟨master, slave, answers⟩⟩

end Testbench.Axi4lite
