import Mathlib

/-!
`while` loops.

`whileLoop` takes the number of turns it may make, and `Exits` leaves that number out. A loop
has one state to exit in, whatever the number is (`whileLoop_unique`).
-/

namespace Testbench.Lib

variable {σ : Type*} (cond : σ → Bool) (body : σ → σ)

/-- `while (cond) body`, in at most `fuel` turns. A loop that is over needs none. -/
def whileLoop : Nat → σ → Option σ
  | 0, s => if cond s then none else some s
  | fuel + 1, s => if cond s then whileLoop fuel (body s) else some s

/-- The loop exits in `s'`. -/
def Exits (s s' : σ) : Prop := ∃ fuel, whileLoop cond body fuel s = some s'

section While

variable {cond body} {s s' s'' : σ} {fuel fuel' : Nat}

theorem whileLoop_of_not (h : ¬ cond s) : whileLoop cond body fuel s = some s := by
  cases fuel with
  | zero => exact if_neg h
  | succ fuel => exact if_neg h

theorem Exits.done (h : ¬ cond s) : Exits cond body s s := ⟨0, whileLoop_of_not h⟩

/-- One turn in front. -/
theorem Exits.turn (h : cond s) (hbody : body s = s') (hexits : Exits cond body s' s'') :
    Exits cond body s s'' := by
  obtain ⟨fuel, hfuel⟩ := hexits
  refine ⟨fuel + 1, (if_pos h).trans ?_⟩
  rw [hbody, hfuel]

/-- **The result does not depend on the fuel.** -/
theorem whileLoop_unique (h : whileLoop cond body fuel s = some s')
    (h' : whileLoop cond body fuel' s = some s'') : s' = s'' := by
  induction fuel generalizing s fuel' with
  | zero =>
    by_cases hcond : cond s
    · cases (if_pos hcond).symm.trans h
    · rw [whileLoop_of_not hcond] at h h'
      exact Option.some.inj (h.symm.trans h')
  | succ fuel ih =>
    by_cases hcond : cond s
    · cases fuel' with
      | zero => cases (if_pos hcond).symm.trans h'
      | succ fuel' => exact ih ((if_pos hcond).symm.trans h) ((if_pos hcond).symm.trans h')
    · rw [whileLoop_of_not hcond] at h h'
      exact Option.some.inj (h.symm.trans h')

end While

end Testbench.Lib
