import Mathlib

/-!
Texts with conditional parts, `ifdef`, `else` and `endif`.

The branches a line stands in are found without knowing which macros are defined
(`labelled`), so a text is one list of lines for all sets of macros, and each set selects
from it. `select_flatten` says what is selected where the directives are well nested.
-/

namespace Testbench.Lib

variable {M L : Type*}

/-- A line of a text with conditional parts. -/
inductive Token (M L : Type*) where
  | ifdef (name : M)
  | otherwise
  | endif
  | plain (line : L)
  deriving DecidableEq

/-- A branch that is open at a line. -/
structure Branch (M : Type*) where
  name : M
  inElse : Bool

/-- A branch is taken iff its macro is defined, one after `else` iff it is not. -/
def Branch.taken (defined : M → Bool) (b : Branch M) : Bool :=
  if b.inElse then !defined b.name else defined b.name

/-- The open branches after a line, the innermost first. What is not open is not closed. -/
def Token.after : List (Branch M) → Token M L → List (Branch M)
  | ctx, .ifdef m => { name := m, inElse := false } :: ctx
  | [], .otherwise => []
  | b :: ctx, .otherwise => { b with inElse := true } :: ctx
  | ctx, .endif => ctx.tail
  | ctx, .plain _ => ctx

/-- The plain lines of a text, each with the branches it stands in. -/
def labelled : List (Branch M) → List (Token M L) → List (L × List (Branch M))
  | _, [] => []
  | ctx, .plain line :: tokens => (line, ctx) :: labelled ctx tokens
  | ctx, token :: tokens => labelled (token.after ctx) tokens

/-- The plain lines all of whose branches are taken. -/
def select (defined : M → Bool) (ctx : List (Branch M)) (tokens : List (Token M L)) : List L :=
  ((labelled ctx tokens).filter fun line => line.2.all (Branch.taken defined)).map Prod.fst

/-! ### Well nested texts -/

/-- A text whose directives are well nested, with one `else` at most in each part. -/
inductive Block (M L : Type*) where
  | done
  | plain (line : L) (rest : Block M L)
  | ifdef (name : M) (body rest : Block M L)
  | ifdefElse (name : M) (body alt rest : Block M L)

namespace Block

/-- The lines of a text. -/
def flatten : Block M L → List (Token M L)
  | done => []
  | plain line rest => .plain line :: rest.flatten
  | ifdef m body rest => .ifdef m :: (body.flatten ++ .endif :: rest.flatten)
  | ifdefElse m body alt rest =>
      .ifdef m :: (body.flatten ++ .otherwise :: (alt.flatten ++ .endif :: rest.flatten))

/-- The plain lines all of whose enclosing branches are taken. -/
def taken (defined : M → Bool) : Block M L → List L
  | done => []
  | plain line rest => line :: rest.taken defined
  | ifdef m body rest => (if defined m then body.taken defined else []) ++ rest.taken defined
  | ifdefElse m body alt rest =>
      (if defined m then body.taken defined else alt.taken defined) ++ rest.taken defined

end Block

section Select

variable {defined : M → Bool} {ctx : List (Branch M)} {tokens : List (Token M L)}

@[simp] theorem select_nil : select defined ctx ([] : List (Token M L)) = [] := rfl

theorem select_plain (line : L) :
    select defined ctx (.plain line :: tokens) =
      (if ctx.all (Branch.taken defined) then [line] else []) ++ select defined ctx tokens := by
  unfold select
  rw [labelled, List.filter_cons]
  split_ifs <;> rfl

@[simp] theorem select_ifdef (m : M) :
    select defined ctx (.ifdef m :: tokens) =
      select defined ({ name := m, inElse := false } :: ctx) tokens := rfl

@[simp] theorem select_otherwise (b : Branch M) :
    select defined (b :: ctx) (.otherwise :: tokens) =
      select defined ({ b with inElse := true } :: ctx) tokens := rfl

@[simp] theorem select_endif (b : Branch M) :
    select defined (b :: ctx) (.endif :: tokens) = select defined ctx tokens := rfl

/-- A well nested part leaves the open branches as they were. -/
theorem select_flatten_append (b : Block M L) :
    select defined ctx (b.flatten ++ tokens) =
      (if ctx.all (Branch.taken defined) then b.taken defined else []) ++
        select defined ctx tokens := by
  induction b generalizing ctx tokens with
  | done => simp [Block.flatten, Block.taken]
  | plain line rest ih =>
    rw [Block.flatten, List.cons_append, select_plain, ih, Block.taken]
    split_ifs <;> simp
  | ifdef m body rest ihBody ihRest =>
    simp only [Block.flatten, List.cons_append, List.append_assoc, select_ifdef, ihBody,
      select_endif, ihRest, Block.taken, List.all_cons, Branch.taken]
    by_cases hm : defined m <;> by_cases hctx : ctx.all (Branch.taken defined) <;>
      simp [hm, hctx]
  | ifdefElse m body alt rest ihBody ihAlt ihRest =>
    simp only [Block.flatten, List.cons_append, List.append_assoc, select_ifdef, ihBody,
      select_otherwise, ihAlt, select_endif, ihRest, Block.taken, List.all_cons, Branch.taken]
    by_cases hm : defined m <;> by_cases hctx : ctx.all (Branch.taken defined) <;>
      simp [hm, hctx]

/-- **What is selected from a well nested text.** -/
theorem select_flatten (b : Block M L) :
    select defined [] b.flatten = b.taken defined := by
  have h : select defined [] (b.flatten ++ []) = _ := select_flatten_append b
  simpa using h

end Select

end Testbench.Lib
