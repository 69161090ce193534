import Testbench.Lib.Conditional
import Testbench.Lib.Run
import Testbench.Lib.Text

/-!
`run/xrun_lib/kfile.py`: K-files, file lists with conditional parts.

The loop keeps a stack of frames with two flags each. `Matches` says what they stand for:
the open branches of the line, and whether they are taken. So the loop keeps what `select`
selects (`written_eq`), and in a well nested K-file what stands in taken branches.
-/

namespace Testbench.Run

open Testbench.Lib

/-- A level of the stack. -/
structure Frame where
  active : Bool
  hadTrue : Bool

/-- The variables of the loop. The stack is never empty, `top` is its `stack[-1]`. -/
structure Expansion where
  top : Frame
  below : List Frame
  result : List String

/-! ### Directives -/

def startsWith (s start : String) : Bool := start.toList.isPrefixOf s.toList

/-- The macro of an `ifdef` line: `re.match` with its name as the group. -/
def ifdefName (s : String) : Option String :=
  match s.toList.dropPrefix? "`ifdef".toList with
  | none => none
  | some rest =>
      let name := (rest.dropWhile isSpace).takeWhile fun c => !isSpace c
      if rest.takeWhile isSpace = [] ∨ name = [] then none else some (.ofList name)

/-- What a line of a K-file is. -/
def classify (line : String) : Token String String :=
  let s := strip isSpace line
  match ifdefName s with
  | some name => .ifdef name
  | none =>
      if startsWith s "`else" then .otherwise
      else if startsWith s "`endif" then .endif
      else .plain line

/-- The directives of a K-file are well nested. -/
def WellNested (lines : List String) (b : Block String String) : Prop :=
  lines.map classify = b.flatten

/-! ### Expansion -/

/-- `stack[-2]["active"] if len(stack) >= 2 else True` -/
def parentActive (below : List Frame) : Bool := (below.head?.map Frame.active).getD true

/-- One round of the loop of `_expand`. -/
def expandLine (defines : Finset String) (st : Expansion) (line : String) : Expansion :=
  let s := strip isSpace line
  match ifdefName s with
  | some name =>
      let newActive := st.top.active && decide (name ∈ defines)
      { top := { active := newActive, hadTrue := newActive }
        below := st.top :: st.below
        result := st.result ++ [""] }
  | none =>
      if startsWith s "`else" then
        let active :=
          if st.top.hadTrue then false else parentActive st.below && !st.top.hadTrue
        { st with top := { st.top with active := active }, result := st.result ++ [""] }
      else if startsWith s "`endif" then
        match st.below with
        | [] => { st with result := st.result ++ [""] }
        | parent :: below => { top := parent, below := below, result := st.result ++ [""] }
      else if st.top.active then { st with result := st.result ++ [line] }
      else { st with result := st.result ++ [""] }

/-- The loop of `_expand`. -/
def expandLines (defines : Finset String) (lines : List String) : Expansion :=
  run (expandLine defines) { top := { active := true, hadTrue := false }, below := [], result := [] }
    lines

def isBlankLine (line : String) : Bool := strip isSpace line = ""

/-- The lines with text, without the blanks before it. -/
def kept (lines : List String) : List String :=
  (lines.filter fun line => !isBlankLine line).map (lstrip isSpace)

/-- What `_expand` writes to the new file, one write after the other. -/
def written (defines : Finset String) (lines : List String) : List String :=
  kept (expandLines defines lines).result

/-! ### What the stack stands for -/

theorem kept_append (lines lines' : List String) :
    kept (lines ++ lines') = kept lines ++ kept lines' := by
  simp [kept]

/-- The frames are those of the open branches. -/
inductive Matches (defined : String → Bool) : List (Branch String) → Frame → List Frame → Prop where
  | bottom : Matches defined [] { active := true, hadTrue := false } []
  | branch {b : Branch String} {ctx : List (Branch String)} {parent : Frame}
      {below : List Frame} (hparent : Matches defined ctx parent below) :
      Matches defined (b :: ctx)
        { active := parent.active && b.taken defined
          hadTrue := parent.active && defined b.name }
        (parent :: below)

section Stack

variable {defined : String → Bool} {ctx : List (Branch String)} {top : Frame} {below : List Frame}

/-- The top of the stack is active iff all open branches are taken. -/
theorem Matches.active (h : Matches defined ctx top below) :
    top.active = ctx.all (Branch.taken defined) := by
  induction h with
  | bottom => rfl
  | branch hparent ih => rw [List.all_cons, ← ih, Bool.and_comm]

theorem Matches.ifdef (h : Matches defined ctx top below) (name : String) :
    Matches defined ({ name := name, inElse := false } :: ctx)
      { active := top.active && defined name, hadTrue := top.active && defined name }
      (top :: below) :=
  .branch h

/-- At `else` the branch is taken if the one before it was not and the parent is active. The
parent is below it on the stack, or there is none. -/
theorem Matches.otherwise (h : Matches defined ctx top below) :
    Matches defined (Token.after (L := String) ctx .otherwise)
      { top with active :=
          if top.hadTrue then false else parentActive below && !top.hadTrue } below := by
  cases h with
  | bottom => exact .bottom
  | @branch b ctx parent below hparent =>
    have hactive : (if parent.active && defined b.name then false
        else parentActive (parent :: below) && !(parent.active && defined b.name)) =
          (parent.active && Branch.taken defined { b with inElse := true }) := by
      cases hp : parent.active <;> cases hd : defined b.name <;>
        simp [parentActive, Branch.taken, hp, hd]
    rw [hactive]
    exact .branch (b := { b with inElse := true }) hparent

/-- `endif` takes the innermost branch away, where one is open. -/
theorem Matches.endif (h : Matches defined ctx top below) :
    (ctx = [] ∧ below = []) ∨
      ∃ parent rest, below = parent :: rest ∧ Matches defined ctx.tail parent rest := by
  cases h with
  | bottom => exact .inl ⟨rfl, rfl⟩
  | branch hparent => exact .inr ⟨_, _, rfl, hparent⟩

end Stack

/-! ### The loop -/

section Loop

variable {defines : Finset String} {ctx : List (Branch String)} {st : Expansion}

/-- What the loop keeps of a line. -/
def emitted (defined : String → Bool) (ctx : List (Branch String)) : Token String String → String
  | .plain line => if ctx.all (Branch.taken defined) then line else ""
  | _ => ""

theorem kept_emitted (defined : String → Bool) (token : Token String String)
    (tokens : List (Token String String)) :
    kept [emitted defined ctx token] ++ kept (select defined (token.after ctx) tokens) =
      kept (select defined ctx (token :: tokens)) := by
  cases token with
  | ifdef name => rfl
  | otherwise => cases ctx <;> rfl
  | endif => rfl
  | plain line =>
    rw [select_plain, kept_append, emitted, Token.after]
    split_ifs <;> rfl

/-- **What one line does**: the stack follows the branches, and the line is kept iff it is
plain and they are taken. -/
theorem expandLine_spec (h : Matches (fun name => name ∈ defines) ctx st.top st.below)
    (line : String) :
    Matches (fun name => name ∈ defines) ((classify line).after ctx)
        (expandLine defines st line).top (expandLine defines st line).below ∧
      (expandLine defines st line).result =
        st.result ++ [emitted (fun name => name ∈ defines) ctx (classify line)] := by
  unfold expandLine classify
  dsimp only
  split
  · exact ⟨h.ifdef _, rfl⟩
  · by_cases helse : startsWith (strip isSpace line) "`else"
    · simp only [if_pos helse]
      exact ⟨h.otherwise, rfl⟩
    by_cases hendif : startsWith (strip isSpace line) "`endif"
    · simp only [if_neg helse, if_pos hendif]
      rcases h.endif with ⟨hctx, hbelow⟩ | ⟨parent, rest, hbelow, hparent⟩
      · subst hctx
        rw [hbelow] at h ⊢
        exact ⟨h, rfl⟩
      · rw [hbelow]
        exact ⟨hparent, rfl⟩
    simp only [if_neg helse, if_neg hendif]
    by_cases hactive : st.top.active
    · rw [if_pos hactive]
      refine ⟨h, ?_⟩
      rw [emitted, if_pos (h.active ▸ hactive)]
    · rw [if_neg hactive]
      refine ⟨h, ?_⟩
      rw [emitted, if_neg (h.active ▸ hactive)]

theorem kept_run (h : Matches (fun name => name ∈ defines) ctx st.top st.below)
    (lines : List String) :
    kept (run (expandLine defines) st lines).result =
      kept st.result ++ kept (select (fun name => name ∈ defines) ctx (lines.map classify)) := by
  induction lines generalizing st ctx with
  | nil => exact (List.append_nil _).symm
  | cons line lines ih =>
    obtain ⟨hnext, hresult⟩ := expandLine_spec h line
    have hrun := ih hnext
    rw [hresult, kept_append, List.append_assoc, kept_emitted] at hrun
    rw [run_cons, List.map_cons, hrun]

/-- **A K-file, well nested or not, is written with the lines all of whose open branches are
taken.** -/
theorem written_eq (defines : Finset String) (lines : List String) :
    written defines lines =
      kept (select (fun name => name ∈ defines) [] (lines.map classify)) :=
  kept_run Matches.bottom lines

end Loop

/-- **A well nested K-file is written with the lines in taken branches**, those with text, in
order and without the blanks before it. -/
theorem written_wellNested {lines : List String} {b : Block String String}
    (h : WellNested lines b) (defines : Finset String) :
    written defines lines = kept (b.taken fun name => name ∈ defines) := by
  rw [written_eq, h, select_flatten]

/-- An `else` in a part that is not taken. -/
theorem written_nested :
    written {"RTL"} ["`ifdef FPGA\n", "`ifdef RTL\n", "a.v\n", "`else\n", "b.v\n", "`endif\n",
      "`else\n", "  c.v\n", "\n", "`endif\n", "d.v"] = ["c.v\n", "d.v"] := by
  have h : WellNested ["`ifdef FPGA\n", "`ifdef RTL\n", "a.v\n", "`else\n", "b.v\n", "`endif\n",
      "`else\n", "  c.v\n", "\n", "`endif\n", "d.v"]
      (.ifdefElse "FPGA" (.ifdefElse "RTL" (.plain "a.v\n" .done) (.plain "b.v\n" .done) .done)
        (.plain "  c.v\n" (.plain "\n" .done)) (.plain "d.v" .done)) := by
    unfold WellNested
    decide +kernel
  exact (written_wellNested h _).trans (by decide +kernel)

end Testbench.Run
