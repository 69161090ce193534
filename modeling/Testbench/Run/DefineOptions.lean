import Testbench.Run.KFileFlows

/-!
`KFileExpander._extract_defines` (`run/xrun_lib/kfile.py`) on files of compile options.

The expression takes the whole word behind `+define+`, so a list of macros or a value is
one name. `extracts_iff` says for which files the macros are right all the same.
-/

namespace Testbench.Run

open Testbench.Lib

/-! ### Options -/

/-- A name or a value in an option: no blank, no `+`. -/
def InOption (text : String) : Prop := ∀ c ∈ text.toList, ¬ isSpace c ∧ c ≠ '+'

instance (text : String) : Decidable (InOption text) :=
  decidable_of_iff (text.toList.all fun c => !isSpace c && c != '+') (by simp [InOption])

/-- A macro of a `+define+` option, with its value if it has one. -/
structure MacroDef where
  name : String
  value : Option String
  name_ne : name ≠ ""
  inName : InOption name ∧ '=' ∉ name.toList
  inValue : ∀ v ∈ value, InOption v

/-- A line of the file. -/
inductive CompileOption where
  /-- `+define+A+B=v` -/
  | define (first : MacroDef) (rest : List MacroDef)
  /-- Any other options: no word of the line begins with `+define+`. -/
  | other (text : String) (oneLine : '\n' ∉ text.toList)
      (defines : ∀ word ∈ words isSpace text, ¬ "+define+".toList <+: word)

def MacroDef.text (m : MacroDef) : String :=
  match m.value with
  | none => m.name
  | some v => m.name ++ "=" ++ v

namespace CompileOption

def text : CompileOption → String
  | define first rest => "+define+" ++ "+".intercalate ((first :: rest).map MacroDef.text)
  | other text _ _ => text

/-- The macros VCS defines for an option. -/
def macros : CompileOption → List String
  | define first rest => (first :: rest).map MacroDef.name
  | other _ _ _ => []

end CompileOption

/-- The file, one option to a line. -/
def optionFile (opts : List CompileOption) : String := unlines (opts.map CompileOption.text)

/-- The macros the options of a file define. -/
def definedMacros (opts : List CompileOption) : Finset String :=
  (opts.flatMap CompileOption.macros).toFinset

/-! ### Words behind `+define+` -/

/-- A text starts with `+define+`, blanks and a word. -/
structure DefineAt (text blanks word post : List Char) : Prop where
  split : text = "+define+".toList ++ (blanks ++ (word ++ post))
  blank : ∀ c ∈ blanks, isSpace c
  word_ne : word ≠ []
  inWord : ∀ c ∈ word, ¬ isSpace c
  ends : ∀ c ∈ post.head?, isSpace c

/-- A word stands behind some `+define+` of a text. -/
def WordBehind (text word : List Char) : Prop :=
  ∃ pre found blanks post, text = pre ++ found ∧ DefineAt found blanks word post

namespace DefineAt

variable {text blanks word post : List Char}

theorem dropWhile_eq (h : DefineAt text blanks word post) :
    (blanks ++ (word ++ post)).dropWhile isSpace = word ++ post := by
  obtain ⟨c, word', rfl⟩ := List.exists_cons_of_ne_nil h.word_ne
  rw [List.dropWhile_append_of_pos h.blank, List.cons_append,
    List.dropWhile_cons_of_neg (h.inWord c List.mem_cons_self)]

theorem takeWhile_word (h : DefineAt text blanks word post) :
    (word ++ post).takeWhile (fun c => !isSpace c) = word := by
  rw [List.takeWhile_append_of_pos (fun c hc => by simpa using h.inWord c hc)]
  cases hpost : post with
  | nil => simp
  | cons c post =>
    have hspace := h.ends c (by simp [hpost])
    simp [hspace]

theorem takeWhile_blanks (h : DefineAt text blanks word post) :
    (blanks ++ (word ++ post)).takeWhile isSpace = blanks := by
  obtain ⟨c, word', rfl⟩ := List.exists_cons_of_ne_nil h.word_ne
  rw [List.takeWhile_append_of_pos h.blank, List.cons_append,
    List.takeWhile_cons_of_neg (h.inWord c List.mem_cons_self), List.append_nil]

/-- The expression matches there. -/
theorem matchDefine_eq (h : DefineAt text blanks word post) :
    matchDefine text = some (word, 8 + blanks.length + word.length) := by
  unfold matchDefine
  rw [h.split, List.dropPrefix?_append_of_beq _ (by simp)]
  simp only [h.takeWhile_blanks, h.dropWhile_eq, h.takeWhile_word, if_neg h.word_ne]
  rfl

end DefineAt

/-- Where the expression matches there is a word behind `+define+`. -/
theorem exists_defineAt {text word : List Char} {n : Nat} (h : matchDefine text = some (word, n)) :
    ∃ blanks post, DefineAt text blanks word post := by
  unfold matchDefine at h
  split at h
  · cases h
  · next rest hdrop =>
    obtain ⟨p, hsplit, hp⟩ := List.dropPrefix?_eq_some_iff.mp hdrop
    dsimp only at h
    split_ifs at h with hempty
    obtain ⟨rfl, -⟩ := Prod.mk.inj (Option.some.inj h)
    refine ⟨rest.takeWhile isSpace, (rest.dropWhile isSpace).dropWhile fun c => !isSpace c,
      ?_, ?_, hempty, ?_, ?_⟩
    · rw [hsplit, eq_of_beq hp, List.takeWhile_append_dropWhile, List.takeWhile_append_dropWhile]
    · exact fun c hc => List.mem_takeWhile_imp hc
    · intro c hc
      simpa using List.mem_takeWhile_imp hc
    · intro c hc
      have hhead := List.head?_dropWhile_not (fun c => !isSpace c) (rest.dropWhile isSpace)
      rw [Option.mem_def.mp hc] at hhead
      simpa using hhead

/-! ### What is found -/

/-- What is found stands behind a `+define+`. -/
theorem wordBehind_of_mem {skip : Nat} {text : List Char} {name : String}
    (h : name ∈ findDefines skip text) : WordBehind text name.toList := by
  induction text generalizing skip with
  | nil => cases skip <;> simp [findDefines] at h
  | cons c text ih =>
    have htail : ∀ skip, name ∈ findDefines skip text → WordBehind (c :: text) name.toList := by
      intro skip h
      obtain ⟨pre, found, blanks, post, rfl, hfound⟩ := ih h
      exact ⟨c :: pre, found, blanks, post, rfl, hfound⟩
    cases skip with
    | succ skip => exact htail skip h
    | zero =>
      rw [findDefines] at h
      cases hmatch : matchDefine (c :: text) with
      | none =>
        rw [hmatch] at h
        exact htail 0 h
      | some result =>
        rw [hmatch] at h
        rcases List.mem_cons.mp h with rfl | h
        · obtain ⟨blanks, post, hfound⟩ := exists_defineAt hmatch
          refine ⟨[], c :: text, blanks, post, rfl, ?_⟩
          rwa [String.toList_ofList]
        · exact htail _ h

theorem findDefines_skip (skip : Nat) (text : List Char) :
    findDefines skip text = findDefines 0 (text.drop skip) := by
  induction text generalizing skip with
  | nil => cases skip <;> rfl
  | cons c text ih =>
    cases skip with
    | zero => rfl
    | succ skip => exact ih skip

theorem toList_define : "+define+".toList = '+' :: ['d', 'e', 'f', 'i', 'n', 'e', '+'] := rfl

theorem DefineAt.plus_mem {found blanks word post front rest : List Char}
    (h : DefineAt found blanks word post) (hsplit : found = front ++ rest) (hne : front ≠ []) :
    '+' ∈ front := by
  obtain ⟨c, front, rfl⟩ := List.exists_cons_of_ne_nil hne
  rw [h.split, toList_define] at hsplit
  obtain ⟨rfl, -⟩ := List.cons.inj hsplit
  exact List.mem_cons_self

/-- Behind its front, the only `+` of `+define+` is the last character. -/
theorem eq_nil_of_plus {pre as : List Char} (hpre : pre ≠ [])
    (h : "+define+".toList = pre ++ '+' :: as) : as = [] := by
  have hget : "+define+".toList[pre.length]? = some '+' := by
    rw [h]
    simp
  have hlen := congrArg List.length h
  rw [List.length_append, List.length_cons, toList_define] at hlen
  simp only [List.length_cons, List.length_nil] at hlen
  have hpos : 0 < pre.length := List.length_pos_iff.mpr hpre
  have hseven : pre.length = 7 := by
    by_contra hne
    have hlt : pre.length < 7 := by omega
    revert hget
    rw [toList_define]
    generalize pre.length = k at hpos hlt
    interval_cases k <;> decide
  exact List.length_eq_zero_iff.mp (by omega)

/-- A `+define+` that begins with the last character of another one is in its word. -/
theorem DefineAt.plus_mem_of_shared {text found pre as blanks word post blanks' word' post' :
    List Char} (h : DefineAt text blanks word post) (h' : DefineAt found blanks' word' post')
    (hpre : pre ≠ []) (has : "+define+".toList = pre ++ as)
    (hfound : found = as ++ (blanks ++ word ++ post)) (hnil : as ≠ []) : '+' ∈ word := by
  obtain ⟨c, as, rfl⟩ := List.exists_cons_of_ne_nil hnil
  rw [h'.split, toList_define] at hfound
  obtain ⟨rfl, htail⟩ := List.cons.inj hfound
  obtain rfl := eq_nil_of_plus hpre has
  have htail : ['d', 'e', 'f', 'i', 'n', 'e', '+'] ++ (blanks' ++ (word' ++ post')) =
      blanks ++ (word ++ post) := by
    rw [← List.append_assoc blanks]
    exact htail
  cases blanks with
  | cons c blanks =>
    obtain ⟨rfl, -⟩ := List.cons.inj htail
    exact absurd (h.blank _ List.mem_cons_self) (by decide)
  | nil =>
    -- the word goes on at least to that `+`
    rw [List.nil_append] at htail
    have hdefine : ∀ c ∈ ['d', 'e', 'f', 'i', 'n', 'e', '+'], (!isSpace c) = true := by
      intro c hc
      fin_cases hc <;> rfl
    have hword := h.takeWhile_word
    rw [← htail, List.takeWhile_append_of_pos hdefine] at hword
    rw [← hword]
    exact List.mem_append_left _ (by simp)

/-- A match without `+` in its word does not reach into the next one. -/
theorem length_le_of_defineAt {text found pre blanks word post blanks' word' post' : List Char}
    (h : DefineAt text blanks word post) (h' : DefineAt found blanks' word' post')
    (hsplit : text = pre ++ found) (hpre : pre ≠ []) (hplus : '+' ∉ word) :
    8 + blanks.length + word.length ≤ pre.length := by
  have hblank : '+' ∉ blanks := fun hmem => absurd (h.blank _ hmem) (by decide)
  have hboth : ∀ front rest, found = front ++ rest → front ≠ [] →
      ¬ front <:+ blanks ++ word := by
    intro front rest hfront hne hsuffix
    rcases List.mem_append.mp (hsuffix.subset (h'.plus_mem hfront hne)) with hmem | hmem
    · exact hblank hmem
    · exact hplus hmem
  rw [h.split, ← List.append_assoc blanks] at hsplit
  rcases List.append_eq_append_iff.mp hsplit with ⟨bs, hbs, hrest⟩ | ⟨as, has, hfound⟩
  · -- behind the first `+define+`
    rcases List.append_eq_append_iff.mp hrest with ⟨as, has, -⟩ | ⟨cs, hcs, hfound⟩
    · rw [hbs, has]
      simp only [List.length_append, String.length_toList]
      have height : "+define+".length = 8 := by decide
      omega
    · by_cases hnil : cs = []
      · have hlen := congrArg List.length hcs
        rw [hnil, List.append_nil, List.length_append] at hlen
        rw [hbs, List.length_append, ← hlen, ← Nat.add_assoc]
        rfl
      · exact absurd ⟨bs, hcs.symm⟩ (hboth cs post hfound hnil)
  · by_cases hnil : as = []
    · rw [hnil, List.nil_append] at hfound
      exact absurd (List.suffix_refl _) (hboth _ _ hfound (by simp [h.word_ne]))
    · -- the two share a `+`
      exact absurd (h.plus_mem_of_shared h' hpre has hfound hnil) hplus

namespace WordBehind

variable {text word : List Char} {c : Char}

theorem ne_nil (h : WordBehind text word) : text ≠ [] := by
  obtain ⟨pre, found, blanks, post, rfl, hfound⟩ := h
  rw [hfound.split]
  simp

/-- Where nothing matches the word is further on. -/
theorem of_noMatch (h : WordBehind (c :: text) word) (hmatch : matchDefine (c :: text) = none) :
    WordBehind text word := by
  obtain ⟨pre, found, blanks, post, hsplit, hfound⟩ := h
  cases pre with
  | nil =>
    rw [List.nil_append] at hsplit
    rw [hsplit, hfound.matchDefine_eq] at hmatch
    cases hmatch
  | cons c' pre =>
    obtain ⟨-, hsplit⟩ := List.cons.inj hsplit
    exact ⟨pre, found, blanks, post, hsplit, hfound⟩

/-- Where a word without `+` matches, it is that word or behind the match. -/
theorem of_match {word' : List Char} {n : Nat} (h : WordBehind (c :: text) word)
    (hmatch : matchDefine (c :: text) = some (word', n)) (hplus : '+' ∉ word') :
    word = word' ∨ WordBehind (text.drop (n - 1)) word := by
  obtain ⟨pre, found, blanks, post, hsplit, hfound⟩ := h
  obtain ⟨blanks', post', hfirst⟩ := exists_defineAt hmatch
  have hn := Option.some.inj (hmatch.symm.trans hfirst.matchDefine_eq)
  obtain ⟨-, rfl⟩ := Prod.mk.inj hn
  by_cases hpre : pre = []
  · rw [hpre, List.nil_append] at hsplit
    rw [hsplit, hfound.matchDefine_eq] at hmatch
    exact .inl (Prod.mk.inj (Option.some.inj hmatch)).1
  · have hle := length_le_of_defineAt hfirst hfound hsplit hpre hplus
    refine .inr ⟨pre.drop (8 + blanks'.length + word'.length), found, blanks, post, ?_, hfound⟩
    have hdrop : text.drop (8 + blanks'.length + word'.length - 1) =
        (c :: text).drop (8 + blanks'.length + word'.length) := by
      rw [Nat.add_assoc 8, Nat.add_comm 8]
      rfl
    rw [hdrop, hsplit, List.drop_append_of_le_length hle]

end WordBehind

/-- **As long as no word that is found has a `+` in it, every word is found.** -/
theorem mem_of_wordBehind {text word : List Char}
    (hplus : ∀ name ∈ findDefines 0 text, '+' ∉ name.toList) (h : WordBehind text word) :
    .ofList word ∈ findDefines 0 text := by
  induction hlen : text.length using Nat.strong_induction_on generalizing text with
  | _ len ih =>
    subst hlen
    cases text with
    | nil => exact absurd rfl h.ne_nil
    | cons c text =>
      rw [findDefines] at hplus ⊢
      cases hmatch : matchDefine (c :: text) with
      | none =>
        rw [hmatch] at hplus
        exact ih text.length (by simp) hplus (h.of_noMatch hmatch) rfl
      | some result =>
        obtain ⟨word', n⟩ := result
        rw [hmatch] at hplus
        dsimp only at hplus ⊢
        rw [findDefines_skip] at hplus ⊢
        have hword : '+' ∉ word' := by
          simpa using hplus (.ofList word') List.mem_cons_self
        rcases h.of_match hmatch hword with rfl | hbehind
        · exact List.mem_cons_self
        · have hlt : (text.drop (n - 1)).length < (c :: text).length := by
            simp only [List.length_drop, List.length_cons]
            omega
          exact List.mem_cons_of_mem _ (ih _ hlt
            (fun name hname => hplus name (List.mem_cons_of_mem _ hname)) hbehind rfl)

/-! ### The file -/

section File

variable {opts : List CompileOption} {first : MacroDef} {rest : List MacroDef}

theorem MacroDef.text_ne (m : MacroDef) : m.text ≠ "" := by
  unfold text
  cases m.value with
  | none => exact m.name_ne
  | some v => simp [m.name_ne]

/-- Nothing in an option ends its word. -/
theorem MacroDef.not_isSpace (m : MacroDef) : ∀ c ∈ m.text.toList, ¬ isSpace c := by
  intro c hc
  unfold text at hc
  cases hvalue : m.value with
  | none =>
    rw [hvalue] at hc
    exact (m.inName.1 c hc).1
  | some v =>
    rw [hvalue] at hc
    simp only [String.toList_append, List.mem_append] at hc
    rcases hc with (hc | hc) | hc
    · exact (m.inName.1 c hc).1
    · obtain rfl : c = '=' := by simpa using hc
      decide
    · exact (m.inValue v (by simp [hvalue]) c hc).1

theorem mem_intercalate {sep : String} {texts : List String} {c : Char}
    (h : c ∈ (sep.intercalate texts).toList) : c ∈ sep.toList ∨ ∃ t ∈ texts, c ∈ t.toList := by
  induction texts with
  | nil => simp at h
  | cons t texts ih =>
    cases texts with
    | nil => exact Or.inr ⟨t, by simp, by simpa using h⟩
    | cons t' texts =>
      rw [String.intercalate_cons_cons, String.toList_append, String.toList_append,
        List.mem_append, List.mem_append] at h
      rcases h with (h | h) | h
      · exact Or.inr ⟨t, by simp, h⟩
      · exact Or.inl h
      · rcases ih h with h | ⟨t'', ht, h⟩
        · exact Or.inl h
        · exact Or.inr ⟨t'', List.mem_cons_of_mem _ ht, h⟩

/-- What an option asks for stands behind its `+define+`, as one word. -/
theorem wordBehind_define (h : .define first rest ∈ opts) :
    WordBehind (optionFile opts).toList
      ("+".intercalate ((first :: rest).map MacroDef.text)).toList := by
  set body := "+".intercalate ((first :: rest).map MacroDef.text) with hbody
  obtain ⟨before, after, rfl⟩ := List.append_of_mem h
  have hfile : optionFile (before ++ .define first rest :: after) =
      optionFile before ++ ("+define+" ++ body ++ "\n" ++ optionFile after) := by
    unfold optionFile unlines
    rw [List.map_append, List.map_append, String.join_append, List.map_cons, List.map_cons,
      String.join_cons]
    rfl
  refine ⟨(optionFile before).toList, _, [], '\n' :: (optionFile after).toList,
    by rw [hfile, String.toList_append], ?_⟩
  refine ⟨by simp, by simp, ?_, ?_, ?_⟩
  · rw [hbody]
    cases rest with
    | nil => simpa using first.text_ne
    | cons second rest => simp [String.intercalate_cons_cons, first.text_ne]
  · intro c hc
    rcases mem_intercalate hc with hplus | ⟨t, ht, hc⟩
    · obtain rfl : c = '+' := by simpa using hplus
      decide
    · obtain ⟨m, -, rfl⟩ := List.mem_map.mp ht
      exact m.not_isSpace c hc
  · intro c hc
    obtain rfl : c = '\n' := by simpa using hc.symm
    decide

theorem inName_of_mem {name : String} (h : name ∈ definedMacros opts) :
    '+' ∉ name.toList ∧ '=' ∉ name.toList := by
  obtain ⟨opt, -, hname⟩ := List.mem_flatMap.mp (List.mem_toFinset.mp h)
  cases opt with
  | other text oneLine defines => cases hname
  | define first rest =>
    obtain ⟨m, -, rfl⟩ := List.mem_map.mp hname
    exact ⟨fun hplus => (m.inName.1 _ hplus).2 rfl, m.inName.2⟩

/-- The text of an option is a name only if it is one macro without a value. -/
theorem single_of_name (h : '+' ∉ ("+".intercalate ((first :: rest).map MacroDef.text)).toList ∧
      '=' ∉ ("+".intercalate ((first :: rest).map MacroDef.text)).toList) :
    rest = [] ∧ first.value = none := by
  cases rest with
  | cons second rest =>
    rw [List.map_cons, List.map_cons, String.intercalate_cons_cons] at h
    simp at h
  | nil =>
    refine ⟨rfl, ?_⟩
    cases hvalue : first.value with
    | none => rfl
    | some v => simp [MacroDef.text, hvalue] at h

/-- A macro that is alone in its option is found. -/
theorem mem_findDefines_of_single
    (hplus : ∀ name ∈ findDefines 0 (optionFile opts).toList, '+' ∉ name.toList)
    (hopt : .define first [] ∈ opts) (hvalue : first.value = none) :
    first.name ∈ findDefines 0 (optionFile opts).toList := by
  have hword := mem_of_wordBehind hplus (wordBehind_define hopt)
  rw [String.ofList_toList] at hword
  simpa [MacroDef.text, hvalue] using hword

/-- **The macros are right iff every `+define+` option defines one macro without a value,
and the word behind any other `+define+` in the file is one of the macros too.** -/
theorem extracts_iff (opts : List CompileOption) :
    extractDefines (optionFile opts) = definedMacros opts ↔
      (∀ first rest, .define first rest ∈ opts → rest = [] ∧ first.value = none) ∧
      ∀ word, WordBehind (optionFile opts).toList word → .ofList word ∈ definedMacros opts := by
  have hfound : ∀ name, name ∈ extractDefines (optionFile opts) ↔
      name ∈ findDefines 0 (optionFile opts).toList := fun _ => List.mem_toFinset
  constructor
  · intro heq
    have hplus : ∀ name ∈ findDefines 0 (optionFile opts).toList, '+' ∉ name.toList := by
      intro name hname
      rw [← hfound, heq] at hname
      exact (inName_of_mem hname).1
    have hbehind : ∀ word, WordBehind (optionFile opts).toList word →
        .ofList word ∈ definedMacros opts := by
      intro word hword
      rw [← heq, hfound]
      exact mem_of_wordBehind hplus hword
    refine ⟨fun first rest hopt => ?_, hbehind⟩
    have hbody := inName_of_mem (hbehind _ (wordBehind_define hopt))
    rw [String.ofList_toList] at hbody
    exact single_of_name hbody
  · rintro ⟨hsingle, hbehind⟩
    have hsub : ∀ name ∈ findDefines 0 (optionFile opts).toList, name ∈ definedMacros opts := by
      intro name hname
      have hmem := hbehind _ (wordBehind_of_mem hname)
      rwa [String.ofList_toList] at hmem
    have hplus : ∀ name ∈ findDefines 0 (optionFile opts).toList, '+' ∉ name.toList :=
      fun name hname => (inName_of_mem (hsub name hname)).1
    ext name
    rw [hfound]
    refine ⟨hsub name, fun hname => ?_⟩
    obtain ⟨opt, hopt, hmacro⟩ := List.mem_flatMap.mp (List.mem_toFinset.mp hname)
    cases opt with
    | other text oneLine defines => cases hmacro
    | define first rest =>
      obtain ⟨rfl, hvalue⟩ := hsingle first rest hopt
      obtain rfl : name = first.name := by simpa [CompileOption.macros] using hmacro
      exact mem_findDefines_of_single hplus hopt hvalue

end File

/-- A macro without a value. -/
def plainMacro (name : String) (name_ne : name ≠ "") (inName : InOption name ∧ '=' ∉ name.toList) :
    MacroDef := { name, value := none, name_ne, inName, inValue := by simp }

/-- Two macros of `get_base_opts` in one option. -/
def synopsysOptions : List CompileOption :=
  [.define (plainMacro "SYNOPSYS_SV" (by decide) (by decide +kernel))
    [plainMacro "NTB" (by decide) (by decide +kernel)]]

/-- They are read as one. -/
theorem synopsysOptions_not_extracts :
    extractDefines (optionFile synopsysOptions) ≠ definedMacros synopsysOptions := by
  decide +kernel

end Testbench.Run
