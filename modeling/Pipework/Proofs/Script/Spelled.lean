import Pipework.Proofs.Script.Lexing
import Pipework.Proofs.Script.Written

/-!
# What is written is spelled as its tree

A scan of the script form of a value, a call or a pipeline yields the spelling of its tree, if the
names and numbers are such as a script can say.

The proofs go along the data. A value must not be touched from the left, for the sake of booleans,
nor gone on with from the right; the marks and blanks between the parts see to both. The lines of a
script stand on their own: a comment reaches to the end of its line, and everything else ends before
the line does.
-/

namespace Pipework.Script

open Script.Tree

/-! ## Names and values -/

/-- A name in front of a text that does not go on with it. -/
theorem yields_name {before : Option Char} {name : String} {rest : List Char} {ls : List Lexeme}
    (stop : Text.StopsAt isWordChar rest) (behind : ∀ before, Yields before rest ls) :
    Yields before (nameChars name ++ rest) ((Key.ofName name).lexeme :: ls) := by
  unfold nameChars Key.ofName
  by_cases bare : isBareWord name = true
  · rw [if_pos bare, if_pos bare]
    exact .word bare stop behind
  · rw [if_neg bare, if_neg bare]
    exact .quote behind

/-- A comma and a blank in front of a text. -/
theorem Yields.comma {before : Option Char} {rest : List Char} {ls : List Lexeme}
    (behind : Yields (some ' ') rest ls) :
    Yields before (',' :: ' ' :: rest) (.mark .comma :: ls) :=
  .mark .comma (.blank (by decide) behind)

/-- No value goes on with a character that closes, separates or ends a line. -/
theorem goesOn_closing {c : Char} (mem : c ∈ [',', ':', ']', '}', ')', '\n']) :
    goesOn c = false := by
  have none : [',', ':', ']', '\x7d', ')', '\n'].all (fun c => !goesOn c) = true := by
    decide +kernel
  simpa using List.all_eq_true.mp none c mem

mutual

/-- A value is read as it was written. -/
theorem yields_value (v : Json) (before : Option Char) {rest : List Char} {ls : List Lexeme}
    (fits : v.NumbersFit) (alone : before.any touches = false) (stop : Text.StopsAt goesOn rest)
    (behind : ∀ before, Yields before rest ls) :
    Yields before (valueChars v ++ rest) ((Value.ofJson v).spelling ++ ls) := by
  match v with
  | .null =>
    have null : isBareWord "null" = true := by decide
    exact .word null (stops_of_goesOn stop).1 behind
  | .bool b => exact .bool alone stop behind
  | .number n => exact yields_number fits stop behind
  | .string s =>
    rw [valueChars, Value.ofJson]
    by_cases reference : isReference s = true
    · rw [if_pos reference, if_pos reference]
      unfold isReference at reference
      split at reference
      next name split =>
        have spelled : Yields (some '$') ((String.ofList name).toList ++ rest) _ :=
          .word reference (stops_of_goesOn stop).1 behind
        rw [split]
        rw [String.toList_ofList] at spelled
        exact .mark .dollar spelled
      · cases reference
    · rw [if_neg reference, if_neg reference]
      exact .quote behind
  | .array items =>
    have inside := yields_items items (some '[') fits.2 (by decide +kernel) behind
    simp only [valueChars, Value.ofJson, Value.spelling, List.cons_append, List.append_assoc,
      List.nil_append]
    exact .mark .leftBracket inside
  | .object fields =>
    have inside := yields_entries fields (some '\x7b') fits.2 behind
    simp only [valueChars, Value.ofJson, Value.spelling, List.cons_append, List.append_assoc,
      List.nil_append]
    exact .mark .leftBrace inside

/-- Items are read as they were written, with the bracket that closes them. -/
theorem yields_items (items : List Json) (before : Option Char) {rest : List Char}
    {ls : List Lexeme} (fits : Json.AllItems Json.NumberFits items)
    (alone : before.any touches = false) (behind : ∀ before, Yields before rest ls) :
    Yields before (itemsChars items ++ ']' :: rest)
      (joined false (itemSpellings (ofItems items)) ++ .mark .rightBracket :: ls) := by
  match items with
  | [] => exact .mark .rightBracket (behind _)
  | [v] =>
    simp only [itemsChars, ofItems, itemSpellings, joined_single_false]
    exact yields_value v _ fits.1 alone (Text.stopsAt_cons (goesOn_closing (by decide)))
      fun _ => .mark .rightBracket (behind _)
  | v :: w :: vs =>
    simp only [itemsChars, ofItems, itemSpellings, joined_cons_cons, List.append_assoc,
      List.cons_append]
    refine yields_value v _ fits.1 alone (Text.stopsAt_cons (goesOn_closing (by decide)))
      fun _ => .comma ?_
    exact yields_items (w :: vs) _ fits.2 (by decide +kernel) behind

/-- Entries are read as they were written, with the brace that closes them. -/
theorem yields_entries (fields : List (String × Json)) (before : Option Char) {rest : List Char}
    {ls : List Lexeme} (fits : Json.AllFields Json.NumberFits fields)
    (behind : ∀ before, Yields before rest ls) :
    Yields before (entriesChars fields ++ '}' :: rest)
      (joined false (entrySpellings (ofFields fields)) ++ .mark .rightBrace :: ls) := by
  -- The name of an entry, the colon and the blank, whatever the value is.
  have named : ∀ {before : Option Char} {k : String} {after : List Char} {ls : List Lexeme},
      Yields (some ' ') after ls →
      Yields before (nameChars k ++ ':' :: ' ' :: after)
        ((Key.ofName k).lexeme :: .mark .colon :: ls) :=
    fun value => yields_name (Text.stopsAt_cons (by decide))
      fun _ => .mark .colon (.blank (by decide) value)
  match fields with
  | [] => exact .mark .rightBrace (behind _)
  | [(k, v)] =>
    simp only [entriesChars, ofFields, entrySpellings, joined_single_false, List.append_assoc,
      List.cons_append]
    exact named (yields_value v _ fits.1 (by decide +kernel)
      (Text.stopsAt_cons (goesOn_closing (by decide))) fun _ => .mark .rightBrace (behind _))
  | (k, v) :: (k', v') :: fields =>
    simp only [entriesChars, ofFields, entrySpellings, joined_cons_cons, List.append_assoc,
      List.cons_append]
    refine named (yields_value v _ fits.1 (by decide +kernel)
      (Text.stopsAt_cons (goesOn_closing (by decide))) fun _ => .comma ?_)
    exact yields_entries ((k', v') :: fields) _ fits.2 behind

end

/-! ## Calls -/

/-- An argument is read as it was written. -/
theorem yields_param (unnamed : Nat) {key : String} {value : Json} {before : Option Char}
    {rest : List Char} {ls : List Lexeme} (bare : isBareWord key = true) (fits : value.NumbersFit)
    (alone : before.any touches = false) (stop : Text.StopsAt goesOn rest)
    (behind : ∀ before, Yields before rest ls) :
    Yields before (paramChars unnamed key value ++ rest)
      ((Argument.ofParam unnamed key value).spelling ++ ls) := by
  by_cases counted : key = positionalKey unnamed
  · simp only [paramChars, Argument.ofParam, counted, ↓reduceIte, Argument.spelling]
    exact yields_value value _ fits alone stop behind
  · simp only [paramChars, Argument.ofParam, counted, ↓reduceIte, Argument.spelling,
      List.append_assoc, List.cons_append]
    have written := yields_value value (some '=') fits (by decide +kernel) stop behind
    exact .word bare (Text.stopsAt_cons (by decide)) fun _ => .mark .equals written

/-- Arguments are read as they were written, with the parenthesis that closes them. -/
theorem yields_params (params : Params) (unnamed : Nat) (before : Option Char) {rest : List Char}
    {ls : List Lexeme} (bare : ∀ param ∈ params, isBareWord param.1 = true)
    (fits : Json.AllFields Json.NumberFits params) (alone : before.any touches = false)
    (behind : ∀ before, Yields before rest ls) :
    Yields before (paramsChars unnamed params ++ ')' :: rest)
      (joined false ((ofParams unnamed params).map Argument.spelling) ++
        .mark .rightParen :: ls) := by
  match params with
  | [] => exact .mark .rightParen (behind _)
  | [(k, v)] =>
    simp only [paramsChars, ofParams, List.map_cons, List.map_nil, joined_single_false]
    exact yields_param unnamed (bare _ List.mem_cons_self) fits.1 alone
      (Text.stopsAt_cons (goesOn_closing (by decide))) fun _ => .mark .rightParen (behind _)
  | (k, v) :: (k', v') :: params =>
    have others := fun following : Nat =>
      yields_params ((k', v') :: params) following (some ' ')
        (fun param mem => bare param (List.mem_cons_of_mem _ mem)) fits.2 (by decide +kernel) behind
    simp only [paramsChars, ofParams, List.map_cons, joined_cons_cons, List.append_assoc,
      List.cons_append] at others ⊢
    exact yields_param unnamed (bare _ List.mem_cons_self) fits.1 alone
      (Text.stopsAt_cons (goesOn_closing (by decide))) fun _ => .comma (others _)

/-- The name of a type is a word that spells no boolean. -/
theorem isBareWord_name (type : AtomType) : isBareWord type.name = true := by
  cases type <;> decide

/-- A call is read as it was written, whatever stands beside it. -/
theorem yields_atom {atom : Atom} {before : Option Char} {rest : List Char} {ls : List Lexeme}
    (bare : isBareWord atom.action = true) (expressible : Fields.Expressible atom.params)
    (behind : ∀ before, Yields before rest ls) :
    Yields before (atomChars atom ++ rest) ((Call.ofAtom atom).spelling ++ ls) := by
  have split : atomChars atom ++ rest = atom.type.name.toList ++ '.' :: (atom.action.toList ++
      '(' :: (paramsChars 0 atom.params ++ ')' :: rest)) := by
    simp only [atomChars, Atom.qualifiedName, String.toList_append, List.append_assoc,
      List.cons_append, List.nil_append]
    rfl
  have params := yields_params atom.params 0 (some '(') expressible.1
    expressible.2 (by decide +kernel) behind
  have action : Yields (some '.') (atom.action.toList ++
      '(' :: (paramsChars 0 atom.params ++ ')' :: rest)) _ :=
    .word bare (Text.stopsAt_cons (by decide)) fun _ => .mark .leftParen params
  have whole : Yields before (atom.type.name.toList ++ '.' :: _) _ :=
    .word (isBareWord_name atom.type) (Text.stopsAt_cons (by decide)) fun _ => .mark .dot action
  rw [split]
  simpa only [Call.ofAtom, Call.spelling, List.cons_append, List.append_assoc, List.nil_append]
    using whole

/-! ## Lines -/

/-- The line yields these lexemes in front of whatever stands on the lines below. -/
def LineYields (line : List Char) (ls : List Lexeme) : Prop :=
  ∀ ⦃before : Option Char⦄ ⦃rest : List Char⦄ ⦃below : List Lexeme⦄,
    Text.StopsAt (· != '\n') rest → (∀ before, Yields before rest below) →
      Yields before (line ++ rest) (ls ++ below)

/-- The lines yield these lexemes up to the end of the text. -/
def LinesYield (lines : List (List Char)) (ls : List Lexeme) : Prop :=
  ∀ before, Yields before (joinLines lines) ls

theorem linesYield_nil : LinesYield [] [.finish] := yields_nil

/-- A line in front of others. -/
theorem LinesYield.cons {line : List Char} {lines : List (List Char)} {ls below : List Lexeme}
    (first : LineYields line ls) (others : LinesYield lines below) :
    LinesYield (line :: lines) (ls ++ below) := by
  intro before
  cases lines with
  | nil =>
    have last : Yields before (line ++ []) _ := first Text.stopsAt_nil others
    rwa [List.append_nil] at last
  | cons next lines =>
    have ends : Text.StopsAt (· != '\n') ('\n' :: joinLines (next :: lines)) :=
      Text.stopsAt_cons (by decide)
    exact first ends fun _ => .blank (by decide) (others _)

/-- Lines of one kind in front of others. -/
theorem LinesYield.map_append {α : Type} {line : α → List Char} {spell : α → List Lexeme}
    {parts : List α} {lines : List (List Char)} {below : List Lexeme}
    (each : ∀ part ∈ parts, LineYields (line part) (spell part)) (others : LinesYield lines below) :
    LinesYield (parts.map line ++ lines) (parts.flatMap spell ++ below) := by
  induction parts with
  | nil => exact others
  | cons part parts ih =>
    rw [List.map_cons, List.cons_append, List.flatMap_cons, List.append_assoc]
    exact .cons (each part List.mem_cons_self)
      (ih fun part mem => each part (List.mem_cons_of_mem _ mem))

/-- Two blanks in front of a line change nothing. -/
theorem LineYields.indented {line : List Char} {ls : List Lexeme} (inner : LineYields line ls) :
    LineYields (' ' :: ' ' :: line) ls := by
  intro before rest below ends behind
  exact .blank (by decide) (.blank (by decide) (inner ends behind))

/-- No value goes on at the end of its line. -/
theorem stopsAt_goesOn {rest : List Char} (ends : Text.StopsAt (· != '\n') rest) :
    Text.StopsAt goesOn rest := by
  intro c h
  have feed : c = '\n' := by simpa using ends c h
  rw [feed]
  exact goesOn_closing (by decide)

theorem lineYields_header (name : String) :
    LineYields ("@pipeline ".toList ++ nameChars name ++ [':'])
      (headerSpelling (some (Key.ofName name))) := by
  intro before rest below _ behind
  have named : Yields (some ' ') (nameChars name ++ ':' :: rest) _ :=
    yields_name (Text.stopsAt_cons (by decide)) fun _ => .mark .colon (behind _)
  have word : Yields (some '@') ("pipeline".toList ++ ' ' :: _) _ :=
    .word (by decide) (Text.stopsAt_cons (by decide)) fun _ => .blank (by decide) named
  have split : "@pipeline ".toList = '@' :: ("pipeline".toList ++ [' ']) := by decide
  simp only [headerSpelling, split, List.append_assoc, List.cons_append, List.nil_append]
  exact .mark .at word

theorem lineYields_comment {text : List Char} (line : '\n' ∉ text) :
    LineYields (' ' :: ' ' :: '#' :: ' ' :: text) [] := by
  refine LineYields.indented ?_
  intro before rest below ends behind
  have blank : '\n' ∉ ' ' :: text := by simpa using line
  exact .comment blank ends behind

theorem lineYields_variable {name : String} {value : Json} (bare : isBareWord name = true)
    (fits : value.NumbersFit) :
    LineYields (variableChars name value) (variableSpelling (name, Value.ofJson value)) := by
  intro before rest below ends behind
  have written := yields_value value (some ' ') fits (by decide +kernel)
    (stopsAt_goesOn ends) behind
  have named : Yields (some '$') (name.toList ++ ' ' :: '=' :: ' ' :: _) _ :=
    .word bare (Text.stopsAt_cons (by decide)) fun _ =>
      .blank (by decide) (.mark .equals (.blank (by decide) written))
  simp only [variableChars, variableSpelling, List.append_assoc, List.cons_append]
  exact .blank (by decide) (.blank (by decide) (.mark .dollar named))

theorem lineYields_step {atom : Atom} (bare : isBareWord atom.action = true)
    (expressible : Fields.Expressible atom.params) :
    LineYields (' ' :: ' ' :: atomChars atom) (Call.ofAtom atom).spelling := by
  refine LineYields.indented ?_
  intro before rest below _ behind
  exact yields_atom bare expressible behind

theorem lineYields_next_step {atom : Atom} (bare : isBareWord atom.action = true)
    (expressible : Fields.Expressible atom.params) :
    LineYields (' ' :: ' ' :: '|' :: ' ' :: atomChars atom)
      (.mark .pipe :: (Call.ofAtom atom).spelling) := by
  refine LineYields.indented ?_
  intro before rest below _ behind
  exact .mark .pipe (.blank (by decide) (yields_atom bare expressible behind))

/-! ## Pipelines -/

/-- A line has no line feed in it. -/
theorem notMem_of_mem_linesOf {cs line : List Char} (mem : line ∈ Text.linesOf cs) :
    '\n' ∉ line := by
  fun_induction Text.linesOf cs generalizing line with
  | case1 => cases mem
  | case2 cs ih =>
    rcases List.mem_cons.mp mem with rfl | mem
    · exact List.not_mem_nil
    · exact ih mem
  | case3 cs ih =>
    rcases List.mem_cons.mp mem with rfl | mem
    · exact List.not_mem_nil
    · exact ih mem
  | case4 c cs feed _ none ih =>
    obtain rfl := List.mem_singleton.mp mem
    rw [List.mem_singleton]
    exact fun same => feed same.symm
  | case5 c cs feed _ first lines split ih =>
    rw [split] at ih
    rcases List.mem_cons.mp mem with rfl | mem
    · rw [List.mem_cons, not_or]
      exact ⟨fun same => feed same.symm, ih List.mem_cons_self⟩
    · exact ih (List.mem_cons_of_mem _ mem)

theorem linesYield_steps {steps : List Step}
    (expressible : ∀ step ∈ steps, isBareWord step.atom.action = true ∧
      Fields.Expressible step.atom.params) :
    LinesYield (stepLines steps)
      (callSpellings (steps.map fun step => Call.ofAtom step.atom) ++ [.finish]) := by
  cases steps with
  | nil => exact linesYield_nil
  | cons first others =>
    obtain ⟨bare, inside⟩ := expressible first List.mem_cons_self
    have next : LinesYield (others.map _ ++ []) (others.flatMap _ ++ [.finish]) :=
      linesYield_nil.map_append fun step mem =>
        have ⟨bare, inside⟩ := expressible step (List.mem_cons_of_mem _ mem)
        lineYields_next_step bare inside
    rw [List.append_nil] at next
    simpa only [stepLines, List.map_cons, callSpellings, List.flatMap_map, List.append_assoc]
      using next.cons (lineYields_step bare inside)

/-- **The script of a pipeline scans to the spelling of its tree.** -/
theorem tokenize_toScript {p : Pipeline} (expressible : p.Expressible) :
    ∃ ts, tokenize p.toScript = .ok ts ∧
      lexemes ts = (Source.ofPipeline p).spelling ++ [.finish] := by
  obtain ⟨⟨varsBare, varsFit⟩, stepsExpressible⟩ := expressible
  have comments : ∀ line ∈ Text.linesOf p.description.toList,
      LineYields (' ' :: ' ' :: '#' :: ' ' :: line) [] :=
    fun line mem => lineYields_comment (notMem_of_mem_linesOf mem)
  have declared : ∀ field ∈ p.vars, LineYields (variableChars field.1 field.2)
      (variableSpelling (field.1, Value.ofJson field.2)) :=
    fun field mem =>
      lineYields_variable (varsBare field mem) (Json.allFields_iff.mp varsFit field mem)
  have lines := (((linesYield_steps stepsExpressible).map_append declared).map_append
    comments).cons (lineYields_header p.name)
  obtain ⟨ts, scanned, spelled⟩ := lines none .start
  refine ⟨ts, ?_, ?_⟩
  · rw [tokenize, Pipeline.toScript, String.toList_ofList]
    simpa only [pipelineLines, List.append_assoc, List.cons_append] using scanned
  · rw [spelled, Source.spelling, Source.ofPipeline]
    have silent :
        (Text.linesOf p.description.toList).flatMap (fun _ => ([] : List Lexeme)) = [] := by
      simp
    simp only [silent, List.flatMap_map, List.append_assoc, List.nil_append]

end Pipework.Script
