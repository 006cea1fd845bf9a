import Mathlib.Data.List.Basic
import Pipework.Proofs.Script.Layout
import Pipework.Proofs.Script.RoundTrip

/-!
# Texts joined by a pipe

A line break parts texts for good. Whatever a text that can be scanned ends with (a word, a number
with its point, a comment) does not go on behind the break, and what stands in front of the break
touches nothing behind it. So two texts on lines of their own have the tokens of the first, without
its end, and those of the second (`tokenize_lines`). The converse is false, since a text in quotes may
go over a break.

With a pipe on a line between them, two scripts are one: the calls of a script are a sequence with
pipes between them, and what stands in front of a call does not matter for it.
-/

namespace Pipework.Script

open Script.Tree

/-! ## Lines -/

section

variable {before : Option Char} {raw front cs rest : List Char} {l : Option Lexeme} {ls : List Lexeme}
  {tiles : List Tile}

/-- A line break in front of a text changes nothing. -/
theorem yields_lineBreak (behind : YieldsBehindBlank rest ls) : Yields before ('\n' :: rest) ls :=
  Yields.blank isBlank_lineBreak (behind '\n' isBlank_lineBreak)

/-- The last piece of a text is taken as it was in front of a line break, or goes on with the break as
blanks do. -/
theorem Takes.yields_line (takes : Takes before [] raw l) (behind : YieldsBehindBlank rest ls) :
    Yields before (raw ++ '\n' :: rest) (l.toList ++ ls) := by
  cases l with
  | some l =>
    have stop : Text.StopsAt goesOn ('\n' :: rest) := Text.stopsAt_cons (by decide +kernel)
    exact (takes.parted nofun stop).yields (yields_lineBreak behind)
  | none =>
    cases takes with
    | blanks some all _ => exact yields_blanks some all fun _ _ => yields_lineBreak behind
    | comment inside _ =>
      exact Yields.comment inside (Text.stopsAt_cons (by decide)) fun _ => yields_lineBreak behind

/-- A tiled text and a text behind it on a line of its own yield what each of them does. -/
theorem Tiled.yields_line (tiled : Tiled front cs tiles []) (behind : YieldsBehindBlank rest ls) :
    Yields front.getLast? (cs ++ '\n' :: rest) (lexemesOf tiles ++ ls) := by
  induction tiles generalizing front cs with
  | nil =>
    cases tiled
    exact yields_lineBreak behind
  | cons tile tiles ih =>
    cases tiled with
    | @tile _ following _ _ _ takes more =>
      have inner := ih more
      rw [List.getLast?_append_of_ne_nil _ takes.ne_nil] at inner
      rw [lexemesOf, List.flatMap_cons, List.append_assoc, List.append_assoc]
      cases tiles with
      | nil =>
        cases more
        exact takes.yields_line behind
      | cons next tiles =>
        -- More pieces follow, so the character behind this one is what it was.
        have left : following ≠ [] := by
          cases more with
          | tile takes' _ => exact fun none => takes'.ne_nil (List.append_eq_nil_iff.mp none).1
        exact (takes.congr (List.head?_append_of_ne_nil _ left).symm).yields inner

end

/-- The lexemes of a text that is scanned are those of its pieces, and the end. -/
theorem exists_tiled_lexemes {text : String} {ts : List Token} (scanned : tokenize text = .ok ts) :
    ∃ tiles, Tiled [] text.toList tiles [] ∧ lexemes ts = lexemesOf tiles ++ [.finish] := by
  obtain ⟨tiles, tiled, rfl⟩ := exists_tiled_of_tokenize scanned
  refine ⟨tiles, tiled, ?_⟩
  rw [lexemes, List.map_append, ← lexemes, lexemes_tokensOf]
  rfl

/-- **Lines are scanned each on its own.** Where two texts are scanned, so is the one followed by the
other on a new line; it has the lexemes of the first up to its end, and those of the second. -/
theorem tokenize_lines {a b : String} {ts us : List Token} (scanned : tokenize a = .ok ts)
    (scanned' : tokenize b = .ok us) : ∃ ls vs, lexemes ts = ls ++ [.finish] ∧
      tokenize (a ++ "\n" ++ b) = .ok vs ∧ lexemes vs = ls ++ lexemes us := by
  obtain ⟨tiles, tiled, all⟩ := exists_tiled_lexemes scanned
  obtain ⟨tiles', tiled', all'⟩ := exists_tiled_lexemes scanned'
  have behind : YieldsBehindBlank b.toList (lexemes us) := by
    rw [all']
    exact tiled'.yields_untouched fun touched => Bool.false_ne_true touched.1
  obtain ⟨vs, joined, spelled⟩ := tokenize_of_yields (tiled.yields_line behind)
  have text : String.ofList (a.toList ++ '\n' :: b.toList) = a ++ "\n" ++ b := by
    rw [← String.toList_inj]
    simp only [String.toList_ofList, String.toList_append, List.append_assoc]
    rfl
  rw [text] at joined
  exact ⟨lexemesOf tiles, vs, all, joined, spelled⟩

/-- Two texts with a pipe on the line between them have the lexemes of both with the pipe between
them. -/
theorem tokenize_piped {a b : String} {ts us : List Token} (scanned : tokenize a = .ok ts)
    (scanned' : tokenize b = .ok us) : ∃ ls vs, lexemes ts = ls ++ [.finish] ∧
      tokenize (a ++ "\n|\n" ++ b) = .ok vs ∧ lexemes vs = ls ++ .mark .pipe :: lexemes us := by
  have pipe : tokenize "|" = .ok [⟨.mark .pipe, .start⟩, ⟨.finish, ⟨1, 1, 2⟩⟩] := by decide +kernel
  obtain ⟨ls, vs, all, joined, spelled⟩ := tokenize_lines scanned pipe
  obtain ⟨ls', ws, all', joined', spelled'⟩ := tokenize_lines joined scanned'
  have same : ls' = ls ++ [.mark .pipe] := by
    refine (List.append_left_inj [Lexeme.finish]).mp ?_
    rw [← all', spelled, List.append_assoc]
    rfl
  have text : a ++ "\n" ++ "|" ++ "\n" ++ b = a ++ "\n|\n" ++ b := by
    rw [String.append_assoc, String.append_assoc, String.append_assoc, String.append_assoc]
    rfl
  rw [text] at joined'
  refine ⟨ls, ws, all, joined', ?_⟩
  rw [spelled', same, List.append_assoc, List.singleton_append]

/-! ## Scripts -/

/-- Calls behind calls are spelled with a pipe between them. -/
theorem callSpellings_append {calls others : List Tree.Call} (some : calls ≠ []) (more : others ≠ []) :
    callSpellings (calls ++ others) =
      callSpellings calls ++ .mark .pipe :: callSpellings others := by
  obtain ⟨call, calls, rfl⟩ := List.exists_cons_of_ne_nil some
  obtain ⟨other, others, rfl⟩ := List.exists_cons_of_ne_nil more
  simp only [List.cons_append, callSpellings, List.flatMap_append, List.flatMap_cons,
    List.append_assoc]

/-- The script with more calls behind its own. -/
def Tree.Source.goOn (script : Tree.Source) (calls : List Tree.Call) : Tree.Source :=
  { script with calls := script.calls ++ calls }

section GoOn

variable {script : Tree.Source} {calls : List Tree.Call}

theorem spelling_goOn (some : script.calls ≠ []) (more : calls ≠ []) :
    (script.goOn calls).spelling = script.spelling ++ .mark .pipe :: callSpellings calls := by
  simp only [Source.goOn, Source.spelling, callSpellings_append some more, List.append_assoc]

theorem meaning_goOn (fallback : AtomType) : (script.goOn calls).meaning fallback =
    { script.meaning fallback with
      steps := (script.meaning fallback).steps ++ calls.map (Call.meaning fallback) } := by
  simp only [Source.goOn, Source.meaning, List.map_append]

end GoOn

/-- What is read from a text is the meaning of a script that its tokens spell up to their end. -/
theorem exists_source_of_parse {unknown : UnknownTypes} {text : String} {p : Pipeline}
    (parsed : parse unknown text = .ok p) :
    ∃ (ts : List Token) (script : Tree.Source), tokenize text = .ok ts ∧
      lexemes ts = script.spelling ++ [.finish] ∧ script.KeysUnique ∧
      (∀ call ∈ script.calls, unknown.Admits call.module) ∧
      script.meaning unknown.fallback = p := by
  obtain ⟨ts, scanned, read⟩ := parse_eq_ok.mp parsed
  obtain ⟨script, beyond, spelled, unique, admitted, meant⟩ := readPipeline_sound read
  rw [tokenize_ends scanned spelled] at spelled
  exact ⟨ts, script, scanned, spelled, unique, admitted, meant⟩

/-- A script that begins with a word consists of calls. -/
theorem calls_of_spelling {script : Tree.Source} {name : String} {behind : List Lexeme}
    (spelled : script.spelling ++ [.finish] = .word name :: behind) :
    script.spelling = callSpellings script.calls ∧ script.calls ≠ [] := by
  obtain ⟨header, vars, calls⟩ := script
  cases header with
  | some key => cases spelled
  | none =>
    cases vars with
    | cons => cases spelled
    | nil =>
      refine ⟨rfl, ?_⟩
      rintro rfl
      cases spelled

/-- **Piping texts concatenates pipelines.** Let a text give a pipeline with a step, and let another one
that begins with a word give a pipeline. The two with a pipe on the line between them give the first
pipeline with the steps of the second behind its own. -/
theorem piped_texts_concatenate {unknown : UnknownTypes} {a b : String} {p q : Pipeline}
    (first : parse unknown a = .ok p) (some : p.steps ≠ []) (second : parse unknown b = .ok q)
    {name : String} {place : Position} {behind : List Token}
    (called : tokenize b = .ok (⟨.word name, place⟩ :: behind)) :
    parse unknown (a ++ "\n|\n" ++ b) = .ok { p with steps := p.steps ++ q.steps } := by
  obtain ⟨ts, script, scanned, spelled, unique, admitted, rfl⟩ := exists_source_of_parse first
  obtain ⟨us, script', scanned', spelled', unique', admitted', rfl⟩ := exists_source_of_parse second
  cases called.symm.trans scanned'
  obtain ⟨onlyCalls, more⟩ := calls_of_spelling spelled'.symm
  have some : script.calls ≠ [] := fun none => some (List.map_eq_nil_iff.mpr none)
  obtain ⟨ls, vs, all, joined, piped⟩ := tokenize_piped scanned scanned'
  obtain rfl : ls = script.spelling := (List.append_left_inj _).mp (all.symm.trans spelled)
  -- The first script spells the whole when it goes on with the calls of the second.
  have derived : lexemes vs = (script.goOn script'.calls).spelling ++ [.finish] := by
    rw [piped, spelled', onlyCalls, spelling_goOn some more, List.append_assoc, List.cons_append]
  have read := readPipeline_complete (script.goOn script'.calls)
    (List.forall_mem_append.mpr ⟨unique, unique'⟩)
    (List.forall_mem_append.mpr ⟨admitted, admitted'⟩) derived
  rw [meaning_goOn] at read
  exact parse_eq_ok.mpr ⟨vs, joined, read⟩

/-- A script with a header that ends with a comment. -/
def headed : String := "@pipeline p: data.load(7) # x"

/-- Two calls, one with a text that goes over a line break. -/
def unheaded : String := "view.table('a\nb') | ui.menu()"

/-- The two scripts as one. -/
theorem headed_goes_on :
    ∃ p q name place behind, parse .reject headed = .ok p ∧ p.steps ≠ [] ∧
      parse .reject unheaded = .ok q ∧ tokenize unheaded = .ok (⟨.word name, place⟩ :: behind) ∧
      p.name = "p" ∧ p.steps.length = 1 ∧ q.steps.length = 2 ∧
      parse .reject (headed ++ "\n|\n" ++ unheaded) = .ok { p with steps := p.steps ++ q.steps } := by
  obtain ⟨p, first, name, one⟩ :
      ∃ p, parse .reject headed = .ok p ∧ p.name = "p" ∧ p.steps.length = 1 := by decide +kernel
  obtain ⟨q, second, two⟩ : ∃ q, parse .reject unheaded = .ok q ∧ q.steps.length = 2 := by
    decide +kernel
  have called : tokenize unheaded =
      .ok (⟨.word "view", .start⟩ :: ((tokenize unheaded).toOption.getD []).tail) := by decide +kernel
  have some := List.ne_nil_of_length_pos (Nat.lt_of_lt_of_eq Nat.zero_lt_one one.symm)
  exact ⟨_, _, _, _, _, first, some, second, called, name, one, two,
    piped_texts_concatenate first some second called⟩

end Pipework.Script
