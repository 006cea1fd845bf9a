import Mathlib.Computability.Language
import Mathlib.Data.Set.List
import Pipework.Proofs.Script.Tree

/-!
# The grammar as languages

What each kind of tree spells is a language of lexemes, and the grammar of scripts is a system of
equations between these languages: one for each nonterminal, with alternatives as sums and sequences as
products (`values_eq` to `sentences_eq`).

A reader looks at the next lexeme and goes on with what may stand behind it. So it is the words with a
given first lexeme that count, and an equation tells which these are: the product of a class of lexemes
and a language has the words whose first lexeme is of the class and whose rest is in the language
(`cons_mem_single_mul`).
-/

namespace Pipework.Script.Grammar

open Script.Tree

/-! ## Classes of lexemes -/

/-- The lexemes of a class, each of them alone. -/
def single (p : Lexeme → Prop) : Language Lexeme := {w | ∃ l, p l ∧ w = [l]}

section

variable {p : Lexeme → Prop} {l : Lexeme} {w : List Lexeme} {K L : Language Lexeme}

/-- A word of a class and a language is a lexeme of the class in front of a word of the language. -/
theorem mem_single_mul : w ∈ single p * K ↔ ∃ l v, w = l :: v ∧ p l ∧ v ∈ K := by
  rw [Language.mem_mul]
  constructor
  · rintro ⟨_, ⟨l, good, rfl⟩, v, mem, rfl⟩
    exact ⟨l, v, rfl, good, mem⟩
  · rintro ⟨l, v, rfl, good, mem⟩
    exact ⟨[l], ⟨l, good, rfl⟩, v, mem, rfl⟩

/-- It is the first lexeme that is of the class, and the rest that is in the language. -/
theorem cons_mem_single_mul : l :: w ∈ single p * K ↔ p l ∧ w ∈ K := by
  rw [mem_single_mul]
  constructor
  · rintro ⟨_, _, same, good, mem⟩
    cases same
    exact ⟨good, mem⟩
  · rintro ⟨good, mem⟩
    exact ⟨l, w, rfl, good, mem⟩

/-- A word of a class is one lexeme. -/
theorem cons_mem_single : l :: w ∈ single p ↔ p l ∧ w = [] := by
  constructor
  · rintro ⟨_, good, same⟩
    cases same
    exact ⟨good, rfl⟩
  · rintro ⟨good, rfl⟩
    exact ⟨l, good, rfl⟩

end

/-- A mark. -/
abbrev mark (m : Mark) : Language Lexeme := single (· = .mark m)

/-- The end. -/
abbrev finish : Language Lexeme := single (· = .finish)

/-- A word. -/
abbrev words : Language Lexeme := single fun l => ∃ name, l = .word name

/-- A word or a text, where a name is needed. -/
abbrev keys : Language Lexeme := single fun l => ∃ key : Key, l = key.lexeme

/-- A lexeme that is a value by itself. -/
def Leaf (l : Lexeme) : Prop :=
  (∃ s, l = .text s) ∨ (∃ n, l = .number n) ∨ (∃ b, l = .bool b) ∨ ∃ name, l = .word name

/-! ## What trees spell -/

/-- Parts with commas between them and behind them, and the mark that closes them. -/
def closed (close : Mark) (parts : Language Lexeme) : Language Lexeme :=
  {w | ∃ comma ws, (∀ part ∈ ws, part ∈ parts) ∧ w = joined comma ws ++ [.mark close]}

/-- What may stand behind a part. -/
abbrev separated (close : Mark) (parts : Language Lexeme) : Language Lexeme :=
  mark close + mark .comma * closed close parts

def values : Language Lexeme := Set.range Value.spelling

/-- The lexemes of an entry of an object. -/
def entrySpelling (entry : Key × Value) : List Lexeme :=
  entry.1.lexeme :: .mark .colon :: entry.2.spelling

def entries : Language Lexeme := Set.range entrySpelling

def arguments : Language Lexeme := Set.range Argument.spelling

def calls : Language Lexeme := Set.range Tree.Call.spelling

/-- At least one call, and the end. -/
def steps : Language Lexeme := {w | ∃ call calls, w = callSpellings (call :: calls) ++ [.finish]}

/-- What may stand behind declarations: calls, if there are any, and the end. -/
def ends : Language Lexeme := {w | ∃ calls, w = callSpellings calls ++ [.finish]}

/-- What may stand behind a header: declarations, calls and the end. -/
def bodies : Language Lexeme :=
  {w | ∃ (vars : List (String × Value)) (calls : List Tree.Call),
    w = vars.flatMap variableSpelling ++ (callSpellings calls ++ [.finish])}

/-- Whole scripts with the end. -/
def sentences : Language Lexeme := {w | ∃ script : Source, w = script.spelling ++ [.finish]}

/-! ## Equations -/

section

variable {close : Mark} {parts : Language Lexeme} {w : List Lexeme}

/-- A closed sequence is the closing mark alone, or a part with what may stand behind it. -/
theorem closed_eq (close : Mark) (parts : Language Lexeme) :
    closed close parts = mark close + parts * separated close parts := by
  ext w
  rw [Language.mem_add, Language.mem_mul]
  constructor
  · rintro ⟨comma, ws, good, rfl⟩
    cases ws with
    | nil => exact .inl ⟨_, rfl, rfl⟩
    | cons part ws =>
      obtain ⟨here, more⟩ := List.forall_mem_cons.mp good
      refine .inr ⟨part, here, ?_⟩
      rcases joined_cons_cases comma part ws with followed | ⟨-, last⟩
      · refine ⟨.mark .comma :: (joined comma ws ++ [.mark close]), .inr ?_, ?_⟩
        · exact cons_mem_single_mul.mpr ⟨rfl, comma, ws, more, rfl⟩
        · rw [followed, List.append_assoc, List.cons_append]
      · exact ⟨[.mark close], .inl ⟨_, rfl, rfl⟩, by rw [last]⟩
  · rintro (⟨_, rfl, rfl⟩ | ⟨part, here, _, ⟨_, rfl, rfl⟩ | more, rfl⟩)
    · exact ⟨false, [], nofun, rfl⟩
    · exact ⟨false, [part], List.forall_mem_singleton.mpr here, by rw [joined_single_false]⟩
    · obtain ⟨_, _, rfl, rfl, comma, ws, good, rfl⟩ := mem_single_mul.mp more
      obtain ⟨comma', together⟩ := exists_joined_cons comma part ws
      refine ⟨comma', part :: ws, List.forall_mem_cons.mpr ⟨here, good⟩, ?_⟩
      rw [together, List.append_assoc, List.cons_append]

end

/-- The entries of an object are spelled one by one. -/
theorem entrySpellings_eq_map (es : List (Key × Value)) :
    entrySpellings es = es.map entrySpelling := by
  induction es with
  | nil => rfl
  | cons e es ih => rw [entrySpellings, ih]; rfl

/-- The items of a list are spelled one by one. -/
theorem itemSpellings_eq_map (vs : List Value) : itemSpellings vs = vs.map Value.spelling := by
  induction vs with
  | nil => rfl
  | cons v vs ih => rw [itemSpellings, ih]; rfl

/-- Words that are spelled each are spelled together. -/
theorem exists_map_eq {α : Type} {spelling : α → List Lexeme} {ws : List (List Lexeme)}
    (spelled : ∀ w ∈ ws, w ∈ Set.range spelling) :
    ∃ trees : List α, trees.map spelling = ws := by
  have range : ws ∈ Set.range (List.map spelling) := by
    rw [Set.range_list_map]
    exact spelled
  exact range

/-- The parts of a tree are spelled each. -/
theorem forall_mem_map {α : Type} (spelling : α → List Lexeme) (trees : List α) :
    ∀ w ∈ trees.map spelling, w ∈ Set.range spelling := by
  intro w mem
  obtain ⟨tree, -, rfl⟩ := List.mem_map.mp mem
  exact ⟨tree, rfl⟩

/-- A value is a single lexeme, a reference, an object or a list. -/
theorem values_eq : values = single Leaf + mark .dollar * words +
    mark .leftBrace * closed .rightBrace entries +
    mark .leftBracket * closed .rightBracket values := by
  ext w
  constructor
  · rintro ⟨v, rfl⟩
    cases v with
    | text s => exact .inl (.inl (.inl ⟨_, .inl ⟨s, rfl⟩, rfl⟩))
    | number n => exact .inl (.inl (.inl ⟨_, .inr (.inl ⟨n, rfl⟩), rfl⟩))
    | bool b => exact .inl (.inl (.inl ⟨_, .inr (.inr (.inl ⟨b, rfl⟩)), rfl⟩))
    | word name => exact .inl (.inl (.inl ⟨_, .inr (.inr (.inr ⟨name, rfl⟩)), rfl⟩))
    | reference name =>
      exact .inl (.inl (.inr (cons_mem_single_mul.mpr ⟨rfl, _, ⟨name, rfl⟩, rfl⟩)))
    | object es comma =>
      refine .inl (.inr (cons_mem_single_mul.mpr ⟨rfl, comma, entrySpellings es, ?_, rfl⟩))
      rw [entrySpellings_eq_map]
      exact forall_mem_map _ es
    | list items comma =>
      refine .inr (cons_mem_single_mul.mpr ⟨rfl, comma, itemSpellings items, ?_, rfl⟩)
      rw [itemSpellings_eq_map]
      exact forall_mem_map _ items
  · rintro (((⟨_, ⟨s, rfl⟩ | ⟨n, rfl⟩ | ⟨b, rfl⟩ | ⟨name, rfl⟩, rfl⟩ | reference) | object) | list)
    · exact ⟨.text s, rfl⟩
    · exact ⟨.number n, rfl⟩
    · exact ⟨.bool b, rfl⟩
    · exact ⟨.word name, rfl⟩
    · obtain ⟨_, _, rfl, rfl, _, ⟨name, rfl⟩, rfl⟩ := mem_single_mul.mp reference
      exact ⟨.reference name, rfl⟩
    · obtain ⟨_, _, rfl, rfl, comma, ws, good, rfl⟩ := mem_single_mul.mp object
      obtain ⟨es, rfl⟩ := exists_map_eq good
      refine ⟨.object es comma, ?_⟩
      rw [Value.spelling, entrySpellings_eq_map, List.cons_append]
    · obtain ⟨_, _, rfl, rfl, comma, ws, good, rfl⟩ := mem_single_mul.mp list
      obtain ⟨items, rfl⟩ := exists_map_eq good
      refine ⟨.list items comma, ?_⟩
      rw [Value.spelling, itemSpellings_eq_map, List.cons_append]

/-- An entry of an object is a key, a colon and a value. -/
theorem entries_eq : entries = keys * (mark .colon * values) := by
  ext w
  simp only [mem_single_mul]
  constructor
  · rintro ⟨⟨key, v⟩, rfl⟩
    exact ⟨_, _, rfl, ⟨key, rfl⟩, _, _, rfl, rfl, v, rfl⟩
  · rintro ⟨_, _, rfl, ⟨key, rfl⟩, _, _, rfl, rfl, v, rfl⟩
    exact ⟨(key, v), rfl⟩

/-- An entry with something behind it. -/
theorem entries_mul (K : Language Lexeme) :
    entries * K = keys * (mark .colon * (values * K)) := by
  rw [entries_eq, mul_assoc, mul_assoc]

/-- An argument is a value, with a name and an equals sign in front or without. -/
theorem arguments_eq : arguments = values + words * (mark .equals * values) := by
  ext w
  simp only [Language.mem_add, mem_single_mul]
  constructor
  · rintro ⟨⟨_ | name, v⟩, rfl⟩
    · exact .inl ⟨v, rfl⟩
    · exact .inr ⟨_, _, rfl, ⟨name, rfl⟩, _, _, rfl, rfl, v, rfl⟩
  · rintro (⟨v, rfl⟩ | ⟨_, _, rfl, ⟨name, rfl⟩, _, _, rfl, rfl, v, rfl⟩)
    · exact ⟨⟨none, v⟩, rfl⟩
    · exact ⟨⟨some name, v⟩, rfl⟩

/-- A call is two words with a point between them, and arguments in parentheses or none at all. -/
theorem calls_eq : calls = words * (mark .dot *
    (words * (1 + mark .leftParen * closed .rightParen arguments))) := by
  ext w
  simp only [mem_single_mul, Language.mem_add, Language.mem_one]
  constructor
  · rintro ⟨⟨module, action, arguments⟩, rfl⟩
    refine ⟨_, _, rfl, ⟨module, rfl⟩, _, _, rfl, rfl, _, _, rfl, ⟨action, rfl⟩, ?_⟩
    cases arguments with
    | none => exact .inl rfl
    | some arguments =>
      exact .inr ⟨_, _, rfl, rfl, arguments.comma, _, forall_mem_map _ arguments.list, rfl⟩
  · rintro ⟨_, _, rfl, ⟨module, rfl⟩, _, _, rfl, rfl, _, _, rfl, ⟨action, rfl⟩,
      rfl | ⟨_, _, rfl, rfl, comma, ws, good, rfl⟩⟩
    · exact ⟨⟨module, action, none⟩, rfl⟩
    · obtain ⟨list, rfl⟩ := exists_map_eq good
      exact ⟨⟨module, action, some ⟨list, comma⟩⟩, rfl⟩

/-- A call with something behind it. -/
theorem calls_mul (K : Language Lexeme) : calls * K = words * (mark .dot *
    (words * ((1 + mark .leftParen * closed .rightParen arguments) * K))) := by
  rw [calls_eq, mul_assoc, mul_assoc, mul_assoc]

/-- Steps are a call, and behind it the end or a pipe and more steps. -/
theorem steps_eq : steps = calls * (finish + mark .pipe * steps) := by
  ext w
  simp only [Language.mem_mul, Language.mem_add]
  constructor
  · rintro ⟨call, rest, rfl⟩
    refine ⟨call.spelling, ⟨call, rfl⟩, ?_⟩
    cases rest with
    | nil => exact ⟨[.finish], .inl ⟨_, rfl, rfl⟩, by simp [callSpellings]⟩
    | cons next rest =>
      refine ⟨.mark .pipe :: (callSpellings (next :: rest) ++ [.finish]),
        .inr ⟨[.mark .pipe], ⟨_, rfl, rfl⟩, _, ⟨next, rest, rfl⟩, rfl⟩, ?_⟩
      simp only [callSpellings, List.flatMap_cons, List.append_assoc, List.cons_append]
  · rintro ⟨_, ⟨call, rfl⟩, _, ⟨_, rfl, rfl⟩ | ⟨_, ⟨_, rfl, rfl⟩, _, ⟨next, rest, rfl⟩, rfl⟩, rfl⟩
    · exact ⟨call, [], by simp [callSpellings]⟩
    · refine ⟨call, next :: rest, ?_⟩
      simp only [callSpellings, List.flatMap_cons, List.append_assoc, List.cons_append,
        List.nil_append]

/-- Declarations are followed by the end or by steps. -/
theorem ends_eq : ends = finish + steps := by
  ext w
  constructor
  · rintro ⟨_ | ⟨call, rest⟩, rfl⟩
    · exact .inl ⟨_, rfl, rfl⟩
    · exact .inr ⟨call, rest, rfl⟩
  · rintro (⟨_, rfl, rfl⟩ | ⟨call, rest, rfl⟩)
    · exact ⟨[], rfl⟩
    · exact ⟨call :: rest, rfl⟩

/-- A body declares a variable and goes on, or declares no more. -/
theorem bodies_eq : bodies =
    ends + mark .dollar * (words * (mark .equals * (values * bodies))) := by
  ext w
  simp only [Language.mem_add, mem_single_mul]
  constructor
  · rintro ⟨_ | ⟨⟨name, v⟩, vars⟩, calls, rfl⟩
    · exact .inl ⟨calls, rfl⟩
    · refine .inr ⟨_, _, rfl, rfl, _, _, rfl, ⟨name, rfl⟩, _, _, rfl, rfl, ?_⟩
      exact Language.mem_mul.mpr ⟨v.spelling, ⟨v, rfl⟩, _, ⟨vars, calls, rfl⟩,
        (List.append_assoc _ _ _).symm⟩
  · rintro (⟨calls, rfl⟩ | ⟨_, _, rfl, rfl, _, _, rfl, ⟨name, rfl⟩, _, _, rfl, rfl, more⟩)
    · exact ⟨[], calls, rfl⟩
    · obtain ⟨_, ⟨v, rfl⟩, _, ⟨vars, calls, rfl⟩, rfl⟩ := Language.mem_mul.mp more
      exact ⟨(name, v) :: vars, calls, (List.append_assoc (variableSpelling (name, v)) _ _).symm⟩

/-- A script is a body, with a header in front or without. -/
theorem sentences_eq : sentences =
    bodies + mark .at * (single (· = .word "pipeline") * (keys * (mark .colon * bodies))) := by
  ext w
  simp only [Language.mem_add, mem_single_mul]
  constructor
  · rintro ⟨⟨_ | key, vars, calls⟩, rfl⟩
    · exact .inl ⟨vars, calls, List.append_assoc _ _ _⟩
    · exact .inr ⟨_, _, rfl, rfl, _, _, rfl, rfl, _, _, rfl, ⟨key, rfl⟩, _, _, rfl, rfl, vars, calls,
        List.append_assoc _ _ _⟩
  · rintro (⟨vars, calls, rfl⟩ | ⟨_, _, rfl, rfl, _, _, rfl, rfl, _, _, rfl, ⟨key, rfl⟩, _, _, rfl, rfl,
      vars, calls, rfl⟩)
    · exact ⟨⟨none, vars, calls⟩, (List.append_assoc _ _ _).symm⟩
    · refine ⟨⟨some key, vars, calls⟩, ?_⟩
      exact congrArg (_ :: _ :: _ :: _ :: ·) (List.append_assoc _ _ _).symm

/-! ## Words that there are -/

/-- The language has a word. -/
abbrev HasWord (L : Language Lexeme) : Prop := ∃ w, w ∈ L

section

variable {K L : Language Lexeme}

/-- A product of languages has a word if both of them have one. -/
theorem HasWord.mul (first : HasWord L) (second : HasWord K) : HasWord (L * K) := by
  obtain ⟨w, mem⟩ := first
  obtain ⟨v, mem'⟩ := second
  exact ⟨w ++ v, Language.append_mem_mul mem mem'⟩

/-- A class that is not empty has a word. -/
theorem hasWord_single {p : Lexeme → Prop} {l : Lexeme} (good : p l) : HasWord (single p) :=
  ⟨[l], l, good, rfl⟩

theorem hasWord_mark (m : Mark) : HasWord (mark m) := hasWord_single rfl

theorem hasWord_words : HasWord words := hasWord_single ⟨"", rfl⟩

theorem hasWord_keys : HasWord keys := hasWord_single ⟨.word "", rfl⟩

theorem hasWord_values : HasWord values := ⟨_, .word "", rfl⟩

/-- The closing mark may stand behind every part. -/
theorem hasWord_separated (close : Mark) (parts : Language Lexeme) :
    HasWord (separated close parts) :=
  ⟨[.mark close], .inl ⟨_, rfl, rfl⟩⟩

end

/-! ## First lexemes -/

section

variable {l : Lexeme} {w : List Lexeme} {K : Language Lexeme}

/-- The first lexeme of a value tells which alternative it is of. -/
theorem cons_mem_values_mul : l :: w ∈ values * K ↔ (Leaf l ∧ w ∈ K) ∨
    (l = .mark .dollar ∧ w ∈ words * K) ∨
    (l = .mark .leftBrace ∧ w ∈ closed .rightBrace entries * K) ∨
    (l = .mark .leftBracket ∧ w ∈ closed .rightBracket values * K) := by
  conv_lhs => rw [values_eq]
  simp only [add_mul, mul_assoc, Language.mem_add, cons_mem_single_mul, or_assoc]

/-- A closed sequence ends at its closing mark, or goes on with a part. -/
theorem cons_mem_closed_mul {close : Mark} {parts : Language Lexeme} :
    l :: w ∈ closed close parts * K ↔
      (l = .mark close ∧ w ∈ K) ∨ l :: w ∈ parts * (separated close parts * K) := by
  conv_lhs => rw [closed_eq]
  simp only [add_mul, mul_assoc, Language.mem_add, cons_mem_single_mul]

/-- Behind a part stands the closing mark, or a comma and the sequence goes on. -/
theorem cons_mem_separated_mul {close : Mark} {parts : Language Lexeme} :
    l :: w ∈ separated close parts * K ↔
      (l = .mark close ∧ w ∈ K) ∨ (l = .mark .comma ∧ w ∈ closed close parts * K) := by
  simp only [add_mul, mul_assoc, Language.mem_add, cons_mem_single_mul]

/-- An entry begins with its key. -/
theorem cons_mem_entries_mul :
    l :: w ∈ entries * K ↔ (∃ key : Key, l = key.lexeme) ∧ w ∈ mark .colon * (values * K) := by
  rw [entries_mul, cons_mem_single_mul]

/-- A word may begin an argument of both sorts: a value, or a name if an equals sign follows. -/
theorem cons_mem_arguments_mul : l :: w ∈ arguments * K ↔
    l :: w ∈ values * K ∨ (∃ name, l = .word name) ∧ w ∈ mark .equals * (values * K) := by
  rw [arguments_eq]
  simp only [add_mul, mul_assoc, Language.mem_add, cons_mem_single_mul]

end

end Pipework.Script.Grammar
