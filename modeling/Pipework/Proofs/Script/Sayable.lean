import Pipework.Proofs.Script.Expressible
import Pipework.Proofs.Script.Tree

/-!
# What sayable lexemes mean

`Sayable` says of lexemes what the tokens of a text satisfy: numbers fit, and behind a mark stands
no word that spells a boolean. A derivation tree with such leaves means a pipeline that a script can
say again, because an action stands behind a point, a variable behind a dollar sign, and a named
argument behind a parenthesis or a comma.
-/

namespace Pipework.Script.Tree

/-- Every number fits, and a word behind a mark spells no boolean. -/
structure Sayable (ls : List Lexeme) : Prop where
  fits : ∀ n, .number n ∈ ls → n.Fits
  bare : ∀ m name, [.mark m, .word name] <:+: ls → isBareWord name = true

theorem Sayable.part {part ls : List Lexeme} (sayable : Sayable ls) (inside : part <:+: ls) :
    Sayable part where
  fits n mem := sayable.fits n (inside.subset mem)
  bare m name neighbours := sayable.bare m name (neighbours.trans inside)

/-! ## Values -/

/-- The property is one of the values that trees with these leaves have. -/
structure Suits (p : Json → Prop) (ls : List Lexeme) : Prop where
  null : p .null
  bool : ∀ b, p (.bool b)
  number : ∀ n, .number n ∈ ls → p (.number n)
  string : ∀ s, p (.string s)
  array : ∀ items, p (.array items)
  object : ∀ fields, Fields.Distinct fields → p (.object fields)

variable {p : Json → Prop}

theorem Suits.part {part ls : List Lexeme} (suits : Suits p ls) (inside : part ⊆ ls) :
    Suits p part :=
  { suits with number := fun n mem => suits.number n (inside mem) }

/-- A part is among the joined parts. -/
theorem subset_joined {comma : Bool} {part : List Lexeme} {parts : List (List Lexeme)}
    (mem : part ∈ parts) : part ⊆ joined comma parts := by
  induction parts with
  | nil => cases mem
  | cons head parts ih =>
    rw [joined]
    rcases List.mem_cons.mp mem with rfl | mem
    · exact List.subset_append_of_subset_left _ (List.subset_append_left _ _)
    · exact List.subset_append_of_subset_right _ (ih mem)

mutual

/-- What a tree means has every property that suits its leaves, and so do all values inside. -/
theorem Value.all_meaning (tree : Value) (suits : Suits p tree.spelling) : tree.meaning.All p := by
  match tree with
  | .text s => exact suits.string s
  | .number n => exact suits.number n List.mem_cons_self
  | .bool b => exact suits.bool b
  | .word name =>
    rw [Value.meaning, wordValue]
    split
    · exact suits.null
    · exact suits.string name
  | .reference name => exact suits.string _
  | .object entries comma =>
    refine ⟨suits.object _ (Fields.distinct_ofList _), Json.allFields_iff.mpr fun field mem => ?_⟩
    have inside := all_entryMeanings entries fun part mem => suits.part ?_
    · rcases Fields.mem_insertAll mem with none | mem
      · cases none
      · exact inside field mem
    · exact List.Subset.trans (subset_joined mem)
        (List.subset_append_of_subset_left _ (List.subset_cons_self _ _))
  | .list items comma =>
    refine ⟨suits.array _, Json.allItems_iff.mpr ?_⟩
    refine all_itemMeanings items fun part mem => suits.part ?_
    exact List.Subset.trans (subset_joined mem)
      (List.subset_append_of_subset_left _ (List.subset_cons_self _ _))

/-- What entries mean has every property that suits each of them. -/
theorem all_entryMeanings (entries : List (Key × Value))
    (suits : ∀ part ∈ entrySpellings entries, Suits p part) :
    ∀ field ∈ entryMeanings entries, field.2.All p := by
  match entries with
  | [] => exact nofun
  | (key, value) :: entries =>
    rw [entrySpellings, List.forall_mem_cons] at suits
    have first := suits.1.part
      (List.Subset.trans (List.subset_cons_self _ _) (List.subset_cons_self _ _))
    exact List.forall_mem_cons.mpr
      ⟨Value.all_meaning value first, all_entryMeanings entries suits.2⟩

/-- What items mean has every property that suits each of them. -/
theorem all_itemMeanings (items : List Value)
    (suits : ∀ part ∈ itemSpellings items, Suits p part) :
    ∀ v ∈ itemMeanings items, v.All p := by
  match items with
  | [] => exact nofun
  | value :: values =>
    rw [itemSpellings, List.forall_mem_cons] at suits
    exact List.forall_mem_cons.mpr
      ⟨Value.all_meaning value suits.1, all_itemMeanings values suits.2⟩

end

/-- Distinct keys suit any leaves. -/
theorem suits_keysApart (ls : List Lexeme) : Suits Json.KeysApart ls :=
  ⟨trivial, fun _ => trivial, fun _ _ => trivial, fun _ => trivial, fun _ => trivial,
    fun _ distinct => distinct⟩

/-- Numbers that fit suit sayable leaves. -/
theorem Sayable.suits {ls : List Lexeme} (sayable : Sayable ls) : Suits Json.NumberFits ls :=
  ⟨trivial, fun _ => trivial, sayable.fits, fun _ => trivial, fun _ => trivial, fun _ _ => trivial⟩

/-! ## Calls -/

/-- A counted name can be written without quotes. -/
theorem isBareWord_positionalKey (n : Nat) : isBareWord (positionalKey n) = true := by
  have split : (positionalKey n).toList = '_' :: ("arg".toList ++ Nat.toDigits 10 n) := by
    change ("_arg" ++ Nat.repr n).toList = _
    rw [String.toList_append, Nat.toList_repr]
    rfl
  have digits : (Nat.toDigits 10 n).all isWordChar = true := by
    rw [List.all_eq_true]
    intro c mem
    rw [isWordChar, Char.isAlphanum, Nat.isDigit_of_mem_toDigits (by decide) (by decide) mem,
      Bool.or_true, Bool.true_or]
  have word : isWord (positionalKey n) = true := by
    simp only [isWord, split, List.all_append, digits, Bool.and_true]
    decide
  have noBoolean : boolean? (positionalKey n) = none := by
    rw [boolean?, List.lookup_eq_none_iff]
    have letters : ∀ spelling ∈ booleans, spelling.1.toList.head? ≠ some '_' := by decide
    intro spelling mem
    rw [bne_iff_ne]
    intro same
    rw [same] at split
    exact letters spelling mem (by rw [split]; rfl)
  rw [isBareWord, word, noBoolean]
  rfl

/-- Behind what opens a sequence, every part stands behind a mark. -/
theorem infix_joined (comma : Bool) {part : List Lexeme} {parts : List (List Lexeme)}
    (mem : part ∈ parts) (m : Mark) :
    ∃ m', (.mark m' :: part) <:+: .mark m :: joined comma parts := by
  induction parts generalizing m with
  | nil => cases mem
  | cons head parts ih =>
    rcases List.mem_cons.mp mem with rfl | mem
    · refine ⟨m, List.IsPrefix.isInfix ?_⟩
      rw [joined, List.append_assoc]
      exact List.prefix_append (.mark m :: part) _
    · obtain ⟨m', inside⟩ := ih mem .comma
      refine ⟨m', inside.trans ?_⟩
      rcases joined_cons_cases comma head parts with together | ⟨rfl, -⟩
      · rw [together]
        exact List.IsSuffix.isInfix (List.suffix_append (.mark m :: head) _)
      · cases mem

/-- An argument ends with its value. -/
theorem Argument.suffix_spelling (argument : Argument) :
    argument.value.spelling <:+ argument.spelling := by
  obtain ⟨name, value⟩ := argument
  cases name with
  | none => exact List.suffix_refl _
  | some name => exact List.suffix_append [Lexeme.word name, .mark .equals] _

/-- A parameter is that of an argument: its name was written or counted, and its value is what the
argument means. -/
theorem Argument.mem_params {list : List Argument} {unnamed : Nat} {param : String × Json}
    (mem : param ∈ Argument.params unnamed list) : ∃ argument ∈ list,
      argument.value.meaning = param.2 ∧
      (argument.name = some param.1 ∨ ∃ n, param.1 = positionalKey n) := by
  induction list generalizing unnamed with
  | nil => cases mem
  | cons argument list ih =>
    obtain ⟨name, value⟩ := argument
    cases name with
    | none =>
      rcases List.mem_cons.mp mem with rfl | mem
      · exact ⟨_, List.mem_cons_self, rfl, .inr ⟨unnamed, rfl⟩⟩
      · obtain ⟨argument, known, facts⟩ := ih mem
        exact ⟨argument, List.mem_cons_of_mem _ known, facts⟩
    | some name =>
      rcases List.mem_cons.mp mem with rfl | mem
      · exact ⟨_, List.mem_cons_self, rfl, .inl rfl⟩
      · obtain ⟨argument, known, facts⟩ := ih mem
        exact ⟨argument, List.mem_cons_of_mem _ known, facts⟩

/-- The arguments of a call stand behind its opening parenthesis. -/
theorem Call.infix_spelling (module action : String) (arguments : Arguments) :
    (.mark .leftParen :: joined arguments.comma (arguments.list.map Argument.spelling)) <:+:
      (Call.mk module action (some arguments)).spelling :=
  ⟨[.word module, .mark .dot, .word action], [.mark .rightParen], by
    simp only [spelling, List.cons_append, List.nil_append]⟩

/-- The parameters of a call have every property that suits its leaves. -/
theorem Call.all_params {call : Call} (suits : Suits p call.spelling) :
    Json.AllFields p call.params := by
  obtain ⟨module, action, arguments⟩ := call
  refine Json.allFields_iff.mpr fun param mem => ?_
  cases arguments with
  | none => cases mem
  | some arguments =>
    obtain ⟨argument, known, meant, -⟩ := Argument.mem_params mem
    rw [← meant]
    have inside : argument.spelling ⊆
        joined arguments.comma (arguments.list.map Argument.spelling) :=
      subset_joined (List.mem_map_of_mem known)
    have between := (Call.infix_spelling module action arguments).subset
    refine Value.all_meaning _ (suits.part ?_)
    exact List.Subset.trans argument.suffix_spelling.subset
      (List.Subset.trans inside (List.Subset.trans (List.subset_cons_self _ _) between))

/-- A call of sayable lexemes can be said again. -/
theorem Call.expressible {call : Call} (sayable : Sayable call.spelling) :
    isBareWord call.action = true ∧ Fields.Expressible call.params := by
  obtain ⟨module, action, arguments⟩ := call
  refine ⟨?_, ?_, Call.all_params sayable.suits⟩
  · exact sayable.bare .dot action ⟨[.word module], _, rfl⟩
  · intro param mem
    cases arguments with
    | none => cases mem
    | some arguments =>
      obtain ⟨argument, known, -, named | ⟨n, counted⟩⟩ := Argument.mem_params mem
      · obtain ⟨m, inside⟩ := infix_joined arguments.comma
          (List.mem_map_of_mem (f := Argument.spelling) known) .leftParen
        have neighbours : [.mark m, .word param.1] <:+: .mark m :: argument.spelling := by
          obtain ⟨name, value⟩ := argument
          cases named
          exact (List.prefix_append [Lexeme.mark m, .word param.1] _).isInfix
        exact sayable.bare m param.1
          (neighbours.trans (inside.trans (Call.infix_spelling module action arguments)))
      · rw [counted]
        exact isBareWord_positionalKey n

/-! ## Whole scripts -/

/-- A part is among the parts put together. -/
theorem infix_flatMap {α : Type} (spell : α → List Lexeme) {part : α} {parts : List α}
    (mem : part ∈ parts) : spell part <:+: parts.flatMap spell := by
  rw [List.flatMap_def]
  exact List.infix_of_mem_flatten (List.mem_map_of_mem mem)

/-- A call is among the calls with pipes between them. -/
theorem infix_callSpellings {call : Call} {calls : List Call} (mem : call ∈ calls) :
    call.spelling <:+: callSpellings calls := by
  cases calls with
  | nil => cases mem
  | cons first calls =>
    rw [callSpellings]
    rcases List.mem_cons.mp mem with rfl | mem
    · exact (List.prefix_append _ _).isInfix
    · have inside := infix_flatMap (fun call : Call => .mark .pipe :: call.spelling) mem
      have behindPipe := (List.suffix_cons (Lexeme.mark .pipe) call.spelling).isInfix
      exact behindPipe.trans (inside.trans (List.suffix_append _ _).isInfix)

/-- **A script of sayable lexemes means a pipeline that can be said**, with distinct keys and
nothing left out. -/
theorem Source.expressible {script : Source} (sayable : Sayable script.spelling)
    (unique : script.KeysUnique) (fallback : AtomType) :
    (script.meaning fallback).KeysDistinct ∧ (script.meaning fallback).Expressible ∧
      (script.meaning fallback).scripted = script.meaning fallback := by
  have calls : ∀ call ∈ script.calls, call.spelling <:+: script.spelling :=
    fun call mem => (infix_callSpellings mem).trans (List.suffix_append _ _).isInfix
  have vars : ∀ declared ∈ script.vars, variableSpelling declared <:+: script.spelling := by
    intro declared mem
    refine (infix_flatMap variableSpelling mem).trans ?_
    exact ⟨headerSpelling script.header, callSpellings script.calls, rfl⟩
  have declarations : ∀ field ∈ (script.meaning fallback).vars, ∃ declared ∈ script.vars,
      (declared.1, declared.2.meaning) = field := by
    intro field mem
    rcases Fields.mem_insertAll mem with none | mem
    · cases none
    · exact List.mem_map.mp mem
  have value : ∀ {declared : String × Value},
      declared.2.spelling <:+ variableSpelling declared := fun {declared} =>
    List.suffix_append [Lexeme.mark .dollar, .word declared.1, .mark .equals] _
  refine ⟨⟨⟨Fields.distinct_ofList _, Json.allFields_iff.mpr ?_⟩, ?_⟩,
    ⟨⟨?_, Json.allFields_iff.mpr ?_⟩, ?_⟩, ?_⟩
  -- The keys are distinct, in the variables and then in the steps.
  · intro field mem
    obtain ⟨declared, -, rfl⟩ := declarations field mem
    exact Value.all_meaning _ (suits_keysApart _)
  · intro step mem
    obtain ⟨call, known, rfl⟩ := List.mem_map.mp mem
    exact ⟨unique call known, Call.all_params (suits_keysApart _)⟩
  -- The names of variables and their values can be said, and so can the calls.
  · intro field mem
    obtain ⟨declared, known, rfl⟩ := declarations field mem
    exact sayable.bare .dollar declared.1 (List.IsInfix.trans ⟨[], _, rfl⟩ (vars declared known))
  · intro field mem
    obtain ⟨declared, known, rfl⟩ := declarations field mem
    exact Value.all_meaning _ (sayable.part (value.isInfix.trans (vars declared known))).suits
  · intro step mem
    obtain ⟨call, known, rfl⟩ := List.mem_map.mp mem
    exact Call.expressible (sayable.part (calls call known))
  · rw [Source.meaning, Pipeline.scripted, List.map_map]
    rfl

end Pipework.Script.Tree
