import Pipework.Proofs.Script.Soundness

/-!
# What is derivable is read

In front of the spelling of a tree a reader takes just that spelling and gives the meaning of the
tree. The induction is on the tree, and the bound only has to be large enough: two for each lexeme
of the spelling, which is what the callers provide.

One token of lookahead is all that the readers have. It settles a tree because no value is followed
by an equals sign, so that a word before one is always a name.

Together with soundness this makes the readers decide the grammar. What remains is that nothing
stands behind the mark of the end, which is a matter of scanning.
-/

namespace Pipework.Script

open Script.Tree

/-! ## Values -/

/-- A list of which every part spells something is no longer than its spelling. -/
theorem length_le_length_flatMap {α : Type} (spell : α → List Lexeme) (parts : List α)
    (nonempty : ∀ part, spell part ≠ []) : parts.length ≤ (parts.flatMap spell).length := by
  induction parts with
  | nil => exact Nat.le_refl 0
  | cons part parts ih =>
    have := List.length_pos_iff.mpr (nonempty part)
    simp only [List.flatMap_cons, List.length_cons, List.length_append]
    omega

mutual

/-- A derivable value is read, and what is read is its meaning. -/
theorem readValue_complete (tree : Value) (bound : Nat) {ts : List Token} {tail : List Lexeme}
    (enough : 2 * tree.spelling.length ≤ bound) (spelled : lexemes ts = tree.spelling ++ tail) :
    ∃ rest, lexemes rest = tail ∧ readValue bound ts = .ok (tree.meaning, rest) := by
  obtain ⟨bound, rfl⟩ : ∃ n, bound = n + 1 := by
    cases bound with
    | zero => cases tree <;> simp [Value.spelling] at enough
    | succ n => exact ⟨n, rfl⟩
  match tree with
  | .text s | .number n | .bool b | .word name =>
    obtain ⟨p, rest, rfl, h⟩ := lexemes_eq_cons.mp spelled
    exact ⟨rest, h, rfl⟩
  | .reference name =>
    obtain ⟨p, ts₁, rfl, named⟩ := lexemes_eq_cons.mp spelled
    obtain ⟨q, rest, rfl, h⟩ := lexemes_eq_cons.mp named
    exact ⟨rest, h, rfl⟩
  | .object entries comma =>
    simp only [Value.spelling, List.cons_append, List.append_assoc, List.nil_append] at spelled
    obtain ⟨p, ts₁, rfl, inner⟩ := lexemes_eq_cons.mp spelled
    simp only [Value.spelling, List.cons_append, List.length_cons, List.length_append,
      List.length_nil] at enough
    obtain ⟨rest, h, hread⟩ :=
      readEntries_complete entries comma [] bound (by omega) inner
    exact ⟨rest, h, Outcome.bind_eq_ok.mpr ⟨_, hread, rfl⟩⟩
  | .list items comma =>
    simp only [Value.spelling, List.cons_append, List.append_assoc, List.nil_append] at spelled
    obtain ⟨p, ts₁, rfl, inner⟩ := lexemes_eq_cons.mp spelled
    simp only [Value.spelling, List.cons_append, List.length_cons, List.length_append,
      List.length_nil] at enough
    obtain ⟨rest, h, hread⟩ := readItems_complete items comma bound (by omega) inner
    exact ⟨rest, h, Outcome.bind_eq_ok.mpr ⟨_, hread, rfl⟩⟩

/-- Derivable entries are read, and their meanings are inserted. -/
theorem readEntries_complete (entries : List (Key × Value)) (comma : Bool) (fields : Fields)
    (bound : Nat) {ts : List Token} {tail : List Lexeme}
    (enough : 2 * (joined comma (entrySpellings entries)).length < bound)
    (spelled : lexemes ts = joined comma (entrySpellings entries) ++ .mark .rightBrace :: tail) :
    ∃ rest, lexemes rest = tail ∧
      readEntries bound fields ts = .ok (fields.insertAll (entryMeanings entries), rest) := by
  obtain ⟨bound, rfl⟩ : ∃ n, bound = n + 1 := ⟨bound - 1, by omega⟩
  match entries with
  | [] =>
    obtain ⟨p, rest, rfl, h⟩ := lexemes_eq_cons.mp spelled
    exact ⟨rest, h, readEntries_succ_eq_ok.mpr (.inl ⟨p, rfl, rfl⟩)⟩
  | (key, value) :: entries =>
    -- The entry itself: its name, the colon, and a value that leaves `after`.
    have entry : ∀ {after : List Lexeme}, 2 * value.spelling.length ≤ bound →
        lexemes ts = key.lexeme :: .mark .colon :: (value.spelling ++ after) →
        ∃ ts₁ ts₂ ts₃, takeName "object key" ts = .ok (key.name, ts₁) ∧
          takeMark .colon ts₁ = .ok ts₂ ∧ readValue bound ts₂ = .ok (value.meaning, ts₃) ∧
          lexemes ts₃ = after := by
      intro after enough spelled
      obtain ⟨p, ts₁, rfl, named⟩ := lexemes_eq_cons.mp spelled
      obtain ⟨q, ts₂, rfl, given⟩ := lexemes_eq_cons.mp named
      obtain ⟨ts₃, h, hvalue⟩ := readValue_complete value _ enough given
      exact ⟨_, ts₂, ts₃, takeName_eq_ok.mpr ⟨key, p, rfl, rfl⟩, takeMark_eq_ok.mpr ⟨q, rfl⟩,
        hvalue, h⟩
    rw [entrySpellings] at enough spelled
    rcases joined_cons_cases comma (key.lexeme :: .mark .colon :: value.spelling)
        (entrySpellings entries) with more | ⟨last, alone⟩
    · rw [more] at enough spelled
      simp only [List.cons_append, List.length_cons, List.length_append, List.append_assoc]
        at enough spelled
      obtain ⟨ts₁, ts₂, ts₃, hname, colon, hvalue, behind⟩ := entry (by omega) spelled
      obtain ⟨p, ts₄, rfl, others⟩ := lexemes_eq_cons.mp behind
      obtain ⟨rest, h, hmore⟩ := readEntries_complete entries comma
        (fields.insert key.name value.meaning) bound (by omega) others
      exact ⟨rest, h, readEntries_succ_eq_ok.mpr (.inr
        ⟨_, ts₁, ts₂, _, _, hname, colon, hvalue, .inl ⟨p, ts₄, rfl, hmore⟩⟩)⟩
    · rw [alone] at enough spelled
      simp only [List.cons_append, List.length_cons] at enough spelled
      obtain ⟨ts₁, ts₂, ts₃, hname, colon, hvalue, behind⟩ := entry (by omega) spelled
      obtain ⟨p, rest, rfl, h⟩ := lexemes_eq_cons.mp behind
      obtain rfl : entries = [] := by
        cases entries with
        | nil => rfl
        | cons => cases last
      exact ⟨rest, h, readEntries_succ_eq_ok.mpr (.inr
        ⟨_, ts₁, ts₂, _, _, hname, colon, hvalue, .inr ⟨p, rfl, rfl⟩⟩)⟩

/-- Derivable items are read, and what is read are their meanings. -/
theorem readItems_complete (items : List Value) (comma : Bool) (bound : Nat) {ts : List Token}
    {tail : List Lexeme} (enough : 2 * (joined comma (itemSpellings items)).length < bound)
    (spelled : lexemes ts = joined comma (itemSpellings items) ++ .mark .rightBracket :: tail) :
    ∃ rest, lexemes rest = tail ∧ readItems bound ts = .ok (itemMeanings items, rest) := by
  obtain ⟨bound, rfl⟩ : ∃ n, bound = n + 1 := ⟨bound - 1, by omega⟩
  match items with
  | [] =>
    obtain ⟨p, rest, rfl, h⟩ := lexemes_eq_cons.mp spelled
    exact ⟨rest, h, readItems_succ_eq_ok.mpr (.inl ⟨p, rfl, rfl⟩)⟩
  | value :: items =>
    rw [itemSpellings] at enough spelled
    rcases joined_cons_cases comma value.spelling (itemSpellings items) with more | ⟨last, alone⟩
    · rw [more] at enough spelled
      simp only [List.cons_append, List.length_cons, List.length_append, List.append_assoc]
        at enough spelled
      obtain ⟨ts₁, behind, hvalue⟩ := readValue_complete value bound (by omega) spelled
      obtain ⟨p, ts₂, rfl, others⟩ := lexemes_eq_cons.mp behind
      obtain ⟨rest, h, hmore⟩ := readItems_complete items comma bound (by omega) others
      exact ⟨rest, h, readItems_succ_eq_ok.mpr (.inr
        ⟨_, _, hvalue, .inl ⟨p, ts₂, _, rfl, hmore, rfl⟩⟩)⟩
    · rw [alone] at enough spelled
      obtain ⟨ts₁, behind, hvalue⟩ := readValue_complete value bound (by omega) spelled
      obtain ⟨p, rest, rfl, h⟩ := lexemes_eq_cons.mp behind
      obtain rfl : items = [] := by
        cases items with
        | nil => rfl
        | cons => cases last
      exact ⟨rest, h, readItems_succ_eq_ok.mpr (.inr ⟨_, _, hvalue, .inr ⟨p, rfl, rfl⟩⟩)⟩

end

/-- No value is followed by an equals sign, so nothing that begins with a value begins with a name
and an equals sign. -/
theorem not_beginsNamed (tree : Value) {ts : List Token} {l : Lexeme} {tail : List Lexeme}
    (spelled : lexemes ts = tree.spelling ++ l :: tail) (other : l ≠ .mark .equals) :
    ¬ BeginsNamed ts := by
  rintro ⟨name, p, q, ts', rfl⟩
  simp only [lexemes, List.map_cons] at spelled
  cases tree with
  | word _ =>
    simp only [Value.spelling, List.cons_append, List.nil_append, List.cons.injEq] at spelled
    exact other spelled.2.1.symm
  | _ => simp only [Value.spelling, List.cons_append, List.cons.injEq, reduceCtorEq, false_and]
    at spelled

/-- A derivable argument with something other than an equals sign behind it is read. -/
theorem readParam_complete (argument : Argument) {bound unnamed : Nat} {ts : List Token}
    {l : Lexeme} {tail : List Lexeme} (enough : 2 * argument.spelling.length ≤ bound)
    (spelled : lexemes ts = argument.spelling ++ l :: tail) (other : l ≠ .mark .equals) :
    ∃ key value following rest, lexemes rest = l :: tail ∧
      readParam bound unnamed ts = .ok ((key, value, following), rest) ∧
      ∀ list, Argument.params unnamed (argument :: list) =
        (key, value) :: Argument.params following list := by
  obtain ⟨_ | name, value⟩ := argument
  · obtain ⟨rest, h, hvalue⟩ := readValue_complete value _ enough spelled
    exact ⟨_, _, _, rest, h, readParam_eq_ok.mpr
      (.inr ⟨not_beginsNamed value spelled other, hvalue, rfl, rfl⟩), fun _ => rfl⟩
  · obtain ⟨p, ts₁, rfl, named⟩ := lexemes_eq_cons.mp spelled
    obtain ⟨q, ts₂, rfl, given⟩ := lexemes_eq_cons.mp named
    simp only [Argument.spelling, List.length_cons] at enough
    obtain ⟨rest, h, hvalue⟩ := readValue_complete value bound (by omega) given
    exact ⟨_, _, _, rest, h, readParam_eq_ok.mpr (.inl ⟨p, q, ts₂, rfl, hvalue, rfl⟩),
      fun _ => rfl⟩

/-- Derivable arguments are read if no key occurs twice among them and those before them. -/
theorem readParams_complete (list : List Argument) (comma : Bool) (bound : Nat) {unnamed : Nat}
    (params : Params) {ts : List Token} {tail : List Lexeme}
    (enough : 2 * (joined comma (list.map Argument.spelling)).length < bound)
    (distinct : Fields.Distinct (params ++ Argument.params unnamed list))
    (spelled : lexemes ts =
      joined comma (list.map Argument.spelling) ++ .mark .rightParen :: tail) :
    ∃ rest, lexemes rest = tail ∧
      readParams bound unnamed params ts = .ok (params ++ Argument.params unnamed list, rest) := by
  induction list generalizing bound unnamed params ts with
  | nil =>
    obtain ⟨bound, rfl⟩ : ∃ n, bound = n + 1 := ⟨bound - 1, by omega⟩
    obtain ⟨p, rest, rfl, h⟩ := lexemes_eq_cons.mp spelled
    exact ⟨rest, h, readParams_succ_eq_ok.mpr (.inl ⟨p, rfl, List.append_nil _⟩)⟩
  | cons argument list ih =>
    obtain ⟨bound, rfl⟩ : ∃ n, bound = n + 1 := ⟨bound - 1, by omega⟩
    rw [List.map_cons] at enough spelled
    -- Whatever is behind the argument, it is read and its key is new.
    have first : ∀ {l : Lexeme} {after : List Lexeme}, 2 * argument.spelling.length ≤ bound →
        lexemes ts = argument.spelling ++ l :: after → l ≠ .mark .equals →
        ∃ key value following ts₁, lexemes ts₁ = l :: after ∧
          readParam bound unnamed ts = .ok ((key, value, following), ts₁) ∧
          Fields.contains params key = false ∧
          Fields.insert params key value = params ++ [(key, value)] ∧
          ∀ list, Argument.params unnamed (argument :: list) =
            (key, value) :: Argument.params following list := by
      intro l after enough spelled other
      obtain ⟨key, value, following, ts₁, h, hparam, meant⟩ :=
        readParam_complete argument enough spelled other
      have new : key ∉ params.map Prod.fst := by
        rw [meant] at distinct
        unfold Fields.Distinct at distinct
        rw [List.map_append, List.map_cons] at distinct
        exact fun known =>
          (List.nodup_append.mp distinct).2.2 key known key List.mem_cons_self rfl
      exact ⟨key, value, following, ts₁, h, hparam, Fields.contains_eq_false.mpr new,
        Fields.insert_of_notMem value new, meant⟩
    rcases joined_cons_cases comma argument.spelling (list.map Argument.spelling) with
      more | ⟨last, alone⟩
    · rw [more] at enough spelled
      simp only [List.length_cons, List.length_append, List.append_assoc, List.cons_append]
        at enough spelled
      obtain ⟨key, value, following, ts₁, behind, hparam, fresh, appended, meant⟩ :=
        first (by omega) spelled nofun
      obtain ⟨p, ts₂, rfl, others⟩ := lexemes_eq_cons.mp behind
      have shifted : params ++ Argument.params unnamed (argument :: list) =
          Fields.insert params key value ++ Argument.params following list := by
        rw [meant, appended, List.append_assoc, List.singleton_append]
      rw [shifted] at distinct ⊢
      obtain ⟨rest, h, hmore⟩ := ih bound _ (by omega) distinct others
      exact ⟨rest, h, readParams_succ_eq_ok.mpr
        (.inr ⟨key, value, following, _, hparam, fresh, .inl ⟨p, ts₂, rfl, hmore⟩⟩)⟩
    · rw [alone] at enough spelled
      obtain ⟨key, value, following, ts₁, behind, hparam, fresh, appended, meant⟩ :=
        first (by omega) spelled nofun
      obtain ⟨p, rest, rfl, h⟩ := lexemes_eq_cons.mp behind
      obtain rfl := List.map_eq_nil_iff.mp last
      refine ⟨rest, h, readParams_succ_eq_ok.mpr
        (.inr ⟨key, value, following, _, hparam, fresh, .inr ⟨p, rfl, ?_⟩⟩)⟩
      rw [meant, appended]
      rfl

/-- A derivable call with unique keys is read if no parenthesis stands behind it. -/
theorem readCall_complete (tree : Tree.Call) (unique : tree.KeysUnique) {ts : List Token}
    {l : Lexeme} {tail : List Lexeme} (other : l ≠ .mark .leftParen)
    (spelled : lexemes ts = tree.spelling ++ l :: tail) :
    ∃ rest position, lexemes rest = l :: tail ∧
      readCall ts = .ok (⟨tree.module, position, tree.action, tree.params⟩, rest) := by
  obtain ⟨module, action, arguments⟩ := tree
  obtain ⟨p, ts₁, rfl, dotted⟩ := lexemes_eq_cons.mp spelled
  obtain ⟨q, ts₂, rfl, named⟩ := lexemes_eq_cons.mp dotted
  obtain ⟨r, ts₃, rfl, behind⟩ := lexemes_eq_cons.mp named
  cases arguments with
  | none =>
    obtain ⟨s, rest, rfl, h⟩ := lexemes_eq_cons.mp behind
    refine ⟨_, p, behind, readCall_eq_ok.mpr ⟨p, q, r, _, rfl, rfl, .inr ⟨?_, rfl, rfl⟩⟩⟩
    intro s' ts' same
    cases same
    exact other rfl
  | some arguments =>
    have between : lexemes ts₃ = .mark .leftParen ::
        (joined arguments.comma (arguments.list.map Argument.spelling) ++
          .mark .rightParen :: l :: tail) := by
      rw [behind]
      simp only [List.append_eq, List.cons_append, List.append_assoc, List.nil_append]
    obtain ⟨s, ts₄, rfl, inner⟩ := lexemes_eq_cons.mp between
    have length := congrArg List.length inner
    simp only [lexemes, List.length_map, List.length_append, List.length_cons] at length
    obtain ⟨rest, h, hparams⟩ := readParams_complete arguments.list arguments.comma
      (2 * ts₄.length + 1) [] (by omega) unique inner
    exact ⟨rest, p, h, readCall_eq_ok.mpr ⟨p, q, r, _, rfl, rfl, .inl ⟨s, ts₄, rfl, hparams⟩⟩⟩

/-- A call with an admitted module name becomes the step that it means. -/
theorem exists_toStep {unknown : UnknownTypes} {call : Tree.Call}
    (admitted : unknown.Admits call.module) (position : Position) :
    ∃ reports, (Script.Call.mk call.module position call.action call.params).toStep unknown =
      .ok (reports, call.meaning unknown.fallback) :=
  toStep_eq_ok.mpr ⟨admitted, rfl⟩

/-- Derivable calls with unique keys and admitted module names are read to the end. -/
theorem readSteps_complete (unknown : UnknownTypes) (call : Tree.Call) (calls : List Tree.Call)
    (bound : Nat) {ts : List Token} {beyond : List Lexeme} (enough : calls.length < bound)
    (good : ∀ c ∈ call :: calls, c.KeysUnique ∧ unknown.Admits c.module)
    (spelled : lexemes ts = callSpellings (call :: calls) ++ .finish :: beyond) :
    (readSteps unknown bound ts).result =
      .ok ((call :: calls).map (Call.meaning unknown.fallback)) := by
  induction calls generalizing call bound ts with
  | nil =>
    obtain ⟨bound, rfl⟩ : ∃ n, bound = n + 1 := ⟨bound - 1, by omega⟩
    obtain ⟨unique, admitted⟩ := good call List.mem_cons_self
    simp only [callSpellings, List.flatMap_nil, List.append_nil] at spelled
    obtain ⟨ts₁, position, behind, hcall⟩ :=
      readCall_complete call unique (l := .finish) (by rintro ⟨⟩) spelled
    obtain ⟨p, ts₂, rfl, -⟩ := lexemes_eq_cons.mp behind
    obtain ⟨reports, hstep⟩ := exists_toStep admitted position
    exact readSteps_succ_eq_ok.mpr
      ⟨_, _, reports, _, hcall, hstep, .inl ⟨p, ts₂, rfl, rfl⟩⟩
  | cons next calls ih =>
    obtain ⟨bound, rfl⟩ : ∃ n, bound = n + 1 := ⟨bound - 1, by omega⟩
    obtain ⟨unique, admitted⟩ := good call List.mem_cons_self
    simp only [callSpellings, List.flatMap_cons, List.append_assoc, List.cons_append] at spelled
    obtain ⟨ts₁, position, behind, hcall⟩ :=
      readCall_complete call unique (l := .mark .pipe) (by rintro ⟨⟩) spelled
    obtain ⟨p, ts₂, rfl, others⟩ := lexemes_eq_cons.mp behind
    obtain ⟨reports, hstep⟩ := exists_toStep admitted position
    have hmore := ih next bound (Nat.lt_of_succ_lt_succ enough)
      (fun c mem => good c (List.mem_cons_of_mem _ mem))
      (by rw [others, callSpellings, List.append_assoc])
    exact readSteps_succ_eq_ok.mpr
      ⟨_, _, reports, _, hcall, hstep, .inr ⟨p, ts₂, _, rfl, hmore, rfl⟩⟩

/-- Derivable declarations are read if no dollar sign stands behind them. -/
theorem readVariables_complete (vars : List (String × Value)) (bound : Nat) (declared : Fields)
    {ts : List Token} {l : Lexeme} {tail : List Lexeme} (enough : vars.length < bound)
    (other : l ≠ .mark .dollar)
    (spelled : lexemes ts = vars.flatMap variableSpelling ++ l :: tail) :
    ∃ rest, lexemes rest = l :: tail ∧
      readVariables bound declared ts = .ok (declared.insertAll (declarations vars), rest) := by
  induction vars generalizing bound declared ts with
  | nil =>
    obtain ⟨bound, rfl⟩ : ∃ n, bound = n + 1 := ⟨bound - 1, by omega⟩
    refine ⟨ts, spelled, readVariables_succ_eq_ok.mpr (.inr ⟨?_, rfl, rfl⟩)⟩
    rintro p ts₁ rfl
    cases spelled
    exact other rfl
  | cons declaration vars ih =>
    obtain ⟨bound, rfl⟩ : ∃ n, bound = n + 1 := ⟨bound - 1, by omega⟩
    simp only [List.flatMap_cons, variableSpelling, List.cons_append, List.append_assoc] at spelled
    obtain ⟨p, ts₁, rfl, named⟩ := lexemes_eq_cons.mp spelled
    obtain ⟨q, ts₂, rfl, equated⟩ := lexemes_eq_cons.mp named
    obtain ⟨r, ts₃, rfl, given⟩ := lexemes_eq_cons.mp equated
    have length := congrArg List.length given
    simp only [lexemes, List.length_map, List.length_append] at length
    obtain ⟨ts₄, others, hvalue⟩ :=
      readValue_complete declaration.2 (2 * ts₃.length) (by omega) given
    obtain ⟨rest, h, hmore⟩ := ih bound
      (declared.insert declaration.1 declaration.2.meaning)
      (Nat.lt_of_succ_lt_succ enough) others
    exact ⟨rest, h, readVariables_succ_eq_ok.mpr (.inl ⟨p, _, _, _, ts₄, rfl,
      readVariable_eq_ok.mpr ⟨q, r, ts₃, rfl, hvalue⟩, hmore⟩)⟩

/-- What a derivable script begins with before its calls is read. -/
theorem readPreamble_complete (header : Option Key) (vars : List (String × Value))
    {ts : List Token} {l : Lexeme} {tail : List Lexeme} (noMark : ∀ m, l ≠ .mark m)
    (spelled : lexemes ts = headerSpelling header ++ vars.flatMap variableSpelling ++ l :: tail) :
    ∃ rest, lexemes rest = l :: tail ∧
      readPreamble ts = .ok ((Tree.Source.mk header vars []).meaning default, rest) := by
  -- The declarations are where the header, if there is one, ends.
  have declared : ∀ {ts₁ : List Token}, lexemes ts₁ = vars.flatMap variableSpelling ++ l :: tail →
      ∃ rest, lexemes rest = l :: tail ∧
        readVariables ts₁.length [] ts₁ = .ok (Fields.ofList (declarations vars), rest) := by
    intro ts₁ spelled
    have length := congrArg List.length spelled
    simp only [lexemes, List.length_map, List.length_append, List.length_cons] at length
    have enough := length_le_length_flatMap variableSpelling vars nofun
    exact readVariables_complete vars _ _ (by omega) (noMark .dollar) spelled
  cases header with
  | none =>
    obtain ⟨rest, h, hvars⟩ := declared spelled
    refine ⟨rest, h, readPreamble_eq_ok.mpr ⟨_, ts, _, .inr ⟨?_, rfl, rfl⟩, hvars, rfl⟩⟩
    rintro q ts' rfl
    cases vars with
    | nil => cases spelled; exact noMark .at rfl
    | cons => cases spelled
  | some key =>
    obtain ⟨p, ts₁, rfl, headed⟩ := lexemes_eq_cons.mp spelled
    obtain ⟨q, ts₂, rfl, named⟩ := lexemes_eq_cons.mp headed
    obtain ⟨r, ts₃, rfl, ended⟩ := lexemes_eq_cons.mp named
    obtain ⟨s, ts₄, rfl, behind⟩ := lexemes_eq_cons.mp ended
    obtain ⟨rest, h, hvars⟩ := declared behind
    exact ⟨rest, h, readPreamble_eq_ok.mpr ⟨_, ts₄, _,
      .inl ⟨p, _, rfl, readHeader_eq_ok.mpr ⟨key, q, r, s, rfl, rfl⟩⟩, hvars, rfl⟩⟩

/-- A derivable script with unique keys and admitted module names is read, and what is read is its
meaning. -/
theorem readPipeline_complete {unknown : UnknownTypes} (script : Tree.Source) {ts : List Token}
    {beyond : List Lexeme} (unique : script.KeysUnique)
    (admitted : ∀ call ∈ script.calls, unknown.Admits call.module)
    (spelled : lexemes ts = script.spelling ++ .finish :: beyond) :
    (readPipeline unknown ts).result = .ok (script.meaning unknown.fallback) := by
  obtain ⟨header, vars, calls⟩ := script
  cases calls with
  | nil =>
    obtain ⟨ts₁, h, hpreamble⟩ := readPreamble_complete header vars (l := .finish) (by rintro _ ⟨⟩)
      (by simpa only [Source.spelling, callSpellings, List.append_nil] using spelled)
    obtain ⟨p, ts₂, rfl, -⟩ := lexemes_eq_cons.mp h
    exact readPipeline_eq_ok.mpr ⟨_, _, hpreamble, .inl ⟨p, ts₂, rfl, rfl⟩⟩
  | cons call calls =>
    obtain ⟨tail, opens⟩ : ∃ tail, callSpellings (call :: calls) ++ .finish :: beyond =
        .word call.module :: tail := ⟨_, rfl⟩
    obtain ⟨ts₁, steps, hpreamble⟩ := readPreamble_complete header vars
      (l := .word call.module) (by rintro _ ⟨⟩)
      (by rw [spelled, Source.spelling, List.append_assoc, opens])
    refine readPipeline_eq_ok.mpr ⟨_, ts₁, hpreamble, .inr ⟨?_, _, ?_, rfl⟩⟩
    · rintro q ts₂ rfl
      cases steps
    · rw [← opens] at steps
      have length := congrArg List.length steps
      simp only [lexemes, callSpellings, List.length_map, List.length_append, List.length_cons]
        at length
      have enough := length_le_length_flatMap
        (fun c : Tree.Call => .mark .pipe :: c.spelling) calls fun _ => List.cons_ne_nil _ _
      exact readSteps_complete unknown call calls _ (by omega)
        (fun c mem => ⟨unique c mem, admitted c mem⟩) steps

/-! ## Texts that were scanned -/

/-- In the tokens of a text the readers find a pipeline exactly when the tokens up to the end derive
from the grammar and no call gives a key twice, and the pipeline is what the derivation denotes. A
module name that is no atom type stands for `fallback`. -/
theorem readPipeline_eq_ok_iff_derivable {text : String} {ts : List Token}
    (scanned : tokenize text = .ok ts) (fallback : AtomType) (p : Pipeline) :
    (readPipeline (.substitute fallback) ts).result = .ok p ↔
      ∃ script : Tree.Source, lexemes ts = script.spelling ++ [.finish] ∧ script.KeysUnique ∧
        script.meaning fallback = p := by
  constructor
  · intro read
    obtain ⟨script, beyond, spelled, unique, -, meant⟩ := readPipeline_sound read
    rw [tokenize_ends scanned spelled] at spelled
    exact ⟨script, spelled, unique, meant⟩
  · rintro ⟨script, spelled, unique, rfl⟩
    exact readPipeline_complete script unique (fun _ _ => .inl nofun) spelled

/-- A variable, a call whose second argument is counted although the first has a name, and a
trailing comma. -/
theorem reads_call_with_counted_argument :
    (readPipeline (.substitute .data)
      ((tokenize "$n = null data.load(key=$n, [a, 1],)").toOption.getD [])).result =
      .ok { name := Pipeline.defaultName
            vars := [("n", .null)]
            steps := [{ atom := ⟨.data, "load",
              [("key", .string "$n"), ("_arg0", .array [.string "a", .number (.ofNat 1)])]⟩ }] } := by
  have scanned : tokenize "$n = null data.load(key=$n, [a, 1],)" =
      .ok ((tokenize "$n = null data.load(key=$n, [a, 1],)").toOption.getD []) := by decide +kernel
  refine (readPipeline_eq_ok_iff_derivable scanned .data _).mpr ?_
  exact ⟨⟨none, [("n", .word "null")],
    [⟨"data", "load", some ⟨[⟨some "key", .reference "n"⟩,
      ⟨none, .list [.word "a", .number (.ofNat 1)] false⟩], true⟩⟩]⟩,
    by decide +kernel, by decide, rfl⟩

end Pipework.Script
