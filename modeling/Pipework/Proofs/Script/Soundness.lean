import Pipework.Proofs.Json.Fields
import Pipework.Proofs.Script.Reading
import Pipework.Proofs.Script.Scanning

/-!
# What is read is derivable

The tokens that a reader takes are the spelling of a tree, and the tree means what the reader
gives. The induction is on the bound, which every reader hands down one less of; what one step of a
reader can do is in `Pipework.Proofs.Script.Reading`.
-/

namespace Pipework.Script

open Script.Tree

/-! ## Values -/

mutual

/-- A value that is read is derivable and means what was read. -/
theorem readValue_sound (bound : Nat) {ts rest : List Token} {v : Json}
    (h : readValue bound ts = .ok (v, rest)) :
    ∃ tree : Value, lexemes ts = tree.spelling ++ lexemes rest ∧ tree.meaning = v := by
  match bound, ts with
  | 0, ts => exact absurd h fail_ne_ok
  | _ + 1, [] => exact absurd h fail_ne_ok
  | _ + 1, ⟨.text s, p⟩ :: ts => cases h; exact ⟨.text s, rfl, rfl⟩
  | _ + 1, ⟨.number n, p⟩ :: ts => cases h; exact ⟨.number n, rfl, rfl⟩
  | _ + 1, ⟨.bool b, p⟩ :: ts => cases h; exact ⟨.bool b, rfl, rfl⟩
  | _ + 1, ⟨.word name, p⟩ :: ts => cases h; exact ⟨.word name, rfl, rfl⟩
  | _ + 1, ⟨.finish, p⟩ :: ts => exact absurd h fail_ne_ok
  | bound + 1, ⟨.mark m, p⟩ :: ts =>
    cases m with
    | leftBrace =>
      obtain ⟨⟨fields, _⟩, hfields, h⟩ := Outcome.bind_eq_ok.mp h
      cases h
      obtain ⟨entries, comma, spelled, rfl⟩ := readEntries_sound bound hfields
      refine ⟨.object entries comma, ?_, rfl⟩
      simp only [lexemes, List.map_cons, Value.spelling, List.cons_append, List.append_assoc,
        List.nil_append] at spelled ⊢
      rw [spelled]
    | leftBracket =>
      obtain ⟨⟨items, _⟩, hitems, h⟩ := Outcome.bind_eq_ok.mp h
      cases h
      obtain ⟨trees, comma, spelled, rfl⟩ := readItems_sound bound hitems
      refine ⟨.list trees comma, ?_, rfl⟩
      simp only [lexemes, List.map_cons, Value.spelling, List.cons_append, List.append_assoc,
        List.nil_append] at spelled ⊢
      rw [spelled]
    | dollar =>
      obtain ⟨⟨name, _⟩, hname, h⟩ := Outcome.bind_eq_ok.mp h
      cases h
      obtain ⟨q, rfl⟩ := takeWord_eq_ok.mp hname
      exact ⟨.reference name, rfl, rfl⟩
    | _ => exact absurd h (readValue_mark_ne_ok nofun nofun nofun)

/-- Entries that are read are derivable, and inserting their meanings gives what was read. -/
theorem readEntries_sound (bound : Nat) {fields out : Fields} {ts rest : List Token}
    (h : readEntries bound fields ts = .ok (out, rest)) :
    ∃ entries comma,
      lexemes ts = joined comma (entrySpellings entries) ++ .mark .rightBrace :: lexemes rest ∧
      fields.insertAll (entryMeanings entries) = out := by
  match bound with
  | 0 => exact absurd h fail_ne_ok
  | bound + 1 =>
    rcases readEntries_succ_eq_ok.mp h with
      ⟨p, rfl, rfl⟩ | ⟨name, ts₁, ts₂, value, ts₃, hname, colon, hvalue, after⟩
    · exact ⟨[], false, rfl, rfl⟩
    · obtain ⟨key, p, rfl, rfl⟩ := takeName_eq_ok.mp hname
      obtain ⟨q, rfl⟩ := takeMark_eq_ok.mp colon
      obtain ⟨tree, spelled, rfl⟩ := readValue_sound bound hvalue
      rcases after with ⟨r, ts₄, rfl, hmore⟩ | ⟨r, rfl, rfl⟩
      · obtain ⟨entries, comma, others, rfl⟩ := readEntries_sound bound hmore
        obtain ⟨comma', together⟩ := exists_joined_cons comma
          (key.lexeme :: .mark .colon :: tree.spelling) (entrySpellings entries)
        refine ⟨(key, tree) :: entries, comma', ?_, rfl⟩
        simp only [lexemes, List.map_cons, entrySpellings, together, List.cons_append,
          List.append_assoc] at spelled others ⊢
        rw [spelled, others]
      · refine ⟨[(key, tree)], false, ?_, rfl⟩
        simp only [lexemes, List.map_cons, entrySpellings, joined_single_false, List.cons_append]
          at spelled ⊢
        rw [spelled]

/-- Items that are read are derivable and mean what was read. -/
theorem readItems_sound (bound : Nat) {items : List Json} {ts rest : List Token}
    (h : readItems bound ts = .ok (items, rest)) :
    ∃ trees comma,
      lexemes ts = joined comma (itemSpellings trees) ++ .mark .rightBracket :: lexemes rest ∧
      itemMeanings trees = items := by
  match bound with
  | 0 => exact absurd h fail_ne_ok
  | bound + 1 =>
    rcases readItems_succ_eq_ok.mp h with ⟨p, rfl, rfl⟩ | ⟨item, ts₁, hitem, after⟩
    · exact ⟨[], false, rfl, rfl⟩
    · obtain ⟨tree, spelled, rfl⟩ := readValue_sound bound hitem
      rcases after with ⟨p, ts₂, _, rfl, hmore, rfl⟩ | ⟨p, rfl, rfl⟩
      · obtain ⟨trees, comma, others, rfl⟩ := readItems_sound bound hmore
        obtain ⟨comma', together⟩ :=
          exists_joined_cons comma tree.spelling (itemSpellings trees)
        refine ⟨tree :: trees, comma', ?_, rfl⟩
        simp only [lexemes, List.map_cons, itemSpellings, together, List.cons_append,
          List.append_assoc] at spelled others ⊢
        rw [spelled, others]
      · refine ⟨[tree], false, ?_, rfl⟩
        simp only [lexemes, List.map_cons, itemSpellings, joined_single_false] at spelled ⊢
        rw [spelled]

end

/-- Arguments that are read are derivable. They are what the call has more than before, and no key
occurs twice among all of them. -/
theorem readParams_sound (bound : Nat) {unnamed : Nat} {params out : Params}
    {ts rest : List Token} (distinct : Fields.Distinct params)
    (h : readParams bound unnamed params ts = .ok (out, rest)) :
    ∃ list comma,
      lexemes ts = joined comma (list.map Argument.spelling) ++ .mark .rightParen :: lexemes rest ∧
      out = params ++ Argument.params unnamed list ∧ Fields.Distinct out := by
  induction bound generalizing unnamed params ts with
  | zero => exact absurd h fail_ne_ok
  | succ bound ih =>
    rcases readParams_succ_eq_ok.mp h with
      ⟨p, rfl, rfl⟩ | ⟨key, value, following, ts₁, hparam, fresh, after⟩
    · exact ⟨[], false, rfl, (List.append_nil _).symm, distinct⟩
    · -- Named or not, the argument gives one parameter; only the count goes on differently.
      obtain ⟨argument, spelled, meant⟩ : ∃ argument : Argument,
          lexemes ts = argument.spelling ++ lexemes ts₁ ∧
          ∀ list, Argument.params unnamed (argument :: list) =
            (key, value) :: Argument.params following list := by
        rcases readParam_eq_ok.mp hparam with ⟨p, q, ts', rfl, hvalue, rfl⟩ | ⟨_, hvalue, rfl, rfl⟩
        · obtain ⟨tree, spelled, rfl⟩ := readValue_sound bound hvalue
          refine ⟨⟨some key, tree⟩, ?_, fun _ => rfl⟩
          simp only [lexemes, List.map_cons, Argument.spelling, List.cons_append] at spelled ⊢
          rw [spelled]
        · obtain ⟨tree, spelled, rfl⟩ := readValue_sound bound hvalue
          exact ⟨⟨none, tree⟩, spelled, fun _ => rfl⟩
      -- A key that is there already is refused, so inserting puts the parameter at the end.
      have appended : Fields.insert params key value = params ++ [(key, value)] :=
        Fields.insert_of_notMem value (Fields.contains_eq_false.mp fresh)
      have distinct' := distinct.insert key value
      rcases after with ⟨p, ts₂, rfl, hmore⟩ | ⟨p, rfl, rfl⟩
      · obtain ⟨list, comma, others, rfl, unique⟩ := ih distinct' hmore
        obtain ⟨comma', together⟩ :=
          exists_joined_cons comma argument.spelling (list.map Argument.spelling)
        refine ⟨argument :: list, comma', ?_, ?_, unique⟩
        · simp only [lexemes, List.map_cons, together, List.append_assoc, List.cons_append]
            at spelled others ⊢
          rw [spelled, others]
        · rw [appended, meant, List.append_assoc, List.singleton_append]
      · refine ⟨[argument], false, ?_, ?_, distinct'⟩
        · simp only [lexemes, List.map_cons, List.map_nil, joined_single_false] at spelled ⊢
          exact spelled
        · rw [appended, meant]
          rfl

/-- A call that is read is derivable, and its keys are unique. -/
theorem readCall_sound {call : Call} {ts rest : List Token} (h : readCall ts = .ok (call, rest)) :
    ∃ arguments,
      let tree : Tree.Call := ⟨call.module, call.action, arguments⟩
      lexemes ts = tree.spelling ++ lexemes rest ∧ tree.params = call.params ∧ tree.KeysUnique := by
  obtain ⟨p, q, r, ts', rfl, -, after⟩ := readCall_eq_ok.mp h
  rcases after with ⟨s, ts₁, rfl, hparams⟩ | ⟨-, bare, rfl⟩
  · obtain ⟨list, comma, spelled, meant, distinct⟩ := readParams_sound _ Fields.distinct_nil hparams
    rw [List.nil_append] at meant
    refine ⟨some ⟨list, comma⟩, ?_, meant.symm, ?_⟩
    · simp only [lexemes, List.map_cons, Call.spelling, List.cons_append, List.append_assoc,
        List.nil_append] at spelled ⊢
      rw [spelled]
    · change Fields.Distinct (Argument.params 0 list)
      rw [← meant]
      exact distinct
  · exact ⟨none, rfl, bare.symm, Fields.distinct_nil⟩

/-! ## Steps -/

/-- The type that stands in for a module name that is no atom type. Where no type does, it does
not matter which this is. -/
def UnknownTypes.fallback : UnknownTypes → AtomType
  | .substitute type => type
  | .reject => .data

/-- Is a call with this module name taken? -/
def UnknownTypes.Admits (unknown : UnknownTypes) (module : String) : Prop :=
  unknown ≠ .reject ∨ (AtomType.ofName? module).isSome

/-- A call becomes a step when its module name is admitted. -/
theorem toStep_eq_ok {unknown : UnknownTypes} {call : Call} {step : Step} :
    (∃ reports, call.toStep unknown = .ok (reports, step)) ↔
      unknown.Admits call.module ∧
      step = { atom := ⟨(AtomType.ofName? call.module).getD unknown.fallback, call.action,
        call.params⟩ } := by
  unfold Call.toStep UnknownTypes.Admits
  cases AtomType.ofName? call.module with
  | some type =>
    simp only [Except.ok.injEq, Prod.mk.injEq, exists_eq_left', Option.isSome_some, or_true,
      Option.getD_some, true_and]
    exact eq_comm
  | none =>
    cases unknown with
    | substitute type =>
      simp only [Except.ok.injEq, Prod.mk.injEq, exists_eq_left', ne_eq, reduceCtorEq,
        not_false_eq_true, true_or, Option.getD_none, UnknownTypes.fallback, true_and]
      exact eq_comm
    | reject =>
      simp only [reduceCtorEq, exists_false, ne_eq, not_true_eq_false, Option.isSome_none,
        Bool.false_eq_true, or_self, false_and]

/-- Steps that are read are the steps of derivable calls, with the end behind the last. -/
theorem readSteps_sound (unknown : UnknownTypes) (bound : Nat) {steps : List Step}
    {ts : List Token} (h : (readSteps unknown bound ts).result = .ok steps) :
    ∃ (call : Tree.Call) (calls : List Tree.Call) (beyond : List Lexeme),
      lexemes ts = callSpellings (call :: calls) ++ .finish :: beyond ∧
      steps = (call :: calls).map (Call.meaning unknown.fallback) ∧
      ∀ c ∈ call :: calls, c.KeysUnique ∧ unknown.Admits c.module := by
  induction bound generalizing steps ts with
  | zero => exact absurd h fail_ne_ok
  | succ bound ih =>
    obtain ⟨call, ts₁, reports, step, hcall, hstep, after⟩ := readSteps_succ_eq_ok.mp h
    obtain ⟨arguments, spelled, meant, unique⟩ := readCall_sound hcall
    obtain ⟨admitted, rfl⟩ := toStep_eq_ok.mp ⟨reports, hstep⟩
    rw [← meant] at after
    rcases after with ⟨p, ts₂, rfl, rfl⟩ | ⟨p, ts₂, others, rfl, hothers, rfl⟩
    · refine ⟨⟨call.module, call.action, arguments⟩, [], lexemes ts₂, ?_, rfl, ?_⟩
      · simp only [callSpellings, List.flatMap_nil, List.append_nil]
        exact spelled
      · intro c mem
        rw [List.mem_singleton.mp mem]
        exact ⟨unique, admitted⟩
    · obtain ⟨next, calls, beyond, spelled', rfl, good⟩ := ih hothers
      refine ⟨⟨call.module, call.action, arguments⟩, next :: calls, beyond, ?_, rfl, ?_⟩
      · simp only [lexemes, List.map_cons, callSpellings, List.flatMap_cons, List.append_assoc,
          List.cons_append] at spelled spelled' ⊢
        rw [spelled, spelled']
      · intro c mem
        rcases List.mem_cons.mp mem with rfl | mem
        · exact ⟨unique, admitted⟩
        · exact good c mem

/-! ## Whole scripts -/

/-- Declarations that are read are derivable, and inserting their meanings gives what was read. -/
theorem readVariables_sound (bound : Nat) {declared out : Fields} {ts rest : List Token}
    (h : readVariables bound declared ts = .ok (out, rest)) :
    ∃ vars, lexemes ts = vars.flatMap variableSpelling ++ lexemes rest ∧
      declared.insertAll (declarations vars) = out := by
  induction bound generalizing declared ts with
  | zero => cases h; exact ⟨[], rfl, rfl⟩
  | succ bound ih =>
    rcases readVariables_succ_eq_ok.mp h with
      ⟨p, ts₁, name, value, ts₂, rfl, hvariable, hmore⟩ | ⟨-, rfl, rfl⟩
    · obtain ⟨q, r, ts', rfl, hvalue⟩ := readVariable_eq_ok.mp hvariable
      obtain ⟨tree, spelled, rfl⟩ := readValue_sound _ hvalue
      obtain ⟨vars, spelled', rfl⟩ := ih hmore
      refine ⟨(name, tree) :: vars, ?_, rfl⟩
      simp only [lexemes, List.map_cons, List.flatMap_cons, variableSpelling, List.cons_append,
        List.append_assoc] at spelled spelled' ⊢
      rw [spelled, spelled']
    · exact ⟨[], rfl, rfl⟩

/-- What is read before the first step is a derivable header and derivable declarations. -/
theorem readPreamble_sound {p : Pipeline} {ts rest : List Token}
    (h : readPreamble ts = .ok (p, rest)) :
    ∃ header vars,
      lexemes ts = headerSpelling header ++ vars.flatMap variableSpelling ++ lexemes rest ∧
      ∀ fallback, (Tree.Source.mk header vars []).meaning fallback = p := by
  obtain ⟨name, ts₁, declared, hname, hvars, rfl⟩ := readPreamble_eq_ok.mp h
  obtain ⟨vars, spelled, rfl⟩ := readVariables_sound _ hvars
  rcases hname with ⟨q, ts', rfl, hname⟩ | ⟨-, rfl, rfl⟩
  · obtain ⟨key, r, s, t, rfl, rfl⟩ := readHeader_eq_ok.mp hname
    refine ⟨some key, vars, ?_, fun _ => rfl⟩
    simp only [lexemes, List.map_cons, headerSpelling, List.cons_append, List.nil_append]
      at spelled ⊢
    rw [spelled]
  · exact ⟨none, vars, spelled, fun _ => rfl⟩

/-- A pipeline that is read is the meaning of a derivable script, with the end behind it. -/
theorem readPipeline_sound {unknown : UnknownTypes} {p : Pipeline} {ts : List Token}
    (h : (readPipeline unknown ts).result = .ok p) :
    ∃ (script : Tree.Source) (beyond : List Lexeme),
      lexemes ts = script.spelling ++ .finish :: beyond ∧ script.KeysUnique ∧
      (∀ call ∈ script.calls, unknown.Admits call.module) ∧
      script.meaning unknown.fallback = p := by
  obtain ⟨start, ts₁, hpreamble, after⟩ := readPipeline_eq_ok.mp h
  obtain ⟨header, vars, spelled, meant⟩ := readPreamble_sound hpreamble
  rcases after with ⟨q, ts₂, rfl, rfl⟩ | ⟨-, steps, hsteps, rfl⟩
  · refine ⟨⟨header, vars, []⟩, lexemes ts₂, ?_, nofun, nofun, meant _⟩
    simp only [lexemes, List.map_cons, Source.spelling, callSpellings, List.append_nil]
      at spelled ⊢
    exact spelled
  · obtain ⟨call, calls, beyond, spelled', rfl, good⟩ := readSteps_sound _ _ hsteps
    refine ⟨⟨header, vars, call :: calls⟩, beyond, ?_, fun c mem => (good c mem).1,
      fun c mem => (good c mem).2, ?_⟩
    · simp only [Source.spelling, List.append_assoc] at spelled ⊢
      rw [spelled, spelled']
    · rw [← meant unknown.fallback]
      rfl

end Pipework.Script
