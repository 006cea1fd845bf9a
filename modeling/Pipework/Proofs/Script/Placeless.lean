import Pipework.Proofs.Script.Reading

/-!
# Reading without places

Readers look at lexemes and never at places; they only pass places on, into errors and into the place
of a call. So taking the places out of tokens first, or out of the result afterwards, comes to the same
(`readValue_placeless` and its likes). Texts whose tokens differ in their places alone are therefore
read alike (`parse_placeless`).

Each reader is a chain, and `bind_placeless` goes through a chain link by link; where a chain splits by
the next token, so does the proof.
-/

namespace Pipework

/-- An error without the place that it names. -/
def PipelineError.placeless : PipelineError → PipelineError
  | .malformed expected found _ _ => .malformed expected found 0 0
  | .unknownAtomType name _ _ => .unknownAtomType name 0 0
  | e => e

namespace Script

/-- A token without its place. -/
def Token.placeless (t : Token) : Token := ⟨t.lexeme, ⟨0, 0, 0⟩⟩

/-- Tokens without their places. -/
abbrev placeless (ts : List Token) : List Token := ts.map Token.placeless

/-- A call without its place. -/
def Call.placeless (call : Call) : Call := { call with position := ⟨0, 0, 0⟩ }

/-- A result without places: the error loses its own, and `strip` takes them from what was read. -/
def stripped {α β : Type} (strip : α → β) (result : Except PipelineError α) :
    Except PipelineError β :=
  (result.map strip).mapError PipelineError.placeless

/-- What was read, with the tokens behind it without their places. -/
abbrev withRest {α : Type} (read : α × List Token) : α × List Token := (read.1, placeless read.2)

/-! ## Chains -/

section

variable {α β γ δ : Type}

/-- A chain is without places if its links are. -/
theorem bind_placeless {x : Except PipelineError α} {x' : Except PipelineError β}
    {f : α → Except PipelineError γ} {f' : β → Except PipelineError δ} {strip : α → β}
    {strip' : γ → δ} (first : x' = stripped strip x)
    (second : ∀ a, f' (strip a) = stripped strip' (f a)) :
    (x' >>= f') = stripped strip' (x >>= f) := by
  subst first
  cases x with
  | error e => rfl
  | ok a => exact second a

/-- The error of a token that does not fit. -/
theorem fail_placeless (strip : α → β) (expected : String) (ts : List Token) :
    fail expected (placeless ts) = stripped strip (fail expected ts) := by
  cases ts <;> rfl

end

/-! ## Single tokens -/

/-- A mark is taken wherever it stands. -/
theorem takeMark_placeless (m : Mark) (ts : List Token) :
    takeMark m (placeless ts) = stripped placeless (takeMark m ts) := by
  rcases ts with _ | ⟨⟨l, p⟩, ts⟩
  · rfl
  · by_cases same : l = .mark m
    · simp only [takeMark, List.map_cons, Token.placeless, same, ↓reduceIte]
      rfl
    · simp only [takeMark, List.map_cons, Token.placeless, same, ↓reduceIte]
      rfl

/-- A word is taken wherever it stands. -/
theorem takeWord_placeless (ts : List Token) :
    takeWord (placeless ts) = stripped withRest (takeWord ts) := by
  rcases ts with _ | ⟨⟨l, p⟩, ts⟩
  · rfl
  · cases l <;> rfl

/-- A name is taken wherever it stands. -/
theorem takeName_placeless (expected : String) (ts : List Token) :
    takeName expected (placeless ts) = stripped withRest (takeName expected ts) := by
  rcases ts with _ | ⟨⟨l, p⟩, ts⟩
  · rfl
  · cases l <;> rfl

/-- Taking places out leaves what mark comes next. -/
theorem placeless_ne_mark {m : Mark} {ts : List Token}
    (other : ∀ p ts', ts ≠ ⟨.mark m, p⟩ :: ts') (p : Position) (ts' : List Token) :
    placeless ts ≠ ⟨.mark m, p⟩ :: ts' := by
  intro same
  obtain ⟨⟨l, q⟩, ts, rfl, first, -⟩ := List.map_eq_cons_iff.mp same
  cases first
  exact other q ts rfl

/-! ## Values -/

mutual

/-- A value is read by its lexemes. -/
theorem readValue_placeless (bound : Nat) (ts : List Token) :
    readValue bound (placeless ts) = stripped withRest (readValue bound ts) := by
  match bound, ts with
  | 0, ts => exact fail_placeless _ _ ts
  | _ + 1, [] => rfl
  | bound + 1, ⟨l, p⟩ :: ts =>
    cases l with
    | mark m =>
      cases m with
      | leftBrace => exact bind_placeless (readEntries_placeless bound [] ts) fun _ => rfl
      | leftBracket => exact bind_placeless (readItems_placeless bound ts) fun _ => rfl
      | dollar => exact bind_placeless (takeWord_placeless ts) fun _ => rfl
      | _ => rfl
    | _ => rfl

/-- The fields of an object are read by their lexemes. -/
theorem readEntries_placeless (bound : Nat) (fields : Fields) (ts : List Token) :
    readEntries bound fields (placeless ts) = stripped withRest (readEntries bound fields ts) := by
  cases bound with
  | zero => exact fail_placeless _ _ ts
  | succ bound =>
    by_cases closed : ∃ p ts', ts = ⟨.mark .rightBrace, p⟩ :: ts'
    · obtain ⟨p, ts', rfl⟩ := closed
      rfl
    have open' : ∀ p ts', ts ≠ ⟨.mark .rightBrace, p⟩ :: ts' := fun p ts' h => closed ⟨p, ts', h⟩
    rw [readEntries.eq_3 _ _ _ open', readEntries.eq_3 _ _ _ (placeless_ne_mark open')]
    refine bind_placeless (takeName_placeless _ ts) fun ⟨name, ts₁⟩ => ?_
    refine bind_placeless (takeMark_placeless _ ts₁) fun ts₂ => ?_
    refine bind_placeless (readValue_placeless bound ts₂) fun ⟨value, ts₃⟩ => ?_
    rcases ts₃ with _ | ⟨⟨l, p⟩, ts₃⟩
    · rfl
    cases l with
    | mark m =>
      cases m with
      | comma => exact readEntries_placeless bound _ ts₃
      | _ => rfl
    | _ => rfl

/-- The items of a list are read by their lexemes. -/
theorem readItems_placeless (bound : Nat) (ts : List Token) :
    readItems bound (placeless ts) = stripped withRest (readItems bound ts) := by
  cases bound with
  | zero => exact fail_placeless _ _ ts
  | succ bound =>
    by_cases closed : ∃ p ts', ts = ⟨.mark .rightBracket, p⟩ :: ts'
    · obtain ⟨p, ts', rfl⟩ := closed
      rfl
    have open' : ∀ p ts', ts ≠ ⟨.mark .rightBracket, p⟩ :: ts' :=
      fun p ts' h => closed ⟨p, ts', h⟩
    rw [readItems.eq_3 _ _ open', readItems.eq_3 _ _ (placeless_ne_mark open')]
    refine bind_placeless (readValue_placeless bound ts) fun ⟨item, ts₁⟩ => ?_
    rcases ts₁ with _ | ⟨⟨l, p⟩, ts₁⟩
    · rfl
    cases l with
    | mark m =>
      cases m with
      | comma => exact bind_placeless (readItems_placeless bound ts₁) fun _ => rfl
      | _ => rfl
    | _ => rfl

end

/-! ## Calls -/

/-- An argument is read by its lexemes: it is named or not, wherever it stands. -/
theorem readParam_placeless (bound unnamed : Nat) (ts : List Token) :
    readParam bound unnamed (placeless ts) = stripped withRest (readParam bound unnamed ts) := by
  by_cases named : ∃ name p q ts', ts = ⟨.word name, p⟩ :: ⟨.mark .equals, q⟩ :: ts'
  · obtain ⟨name, p, q, ts', rfl⟩ := named
    exact bind_placeless (readValue_placeless bound ts') fun _ => rfl
  · have unnamed' : ∀ name p q ts', placeless ts ≠ ⟨.word name, p⟩ :: ⟨.mark .equals, q⟩ :: ts' := by
      intro name p q ts' same
      obtain ⟨⟨l, p'⟩, rest, rfl, first, behind⟩ := List.map_eq_cons_iff.mp same
      obtain ⟨⟨l', q'⟩, rest, rfl, second, -⟩ := List.map_eq_cons_iff.mp behind
      cases first
      cases second
      exact named ⟨name, p', q', rest, rfl⟩
    rw [readParam.eq_2 _ _ _ fun name p q ts' h => named ⟨name, p, q, ts', h⟩,
      readParam.eq_2 _ _ _ unnamed']
    exact bind_placeless (readValue_placeless bound ts) fun _ => rfl

/-- Arguments are read by their lexemes; only the error for a repeated name has a place. -/
theorem readParams_placeless (bound unnamed : Nat) (params : Params) (ts : List Token) :
    readParams bound unnamed params (placeless ts) =
      stripped withRest (readParams bound unnamed params ts) := by
  induction bound generalizing unnamed params ts with
  | zero => exact fail_placeless _ _ ts
  | succ bound ih =>
    by_cases closed : ∃ p ts', ts = ⟨.mark .rightParen, p⟩ :: ts'
    · obtain ⟨p, ts', rfl⟩ := closed
      rfl
    have open' : ∀ p ts', ts ≠ ⟨.mark .rightParen, p⟩ :: ts' := fun p ts' h => closed ⟨p, ts', h⟩
    have place : (current (placeless ts)).position = ⟨0, 0, 0⟩ := by cases ts <;> rfl
    rw [readParams.eq_3 _ _ _ _ open', readParams.eq_3 _ _ _ _ (placeless_ne_mark open'), place]
    refine bind_placeless (readParam_placeless bound unnamed ts) fun read => ?_
    obtain ⟨⟨key, value, following⟩, ts₁⟩ := read
    by_cases known : Fields.contains params key = true
    · simp only [known, ↓reduceIte]
      rfl
    · simp only [known]
      rcases ts₁ with _ | ⟨⟨l, p⟩, ts₁⟩
      · rfl
      cases l with
      | mark m =>
        cases m with
        | comma => exact ih _ _ ts₁
        | _ => rfl
      | _ => rfl

/-- A call is read by its lexemes, and keeps the place where it begins. -/
theorem readCall_placeless (ts : List Token) :
    readCall (placeless ts) =
      stripped (fun read => (read.1.placeless, placeless read.2)) (readCall ts) := by
  have place : (current (placeless ts)).position = ⟨0, 0, 0⟩ := by cases ts <;> rfl
  rw [readCall, readCall, place]
  refine bind_placeless (takeWord_placeless ts) fun ⟨module, ts₁⟩ => ?_
  refine bind_placeless (takeMark_placeless _ ts₁) fun ts₂ => ?_
  refine bind_placeless (takeWord_placeless ts₂) fun ⟨action, ts₃⟩ => ?_
  rcases ts₃ with _ | ⟨⟨l, p⟩, ts₃⟩
  · rfl
  cases l with
  | mark m =>
    cases m with
    | leftParen =>
      have params : readParams (2 * (placeless ts₃).length + 1) 0 [] (placeless ts₃) =
          stripped withRest (readParams (2 * ts₃.length + 1) 0 [] ts₃) := by
        rw [List.length_map]
        exact readParams_placeless _ 0 [] ts₃
      exact bind_placeless params fun _ => rfl
    | _ => rfl
  | _ => rfl

/-- The step of a call does not depend on its place. -/
theorem toStep_placeless (unknown : UnknownTypes) (call : Call) :
    (call.placeless.toStep unknown).map Prod.snd =
      stripped Prod.snd (call.toStep unknown) := by
  unfold Call.toStep
  simp only [Call.placeless]
  cases AtomType.ofName? call.module <;> cases unknown <;> rfl

/-- Steps are read by their lexemes. The lines reported on the way name places and are left out. -/
theorem readSteps_placeless (unknown : UnknownTypes) (bound : Nat) (ts : List Token) :
    (readSteps unknown bound (placeless ts)).result =
      stripped id (readSteps unknown bound ts).result := by
  induction bound generalizing ts with
  | zero => exact fail_placeless _ _ ts
  | succ bound ih =>
    rw [readSteps, readSteps, readCall_placeless]
    cases readCall ts with
    | error e => rfl
    | ok read =>
      obtain ⟨call, ts₁⟩ := read
      have step := toStep_placeless unknown call
      simp only [stripped, Except.map, Except.mapError]
      cases made : call.toStep unknown with
      | error e =>
        rw [made] at step
        simp only [Outcome.map_eq_error.mp step]
      | ok pair =>
        rw [made] at step
        obtain ⟨⟨reports, _⟩, made', rfl⟩ := Outcome.map_eq_ok.mp step
        simp only [made']
        rcases ts₁ with _ | ⟨⟨l, p⟩, ts₁⟩
        · rfl
        cases l with
        | mark m =>
          cases m with
          | pipe =>
            have more := ih ts₁
            simp only [List.map_cons, Token.placeless, more]
            cases (readSteps unknown bound ts₁).result <;> rfl
          | _ => rfl
        | _ => rfl

/-! ## Whole scripts -/

/-- A header is read by its lexemes. -/
theorem readHeader_placeless (ts : List Token) :
    readHeader (placeless ts) = stripped withRest (readHeader ts) := by
  by_cases keyword : ∃ p ts', ts = ⟨.word "pipeline", p⟩ :: ts'
  · obtain ⟨p, ts', rfl⟩ := keyword
    refine bind_placeless (takeName_placeless _ ts') fun ⟨name, ts₁⟩ => ?_
    exact bind_placeless (takeMark_placeless _ ts₁) fun _ => rfl
  · have other : ∀ p ts', placeless ts ≠ ⟨.word "pipeline", p⟩ :: ts' := by
      intro p ts' same
      obtain ⟨⟨l, q⟩, rest, rfl, first, -⟩ := List.map_eq_cons_iff.mp same
      cases first
      exact keyword ⟨q, rest, rfl⟩
    rw [readHeader.eq_2 _ fun p ts' h => keyword ⟨p, ts', h⟩, readHeader.eq_2 _ other]
    exact fail_placeless _ _ ts

/-- The declaration of a variable is read by its lexemes. -/
theorem readVariable_placeless (ts : List Token) :
    readVariable (placeless ts) = stripped withRest (readVariable ts) := by
  refine bind_placeless (takeWord_placeless ts) fun ⟨name, ts₁⟩ => ?_
  refine bind_placeless (takeMark_placeless _ ts₁) fun ts₂ => ?_
  have value : readValue (2 * (placeless ts₂).length) (placeless ts₂) =
      stripped withRest (readValue (2 * ts₂.length) ts₂) := by
    rw [List.length_map]
    exact readValue_placeless _ ts₂
  exact bind_placeless value fun _ => rfl

/-- Declarations are read by their lexemes. -/
theorem readVariables_placeless (bound : Nat) (declared : Fields) (ts : List Token) :
    readVariables bound declared (placeless ts) =
      stripped withRest (readVariables bound declared ts) := by
  induction bound generalizing declared ts with
  | zero => rfl
  | succ bound ih =>
    by_cases more : ∃ p ts', ts = ⟨.mark .dollar, p⟩ :: ts'
    · obtain ⟨p, ts', rfl⟩ := more
      exact bind_placeless (readVariable_placeless ts') fun ⟨⟨name, value⟩, ts₁⟩ => ih _ ts₁
    · have done : ∀ p ts', ts ≠ ⟨.mark .dollar, p⟩ :: ts' := fun p ts' h => more ⟨p, ts', h⟩
      rw [readVariables.eq_2 _ _ _ fun _ p ts' _ => done p ts',
        readVariables.eq_2 _ _ _ fun _ p ts' _ => placeless_ne_mark done p ts']
      rfl

/-- What stands in front of the steps is read by its lexemes. -/
theorem readPreamble_placeless (ts : List Token) :
    readPreamble (placeless ts) = stripped withRest (readPreamble ts) := by
  have declared (name : String) (ts : List Token) :
      (readVariables (placeless ts).length [] (placeless ts) >>= fun read =>
        .ok (({ name, vars := read.1 } : Pipeline), read.2)) =
      stripped withRest (readVariables ts.length [] ts >>= fun read =>
        .ok (({ name, vars := read.1 } : Pipeline), read.2)) := by
    rw [List.length_map]
    exact bind_placeless (readVariables_placeless _ [] ts) fun _ => rfl
  have headless := declared Pipeline.defaultName ts
  rcases ts with _ | ⟨⟨l, p⟩, ts⟩
  · rfl
  cases l with
  | mark m =>
    cases m with
    | «at» => exact bind_placeless (readHeader_placeless ts) fun ⟨name, ts₁⟩ => declared name ts₁
    | _ => exact headless
  | _ => exact headless

/-- A pipeline is read by its lexemes. -/
theorem readPipeline_placeless (unknown : UnknownTypes) (ts : List Token) :
    (readPipeline unknown (placeless ts)).result =
      stripped id (readPipeline unknown ts).result := by
  rw [readPipeline, readPipeline, readPreamble_placeless]
  cases readPreamble ts with
  | error e => rfl
  | ok read =>
    obtain ⟨start, ts₁⟩ := read
    have steps : ((readSteps unknown (placeless ts₁).length (placeless ts₁)).result.map
        fun steps => { start with steps }) =
        stripped id ((readSteps unknown ts₁.length ts₁).result.map
          fun steps => { start with steps }) := by
      rw [List.length_map, readSteps_placeless]
      cases (readSteps unknown ts₁.length ts₁).result <;> rfl
    rcases ts₁ with _ | ⟨⟨l, p⟩, ts₁⟩
    · exact steps
    cases l with
    | finish => rfl
    | _ => exact steps

/-- **Only lexemes are read.** Texts whose tokens have the same lexemes give the same pipeline, or the
same error up to the place that it names. -/
theorem parse_placeless {unknown : UnknownTypes} {text text' : String} {ts ts' : List Token}
    (scanned : tokenize text = .ok ts) (scanned' : tokenize text' = .ok ts')
    (same : ts.map Token.lexeme = ts'.map Token.lexeme) :
    (parse unknown text).mapError PipelineError.placeless =
      (parse unknown text').mapError PipelineError.placeless := by
  have result {text : String} {ts : List Token} (scanned : tokenize text = .ok ts) :
      (parse unknown text).mapError PipelineError.placeless =
        (readPipeline unknown (placeless ts)).result := by
    rw [readPipeline_placeless, parse_of_tokenize scanned]
    cases (readPipeline unknown ts).result <;> rfl
  have lexical (ts : List Token) :
      placeless ts = (ts.map Token.lexeme).map fun l => ⟨l, ⟨0, 0, 0⟩⟩ := by
    rw [List.map_map]
    rfl
  rw [result scanned, result scanned', lexical, lexical, same]

end Script

end Pipework
