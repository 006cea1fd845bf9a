import Pipework.Proofs.Outcome
import Pipework.Proofs.Script.Tree

/-!
# What a reader's success says

One lemma for each reader of `Pipework.Script.Parse`: it says exactly when the reader succeeds,
in terms of the tokens it takes and of the readers it calls. Later proofs about reading open no
reader; they go by these.

A part of a sequence is followed by a comma, behind which the sequence goes on, or by the mark that
closes the sequence. The three lemmas about sequences end in these two cases.
-/

namespace Pipework.Script

/-! ## Single tokens -/

/-- A reader that reports a token that does not fit gives nothing. -/
theorem fail_ne_ok {α : Type} {expected : String} {ts : List Token} {a : α} :
    fail expected ts ≠ .ok a := by
  intro h
  cases h

/-- A mark is taken when it comes next. -/
theorem takeMark_eq_ok {m : Mark} {ts rest : List Token} :
    takeMark m ts = .ok rest ↔ ∃ p, ts = ⟨.mark m, p⟩ :: rest := by
  rcases ts with _ | ⟨⟨l, p⟩, ts⟩
  · simp [takeMark, fail]
  · by_cases h : l = .mark m
    · simp [takeMark, h]
    · simp [takeMark, h, fail]

/-- A word is taken when one comes next. -/
theorem takeWord_eq_ok {name : String} {ts rest : List Token} :
    takeWord ts = .ok (name, rest) ↔ ∃ p, ts = ⟨.word name, p⟩ :: rest := by
  rcases ts with _ | ⟨⟨l, p⟩, ts⟩
  · simp [takeWord, fail]
  · cases l <;> simp [takeWord, fail]

/-- A name is taken when a word or a text comes next. -/
theorem takeName_eq_ok {expected name : String} {ts rest : List Token} :
    takeName expected ts = .ok (name, rest) ↔
      ∃ (key : Tree.Key) (p : Position), ts = ⟨key.lexeme, p⟩ :: rest ∧ key.name = name := by
  constructor
  · intro h
    rcases ts with _ | ⟨⟨l, p⟩, ts⟩
    · exact absurd h fail_ne_ok
    · cases l with
      | word _ => cases h; exact ⟨.word _, p, rfl, rfl⟩
      | text _ => cases h; exact ⟨.text _, p, rfl, rfl⟩
      | _ => exact absurd h fail_ne_ok
  · rintro ⟨key, p, rfl, rfl⟩
    cases key <;> rfl

/-! ## Values -/

/-- No value begins with a mark that opens nothing and refers to nothing. -/
theorem readValue_mark_ne_ok {bound : Nat} {m : Mark} {p : Position} {ts : List Token}
    {out : Json × List Token} (brace : m ≠ .leftBrace) (bracket : m ≠ .leftBracket)
    (dollar : m ≠ .dollar) : readValue bound (⟨.mark m, p⟩ :: ts) ≠ .ok out := by
  cases bound with
  | zero => exact fail_ne_ok
  | succ bound =>
    cases m with
    | leftBrace => exact absurd rfl brace
    | leftBracket => exact absurd rfl bracket
    | dollar => exact absurd rfl dollar
    | _ => exact fail_ne_ok

/-- The entries of an object end at once, or the first of them is read and the others after it. -/
theorem readEntries_succ_eq_ok {bound : Nat} {fields out : Fields} {ts rest : List Token} :
    readEntries (bound + 1) fields ts = .ok (out, rest) ↔
      (∃ p, ts = ⟨.mark .rightBrace, p⟩ :: rest ∧ out = fields) ∨
      ∃ name ts₁ ts₂ value ts₃, takeName "object key" ts = .ok (name, ts₁) ∧
        takeMark .colon ts₁ = .ok ts₂ ∧ readValue bound ts₂ = .ok (value, ts₃) ∧
        ((∃ p ts₄, ts₃ = ⟨.mark .comma, p⟩ :: ts₄ ∧
            readEntries bound (fields.insert name value) ts₄ = .ok (out, rest)) ∨
          ∃ p, ts₃ = ⟨.mark .rightBrace, p⟩ :: rest ∧ out = fields.insert name value) := by
  by_cases closed : ∃ p ts', ts = ⟨.mark .rightBrace, p⟩ :: ts'
  · obtain ⟨p, ts', rfl⟩ := closed
    constructor
    · intro h
      cases h
      exact .inl ⟨p, rfl, rfl⟩
    · rintro (⟨_, h, rfl⟩ | ⟨_, _, _, _, _, name, _⟩)
      · cases h
        rfl
      · exact absurd name fail_ne_ok
  · rw [readEntries.eq_3 _ _ _ fun p ts' h => closed ⟨p, ts', h⟩]
    simp only [Outcome.bind_eq_ok, Prod.exists]
    constructor
    · rintro ⟨name, ts₁, hname, ts₂, colon, value, ts₃, hvalue, h⟩
      refine .inr ⟨name, ts₁, ts₂, value, ts₃, hname, colon, hvalue, ?_⟩
      split at h
      · exact .inl ⟨_, _, rfl, h⟩
      · cases h
        exact .inr ⟨_, rfl, rfl⟩
      · exact absurd h fail_ne_ok
    · rintro (⟨p, rfl, _⟩ | ⟨name, ts₁, ts₂, value, ts₃, hname, colon, hvalue, after⟩)
      · exact absurd ⟨p, rest, rfl⟩ closed
      · refine ⟨name, ts₁, hname, ts₂, colon, value, ts₃, hvalue, ?_⟩
        rcases after with ⟨p, ts₄, rfl, h⟩ | ⟨p, rfl, rfl⟩
        · exact h
        · rfl

/-- The items of a list end at once, or the first of them is read and the others after it. -/
theorem readItems_succ_eq_ok {bound : Nat} {items : List Json} {ts rest : List Token} :
    readItems (bound + 1) ts = .ok (items, rest) ↔
      (∃ p, ts = ⟨.mark .rightBracket, p⟩ :: rest ∧ items = []) ∨
      ∃ item ts₁, readValue bound ts = .ok (item, ts₁) ∧
        ((∃ p ts₂ others, ts₁ = ⟨.mark .comma, p⟩ :: ts₂ ∧
            readItems bound ts₂ = .ok (others, rest) ∧ items = item :: others) ∨
          ∃ p, ts₁ = ⟨.mark .rightBracket, p⟩ :: rest ∧ items = [item]) := by
  by_cases closed : ∃ p ts', ts = ⟨.mark .rightBracket, p⟩ :: ts'
  · obtain ⟨p, ts', rfl⟩ := closed
    constructor
    · intro h
      cases h
      exact .inl ⟨p, rfl, rfl⟩
    · rintro (⟨_, h, rfl⟩ | ⟨_, _, item, _⟩)
      · cases h
        rfl
      · exact absurd item (readValue_mark_ne_ok nofun nofun nofun)
  · rw [readItems.eq_3 _ _ fun p ts' h => closed ⟨p, ts', h⟩]
    simp only [Outcome.bind_eq_ok, Prod.exists]
    constructor
    · rintro ⟨item, ts₁, hitem, h⟩
      refine .inr ⟨item, ts₁, hitem, ?_⟩
      split at h
      · obtain ⟨⟨others, _⟩, hothers, h⟩ := Outcome.bind_eq_ok.mp h
        cases h
        exact .inl ⟨_, _, others, rfl, hothers, rfl⟩
      · cases h
        exact .inr ⟨_, rfl, rfl⟩
      · exact absurd h fail_ne_ok
    · rintro (⟨p, rfl, _⟩ | ⟨item, ts₁, hitem, after⟩)
      · exact absurd ⟨p, rest, rfl⟩ closed
      · refine ⟨item, ts₁, hitem, ?_⟩
        rcases after with ⟨p, ts₂, others, rfl, hothers, rfl⟩ | ⟨p, rfl, rfl⟩
        · exact Outcome.bind_eq_ok.mpr ⟨_, hothers, rfl⟩
        · rfl

/-! ## Calls -/

/-- Do the tokens begin with a name and an equals sign? -/
def BeginsNamed (ts : List Token) : Prop :=
  ∃ name p q ts', ts = ⟨.word name, p⟩ :: ⟨.mark .equals, q⟩ :: ts'

/-- An argument is named when a word and an equals sign come next; otherwise it is counted. -/
theorem readParam_eq_ok {bound unnamed following : Nat} {key : String} {value : Json}
    {ts rest : List Token} :
    readParam bound unnamed ts = .ok ((key, value, following), rest) ↔
      (∃ p q ts', ts = ⟨.word key, p⟩ :: ⟨.mark .equals, q⟩ :: ts' ∧
        readValue bound ts' = .ok (value, rest) ∧ following = unnamed) ∨
      (¬ BeginsNamed ts ∧ readValue bound ts = .ok (value, rest) ∧
        key = positionalKey unnamed ∧ following = unnamed + 1) := by
  by_cases named : BeginsNamed ts
  · obtain ⟨name, p, q, ts', rfl⟩ := named
    simp only [readParam, Outcome.bind_eq_ok, Prod.exists]
    constructor
    · rintro ⟨value, ts₁, hvalue, h⟩
      cases h
      exact .inl ⟨p, q, ts', rfl, hvalue, rfl⟩
    · rintro (⟨_, _, _, h, hvalue, rfl⟩ | ⟨unnamed, _⟩)
      · cases h
        exact ⟨value, rest, hvalue, rfl⟩
      · exact absurd ⟨name, p, q, ts', rfl⟩ unnamed
  · rw [readParam.eq_2 _ _ _ fun name p q ts' h => named ⟨name, p, q, ts', h⟩]
    simp only [Outcome.bind_eq_ok, Prod.exists]
    constructor
    · rintro ⟨value, ts₁, hvalue, h⟩
      cases h
      exact .inr ⟨named, hvalue, rfl, rfl⟩
    · rintro (⟨p, q, ts', rfl, _⟩ | ⟨_, hvalue, rfl, rfl⟩)
      · exact absurd ⟨_, p, q, ts', rfl⟩ named
      · exact ⟨value, rest, hvalue, rfl⟩

/-- The arguments of a call end at once, or the first of them is read under a key that is not yet
there, and the others after it. -/
theorem readParams_succ_eq_ok {bound unnamed : Nat} {params out : Params} {ts rest : List Token} :
    readParams (bound + 1) unnamed params ts = .ok (out, rest) ↔
      (∃ p, ts = ⟨.mark .rightParen, p⟩ :: rest ∧ out = params) ∨
      ∃ key value following ts₁, readParam bound unnamed ts = .ok ((key, value, following), ts₁) ∧
        Fields.contains params key = false ∧
        ((∃ p ts₂, ts₁ = ⟨.mark .comma, p⟩ :: ts₂ ∧
            readParams bound following (Fields.insert params key value) ts₂ = .ok (out, rest)) ∨
          ∃ p, ts₁ = ⟨.mark .rightParen, p⟩ :: rest ∧ out = Fields.insert params key value) := by
  by_cases closed : ∃ p ts', ts = ⟨.mark .rightParen, p⟩ :: ts'
  · obtain ⟨p, ts', rfl⟩ := closed
    constructor
    · intro h
      cases h
      exact .inl ⟨p, rfl, rfl⟩
    · rintro (⟨_, h, rfl⟩ | ⟨_, _, _, _, param, _⟩)
      · cases h
        rfl
      · rcases readParam_eq_ok.mp param with ⟨_, _, _, h, _⟩ | ⟨_, value, _⟩
        · cases h
        · exact absurd value (readValue_mark_ne_ok nofun nofun nofun)
  · rw [readParams.eq_3 _ _ _ _ fun p ts' h => closed ⟨p, ts', h⟩]
    simp only [Outcome.bind_eq_ok, Prod.exists]
    constructor
    · rintro ⟨key, value, following, ts₁, param, h⟩
      split at h
      · cases h
      next fresh =>
        refine .inr ⟨key, value, following, ts₁, param, Bool.eq_false_iff.mpr fresh, ?_⟩
        split at h
        · exact .inl ⟨_, _, rfl, h⟩
        · cases h
          exact .inr ⟨_, rfl, rfl⟩
        · exact absurd h fail_ne_ok
    · rintro (⟨p, rfl, _⟩ | ⟨key, value, following, ts₁, param, fresh, after⟩)
      · exact absurd ⟨p, rest, rfl⟩ closed
      · refine ⟨key, value, following, ts₁, param, ?_⟩
        simp only [fresh, Bool.false_eq_true, ↓reduceIte]
        rcases after with ⟨p, ts₂, rfl, h⟩ | ⟨p, rfl, rfl⟩
        · exact h
        · rfl

/-- A call is a word, a dot, a word, and its arguments if a parenthesis comes next. -/
theorem readCall_eq_ok {call : Call} {ts rest : List Token} :
    readCall ts = .ok (call, rest) ↔
      ∃ p q r ts', ts = ⟨.word call.module, p⟩ :: ⟨.mark .dot, q⟩ :: ⟨.word call.action, r⟩ :: ts' ∧
        call.position = p ∧
        ((∃ s ts₁, ts' = ⟨.mark .leftParen, s⟩ :: ts₁ ∧
            readParams (2 * ts₁.length + 1) 0 [] ts₁ = .ok (call.params, rest)) ∨
          ((∀ s ts₁, ts' ≠ ⟨.mark .leftParen, s⟩ :: ts₁) ∧ call.params = [] ∧ rest = ts')) := by
  simp only [readCall, Outcome.bind_eq_ok, Prod.exists, takeWord_eq_ok, takeMark_eq_ok]
  constructor
  · rintro ⟨module, _, ⟨p, rfl⟩, _, ⟨q, rfl⟩, action, ts', ⟨r, rfl⟩, h⟩
    split at h
    · simp only [Outcome.bind_eq_ok, Prod.exists] at h
      obtain ⟨params, _, hparams, h⟩ := h
      cases h
      exact ⟨p, q, r, _, rfl, rfl, .inl ⟨_, _, rfl, hparams⟩⟩
    · cases h
      exact ⟨p, q, r, _, rfl, rfl, .inr ⟨‹_›, rfl, rfl⟩⟩
  · obtain ⟨module, position, action, params⟩ := call
    rintro ⟨p, q, r, ts', rfl, rfl, after⟩
    refine ⟨module, _, ⟨_, rfl⟩, _, ⟨q, rfl⟩, action, ts', ⟨r, rfl⟩, ?_⟩
    rcases after with ⟨s, ts₁, rfl, h⟩ | ⟨bare, rfl, rfl⟩
    · simp only [Outcome.bind_eq_ok, Prod.exists]
      exact ⟨_, _, h, rfl⟩
    · split
      · exact absurd rfl (bare _ _)
      · rfl

/-- Steps are a call, and then either the end or a pipe and more steps. -/
theorem readSteps_succ_eq_ok {unknown : UnknownTypes} {bound : Nat} {steps : List Step}
    {ts : List Token} :
    (readSteps unknown (bound + 1) ts).result = .ok steps ↔
      ∃ call ts₁ reports step, readCall ts = .ok (call, ts₁) ∧
        call.toStep unknown = .ok (reports, step) ∧
        ((∃ p ts₂, ts₁ = ⟨.finish, p⟩ :: ts₂ ∧ steps = [step]) ∨
          ∃ p ts₂ others, ts₁ = ⟨.mark .pipe, p⟩ :: ts₂ ∧
            (readSteps unknown bound ts₂).result = .ok others ∧ steps = step :: others) := by
  constructor
  · intro h
    rw [readSteps] at h
    split at h
    · cases h
    next call ts₁ hcall =>
      split at h
      · cases h
      next reports step hstep =>
        refine ⟨call, ts₁, reports, step, hcall, hstep, ?_⟩
        split at h
        · cases h
          exact .inl ⟨_, _, rfl, rfl⟩
        · obtain ⟨others, hothers, rfl⟩ := Outcome.map_eq_ok.mp h
          exact .inr ⟨_, _, others, rfl, hothers, rfl⟩
        · exact absurd h fail_ne_ok
  · rintro ⟨call, ts₁, reports, step, hcall, hstep, after⟩
    rw [readSteps, hcall]
    simp only [hstep]
    rcases after with ⟨p, ts₂, rfl, rfl⟩ | ⟨p, ts₂, others, rfl, hothers, rfl⟩
    · rfl
    · exact Outcome.map_eq_ok.mpr ⟨others, hothers, rfl⟩

/-! ## Everything before the steps -/

/-- A header is the word `pipeline`, a name and a colon. -/
theorem readHeader_eq_ok {name : String} {ts rest : List Token} :
    readHeader ts = .ok (name, rest) ↔
      ∃ (key : Tree.Key) (p q r : Position),
        ts = ⟨.word "pipeline", p⟩ :: ⟨key.lexeme, q⟩ :: ⟨.mark .colon, r⟩ :: rest ∧
        key.name = name := by
  constructor
  · intro h
    unfold readHeader at h
    split at h
    · simp only [Outcome.bind_eq_ok, Prod.exists, takeName_eq_ok, takeMark_eq_ok] at h
      obtain ⟨_, _, ⟨key, q, rfl, rfl⟩, _, ⟨r, rfl⟩, h⟩ := h
      cases h
      exact ⟨key, _, q, r, rfl, rfl⟩
    · exact absurd h fail_ne_ok
  · rintro ⟨key, p, q, r, rfl, rfl⟩
    cases key <;> rfl

/-- A declaration is a word, an equals sign and a value. -/
theorem readVariable_eq_ok {name : String} {value : Json} {ts rest : List Token} :
    readVariable ts = .ok ((name, value), rest) ↔
      ∃ p q ts', ts = ⟨.word name, p⟩ :: ⟨.mark .equals, q⟩ :: ts' ∧
        readValue (2 * ts'.length) ts' = .ok (value, rest) := by
  simp only [readVariable, Outcome.bind_eq_ok, Prod.exists, takeWord_eq_ok, takeMark_eq_ok]
  constructor
  · rintro ⟨name, _, ⟨p, rfl⟩, ts', ⟨q, rfl⟩, value, _, hvalue, h⟩
    cases h
    exact ⟨p, q, ts', rfl, hvalue⟩
  · rintro ⟨p, q, ts', rfl, hvalue⟩
    exact ⟨name, _, ⟨p, rfl⟩, ts', ⟨q, rfl⟩, value, rest, hvalue, rfl⟩

/-- Declarations are read as long as a dollar sign comes next. -/
theorem readVariables_succ_eq_ok {bound : Nat} {declared out : Fields} {ts rest : List Token} :
    readVariables (bound + 1) declared ts = .ok (out, rest) ↔
      (∃ p ts₁ name value ts₂, ts = ⟨.mark .dollar, p⟩ :: ts₁ ∧
        readVariable ts₁ = .ok ((name, value), ts₂) ∧
        readVariables bound (declared.insert name value) ts₂ = .ok (out, rest)) ∨
      ((∀ p ts₁, ts ≠ ⟨.mark .dollar, p⟩ :: ts₁) ∧ out = declared ∧ rest = ts) := by
  by_cases more : ∃ p ts₁, ts = ⟨.mark .dollar, p⟩ :: ts₁
  · obtain ⟨p, ts₁, rfl⟩ := more
    simp only [readVariables, Outcome.bind_eq_ok, Prod.exists]
    constructor
    · rintro ⟨name, value, ts₂, hvariable, h⟩
      exact .inl ⟨p, ts₁, name, value, ts₂, rfl, hvariable, h⟩
    · rintro (⟨_, _, name, value, ts₂, h, hvariable, hmore⟩ | ⟨none, _⟩)
      · cases h
        exact ⟨name, value, ts₂, hvariable, hmore⟩
      · exact absurd rfl (none p ts₁)
  · rw [readVariables.eq_2 _ _ _ fun _ p ts₁ _ h => more ⟨p, ts₁, h⟩]
    constructor
    · intro h
      cases h
      exact .inr ⟨fun p ts₁ h => more ⟨p, ts₁, h⟩, rfl, rfl⟩
    · rintro (⟨p, ts₁, _, _, _, rfl, _⟩ | ⟨_, rfl, rfl⟩)
      · exact absurd ⟨p, ts₁, rfl⟩ more
      · rfl

/-- Before the first step come a header, if there is an at sign, and the declarations. -/
theorem readPreamble_eq_ok {p : Pipeline} {ts rest : List Token} :
    readPreamble ts = .ok (p, rest) ↔
      ∃ name ts₁ vars,
        ((∃ q ts', ts = ⟨.mark .at, q⟩ :: ts' ∧ readHeader ts' = .ok (name, ts₁)) ∨
          ((∀ q ts', ts ≠ ⟨.mark .at, q⟩ :: ts') ∧ name = Pipeline.defaultName ∧ ts₁ = ts)) ∧
        readVariables ts₁.length [] ts₁ = .ok (vars, rest) ∧ p = { name, vars } := by
  by_cases headed : ∃ q ts', ts = ⟨.mark .at, q⟩ :: ts'
  · obtain ⟨q, ts', rfl⟩ := headed
    simp only [readPreamble, Outcome.bind_eq_ok, Prod.exists]
    constructor
    · rintro ⟨name, ts₁, hname, vars, _, hvars, h⟩
      cases h
      exact ⟨name, ts₁, vars, .inl ⟨q, ts', rfl, hname⟩, hvars, rfl⟩
    · rintro ⟨name, ts₁, vars, ⟨_, _, h, hname⟩ | ⟨none, _⟩, hvars, rfl⟩
      · cases h
        exact ⟨name, ts₁, hname, vars, rest, hvars, rfl⟩
      · exact absurd rfl (none q ts')
  · unfold readPreamble
    split
    · exact absurd ⟨_, _, rfl⟩ headed
    simp only [Outcome.bind_eq_ok, Prod.exists]
    constructor
    · rintro ⟨name, ts₁, hname, vars, _, hvars, h⟩
      cases hname
      cases h
      exact ⟨_, ts, vars, .inr ⟨fun q ts' h => headed ⟨q, ts', h⟩, rfl, rfl⟩, hvars, rfl⟩
    · rintro ⟨_, ts₁, vars, ⟨q, ts', h, _⟩ | ⟨_, rfl, rfl⟩, hvars, rfl⟩
      · exact absurd ⟨q, ts', h⟩ headed
      · exact ⟨_, ts₁, rfl, vars, rest, hvars, rfl⟩

/-- A pipeline is what comes before the steps, and then the end or the steps. -/
theorem readPipeline_eq_ok {unknown : UnknownTypes} {p : Pipeline} {ts : List Token} :
    (readPipeline unknown ts).result = .ok p ↔
      ∃ start ts₁, readPreamble ts = .ok (start, ts₁) ∧
        ((∃ q ts₂, ts₁ = ⟨.finish, q⟩ :: ts₂ ∧ p = start) ∨
          ((∀ q ts₂, ts₁ ≠ ⟨.finish, q⟩ :: ts₂) ∧ ∃ steps,
            (readSteps unknown ts₁.length ts₁).result = .ok steps ∧ p = { start with steps })) := by
  constructor
  · intro h
    unfold readPipeline at h
    split at h
    · cases h
    next start ts₁ hpreamble =>
      refine ⟨start, ts₁, hpreamble, ?_⟩
      split at h
      · cases h
        exact .inl ⟨_, _, rfl, rfl⟩
      next more =>
        obtain ⟨steps, hsteps, rfl⟩ := Outcome.map_eq_ok.mp h
        exact .inr ⟨more, steps, hsteps, rfl⟩
  · rintro ⟨start, ts₁, hpreamble, after⟩
    rw [readPipeline, hpreamble]
    rcases after with ⟨q, ts₂, rfl, rfl⟩ | ⟨more, steps, hsteps, rfl⟩
    · rfl
    · simp only
      exact Outcome.map_eq_ok.mpr ⟨steps, hsteps, rfl⟩

/-- Where a text is scanned, its parse is the pipeline of its tokens. -/
theorem parse_of_tokenize {unknown : UnknownTypes} {text : String} {ts : List Token}
    (scanned : tokenize text = .ok ts) : parse unknown text = (readPipeline unknown ts).result := by
  rw [parse, read, scanned]
  simp only
  split
  next p found => exact found.symm
  next e failed => exact failed.symm

end Pipework.Script
