import Mathlib.Data.List.Basic
import Pipework.Proofs.Script.Reading
import Pipework.Proofs.Script.Walking

/-!
# Every routine goes on

Each routine of the cursor does what the reader of the same part of the grammar does with the tokens
that are left (`Reads`), and goes to a later place whenever it gives something. On the way it looks only
where a token is, it never goes back, and none of its loops has more turns than there were tokens left
(`Goes`). So neither a look outside nor a bound that is used up ends a walk, on any tokens whose last one
is the end; that the end stands nowhere else is not needed.

The order is that of the grammar. A sequence has an invariant, which says that the rest of it reads as
the whole does (`EntriesLeft`, `ItemsLeft`, `ParamsLeft`, `VariablesLeft`, `StepsLeft`); one turn of its
loop keeps it. Values nest, and the routine for the values inside a value is a parameter of the lemmas
about objects and lists, so one induction on the bound ties the knot (`readsValues_value`).

A walk is not a machine: the stack that nested calls take is no part of it.
-/

namespace Pipework.Script.Cursor

/-! ## Readers in parts -/

/-- The arguments of a call, if there are parentheses, as the call itself reads them. -/
def readArguments : List Token → Except PipelineError (Params × List Token)
  | ⟨.mark .leftParen, _⟩ :: ts => readParams (2 * ts.length + 1) 0 [] ts
  | ts => .ok ([], ts)

/-- A call is its two names with a point between them, and then the arguments, if it has any. -/
theorem readCall_eq (ts : List Token) :
    readCall ts = (do
      let (module, ts') ← takeWord ts
      let ts' ← takeMark .dot ts'
      let (action, ts') ← takeWord ts'
      let (params, ts') ← readArguments ts'
      .ok (⟨module, (Script.current ts).position, action, params⟩, ts')) := by
  rw [readCall]
  refine congrArg (takeWord ts >>= ·) (funext fun module => ?_)
  refine congrArg (takeMark .dot module.2 >>= ·) (funext fun ts => ?_)
  refine congrArg (takeWord ts >>= ·) (funext fun action => ?_)
  simp only
  split
  next there => rw [there]; rfl
  next other => rw [readArguments.eq_2 _ other]; rfl

/-- A call and the step of it. -/
def readStep (unknown : UnknownTypes) (ts : List Token) : Except PipelineError (Step × List Token) := do
  let (call, ts) ← readCall ts
  let (_, step) ← call.toStep unknown
  .ok (step, ts)

/-- The name in the header, if there is one. -/
def readName : List Token → Except PipelineError (String × List Token)
  | ⟨.mark .at, _⟩ :: ts => readHeader ts
  | ts => .ok (Pipeline.defaultName, ts)

/-- A preamble is a name, or the one by default, and then the variables. -/
theorem readPreamble_eq (ts : List Token) :
    readPreamble ts = (do
      let (name, ts) ← readName ts
      let (vars, ts) ← readVariables ts.length [] ts
      .ok ({ name, vars }, ts)) := by
  unfold readPreamble
  split
  next => rfl
  next other => rw [readName.eq_2 _ other]

/-- Steps are one step, and behind it the end or a pipe with more of them. -/
theorem readSteps_succ_result (unknown : UnknownTypes) (b : Nat) (ts : List Token) :
    (readSteps unknown (b + 1) ts).result = (do
      let (step, ts) ← readStep unknown ts
      match ts with
      | ⟨.finish, _⟩ :: _ => .ok [step]
      | ⟨.mark .pipe, _⟩ :: ts => (readSteps unknown b ts).result.map (step :: ·)
      | ts => fail "'|' or end of input" ts) := by
  rw [readSteps]
  split
  next e failed => rw [readStep, failed]; rfl
  next call ts' called =>
  have same : readStep unknown ts = call.toStep unknown >>= fun (_, step) => .ok (step, ts') := by
    rw [readStep, called]
    rfl
  rw [same]
  split
  next e failed => rw [failed]; rfl
  next reports step made =>
  rw [made]
  rcases ts' with _ | ⟨⟨l, q⟩, ts'⟩
  · rfl
  cases l with
  | mark m => cases m <;> rfl
  | _ => rfl

/-- A pipeline is a preamble, and behind it the end or the steps. -/
theorem readPipeline_result (unknown : UnknownTypes) (ts : List Token) :
    (readPipeline unknown ts).result = (do
      let (p, ts) ← readPreamble ts
      match ts with
      | ⟨.finish, _⟩ :: _ => .ok p
      | ts => (readSteps unknown ts.length ts).result.map fun steps => { p with steps }) := by
  rw [readPipeline]
  split
  next e failed => rw [failed]; rfl
  next p ts' read =>
  rw [read]
  rcases ts' with _ | ⟨⟨l, q⟩, ts'⟩
  · rfl
  cases l <;> rfl

section

variable {tokens : List Token} {start bound b : Nat} (finished : Finished tokens)
  (inside : start < tokens.length)

/-! ## Values -/

/-- From a place on, a routine reads values. -/
def ReadsValues (tokens : List Token) (front : Nat) (value : Routine Json) : Prop :=
  ∀ place b, front ≤ place → place < tokens.length → 2 * (tokens.length - place) ≤ b →
    Reads tokens place (place + 1) value (readValue b (tokens.drop place))

section Sequences

variable {value : Routine Json}

include finished inside

/-- The rest of an object, behind these fields, reads as the whole does. -/
def EntriesLeft (tokens : List Token) (whole : Except PipelineError (Fields × List Token))
    (fields : Fields) (place : Nat) : Prop :=
  ∃ b, 2 * (tokens.length - place) < b ∧ whole = readEntries b fields (tokens.drop place)

/-- A turn of the loop in an object reads one field. It ends behind a comma or at the closing brace.
-/
theorem goes_entry {whole : Except PipelineError (Fields × List Token)} {fields : Fields}
    (values : ReadsValues tokens (start + 1) value) (left : EntriesLeft tokens whole fields start)
    (noClose : ∀ q rest, tokens.drop start ≠ ⟨.mark .rightBrace, q⟩ :: rest) :
    Goes tokens start (entry value fields)
      (fun fields later => start < later ∧ EntriesLeft tokens whole fields later) (whole = .error ·) := by
  obtain ⟨_ | b, enough, same⟩ := left
  · omega
  rw [readEntries.eq_3 _ _ _ noClose] at same
  refine (reads_name finished inside).bind same fun key place onward inside same => ?_
  refine goes_expect finished inside same fun inside same => ?_
  refine (values (place + 1) b (by omega) inside (by omega)).bind same
    fun value place onward inside same => ?_
  obtain ⟨l, q, token⟩ := exists_token inside
  simp only [token] at same
  refine .bind (goes_separator finished token ?_ ?_ ?_)
  · rintro rfl behind
    exact goes_pure behind ⟨by omega, b, by omega, same⟩
  · rintro rfl
    -- The mark is taken behind the loop; in front of it every bound but none reads the same.
    refine goes_pure inside ⟨by omega, 2 * (tokens.length - place) + 1, by omega, ?_⟩
    rw [same, token]
    rfl
  · intro noComma noClose
    rw [same]
    split
    next there => cases there; exact absurd rfl noComma
    next there => cases there; exact absurd rfl noClose
    next => rfl

/-- The loop reads the fields of an object, and ends behind the closing brace. -/
theorem reads_entries (values : ReadsValues tokens start value)
    (turns : tokens.length - start ≤ bound) (enough : 2 * (tokens.length - start) < b) :
    Reads tokens start (start + 1) (loopTo .rightBrace (entry value) bound [])
      (readEntries b [] (tokens.drop start)) := by
  refine reads_of fun whole same => ?_
  have left : EntriesLeft tokens whole [] start := ⟨b, enough, same⟩
  refine goes_loopTo finished inside turns left ?_ ?_
  · intro fields place onward inside left noClose
    exact goes_entry finished inside (fun place b later => values place b (by omega)) left noClose
  · rintro fields place q onward inside ⟨_ | b, enough, same⟩ token
    · omega
    refine ⟨by omega, ?_⟩
    rw [same, token]
    rfl

/-- An object is read if the values in it are, which begin behind its brace. -/
theorem reads_object (values : ReadsValues tokens (start + 1) value)
    (turns : tokens.length - (start + 1) ≤ bound) (enough : 2 * (tokens.length - start) ≤ b + 1) :
    Reads tokens start (start + 1) (object value bound) (do
      let ts ← takeMark .leftBrace (tokens.drop start)
      let (fields, ts) ← readEntries b [] ts
      .ok (.object fields, ts)) := by
  refine reads_of fun whole same => ?_
  refine goes_expect finished inside same fun inside same => ?_
  exact (reads_entries finished inside values turns (by omega)).bind same
    fun fields place onward inside same => goes_pure inside ⟨by omega, same⟩

/-- The rest of a list, behind these items, reads as the whole does. -/
def ItemsLeft (tokens : List Token) (whole : Except PipelineError (List Json × List Token))
    (items : List Json) (place : Nat) : Prop :=
  ∃ b, 2 * (tokens.length - place) < b ∧
    whole = readItems b (tokens.drop place) >>= fun (more, ts) => .ok (items ++ more, ts)

/-- A turn of the loop in a list reads one item. It ends behind a comma or at the closing bracket.
-/
theorem goes_item {whole : Except PipelineError (List Json × List Token)} {items : List Json}
    (values : ReadsValues tokens start value) (left : ItemsLeft tokens whole items start)
    (noClose : ∀ q rest, tokens.drop start ≠ ⟨.mark .rightBracket, q⟩ :: rest) :
    Goes tokens start (item value items)
      (fun items later => start < later ∧ ItemsLeft tokens whole items later) (whole = .error ·) := by
  obtain ⟨_ | b, enough, same⟩ := left
  · omega
  rw [readItems.eq_3 _ _ noClose, bind_assoc] at same
  refine (values start b (Nat.le_refl _) inside (by omega)).bind same
    fun value place onward inside same => ?_
  obtain ⟨l, q, token⟩ := exists_token inside
  simp only [token] at same
  refine .bind (goes_separator finished token ?_ ?_ ?_)
  · rintro rfl behind
    refine goes_pure behind ⟨by omega, b, by omega, ?_⟩
    rw [same, bind_assoc]
    refine congrArg _ (funext fun read => ?_)
    exact congrArg (fun items => Except.ok (items, read.2)) (List.append_cons items value read.1)
  · rintro rfl
    refine goes_pure inside ⟨by omega, 2 * (tokens.length - place) + 1, by omega, ?_⟩
    rw [same, token]
    exact congrArg (fun items => Except.ok (items, _)) (List.append_nil _).symm
  · intro noComma noClose
    rw [same]
    split
    next there => cases there; exact absurd rfl noComma
    next there => cases there; exact absurd rfl noClose
    next => rfl

/-- The loop reads the items of a list, and ends behind the closing bracket. -/
theorem reads_items (values : ReadsValues tokens start value)
    (turns : tokens.length - start ≤ bound) (enough : 2 * (tokens.length - start) < b) :
    Reads tokens start (start + 1) (loopTo .rightBracket (item value) bound [])
      (readItems b (tokens.drop start)) := by
  refine reads_of fun whole same => ?_
  have left : ItemsLeft tokens whole [] start := by
    refine ⟨b, enough, ?_⟩
    rw [same]
    exact (bind_pure _).symm
  refine goes_loopTo finished inside turns left ?_ ?_
  · intro items place onward inside left noClose
    exact goes_item finished inside (fun place b later => values place b (by omega)) left noClose
  · rintro items place q onward inside ⟨_ | b, enough, same⟩ token
    · omega
    refine ⟨by omega, ?_⟩
    rw [same, token]
    exact congrArg (fun items => Except.ok (items, _)) (List.append_nil _)

/-- A list is read if the values in it are, which begin behind its bracket. -/
theorem reads_list (values : ReadsValues tokens (start + 1) value)
    (turns : tokens.length - (start + 1) ≤ bound) (enough : 2 * (tokens.length - start) ≤ b + 1) :
    Reads tokens start (start + 1) (list value bound) (do
      let ts ← takeMark .leftBracket (tokens.drop start)
      let (items, ts) ← readItems b ts
      .ok (.array items, ts)) := by
  refine reads_of fun whole same => ?_
  refine goes_expect finished inside same fun inside same => ?_
  exact (reads_items finished inside values turns (by omega)).bind same
    fun items place onward inside same => goes_pure inside ⟨by omega, same⟩

end Sequences

include finished

/-- Within a bound on nesting and turns, values are read from every place with no more tokens left. -/
theorem readsValues_value (bound : Nat) :
    ReadsValues tokens (tokens.length - bound) (value bound) := by
  induction bound with
  | zero =>
    intro place b front inside enough
    omega
  | succ bound ih =>
    intro place b front inside enough
    obtain ⟨l, q, token⟩ := exists_token inside
    obtain ⟨b, rfl⟩ : ∃ b', b = b' + 1 := ⟨b - 1, by omega⟩
    -- A bracket or a brace is taken first, so the values in it begin with fewer tokens left.
    have nested : ReadsValues tokens (place + 1) (value bound) :=
      fun later b front => ih later b (by omega)
    have word := reads_word finished inside
    have object : Reads _ _ _ (object (value bound) bound) _ :=
      reads_object finished inside nested (by omega) enough
    have list : Reads _ _ _ (list (value bound) bound) _ :=
      reads_list finished inside nested (by omega) enough
    rw [token] at word object list ⊢
    refine reads_of fun whole same => .bind (goes_current token ?_)
    cases l with
    | text | number | bool =>
      refine .bind (goes_current token (.bind (goes_advance finished token (by simp) fun behind => ?_)))
      exact goes_pure behind ⟨Nat.le_refl _, same⟩
    | word name =>
      have same : whole = takeWord (⟨.word name, q⟩ :: tokens.drop (place + 1)) >>=
          fun read => .ok (wordValue read.1, read.2) := same
      exact word.bind same fun name later onward inside same => goes_pure inside ⟨onward, same⟩
    | finish => exact goes_refuse token same
    | mark m =>
      cases m with
      | dollar =>
        refine .bind (goes_advance finished token (by simp) fun behind => ?_)
        refine (reads_word finished behind).bind same fun name later onward inside same => ?_
        exact goes_pure inside ⟨by omega, same⟩
      | leftBrace =>
        subst same
        exact object
      | leftBracket =>
        subst same
        exact list
      | _ => exact goes_refuse token same

/-- A list is closed before the object in it: the walk ends at the bracket, where a key is needed. -/
example : (value 4 [⟨.mark .leftBracket, default⟩, ⟨.mark .leftBrace, default⟩,
    ⟨.mark .rightBracket, default⟩, ⟨.finish, default⟩] 0).place = 2 := by decide

/-! ## Steps -/

include inside

/-- One or two looks tell whether an argument is named, and the cursor stays where it is. Behind a word
another token stands, because a word is not the end. -/
theorem goes_isNamed {gives : Bool → Nat → Prop} {refuses : PipelineError → Prop}
    (named : ∀ key p q rest, tokens.drop start = ⟨.word key, p⟩ :: ⟨.mark .equals, q⟩ :: rest →
      gives true start)
    (other : (∀ key p q rest, tokens.drop start ≠ ⟨.word key, p⟩ :: ⟨.mark .equals, q⟩ :: rest) →
      gives false start) : Goes tokens start isNamed gives refuses := by
  obtain ⟨l, q, token⟩ := exists_token inside
  refine goes_choice token (fun word => ?_) fun noWord => goes_pure inside (other ?_)
  · obtain ⟨key, rfl⟩ := kind_eq_word.mp word
    obtain ⟨l, q', behind⟩ := exists_token (finished.behind token (by simp))
    refine .bind (goes_peek behind (goes_pure inside ?_))
    rw [token, behind] at named other
    by_cases equals : l.kind = .mark .equals
    · rw [beq_iff_eq.mpr equals]
      rw [kind_eq_mark.mp equals] at named
      exact named _ _ _ _ rfl
    · rw [beq_eq_false_iff_ne.mpr equals]
      refine other fun _ _ _ _ same => equals ?_
      cases same
      rfl
  · intro key p q rest same
    rw [token] at same
    exact noWord (kind_eq_word.mpr ⟨key, congrArg Token.lexeme (List.cons.inj same).1⟩)

/-- An argument is read, with its name or as one more without. -/
theorem reads_argument {unnamed : Nat} (turns : tokens.length - start ≤ bound)
    (enough : 2 * (tokens.length - start) ≤ b) :
    Reads tokens start (start + 1) (argument bound unnamed)
      (readParam b unnamed (tokens.drop start)) := by
  refine reads_of fun whole same => .bind (goes_isNamed finished inside ?_ ?_)
  · intro key p q rest here
    have same : whole = takeWord (tokens.drop start) >>= fun key =>
        takeMark .equals key.2 >>= fun ts =>
          readValue b ts >>= fun value => .ok ((key.1, value.1, unnamed), value.2) := by
      rw [same, here]
      rfl
    refine (reads_word finished inside).bind same fun key place onward inside same => ?_
    refine goes_expect finished inside same fun inside same => ?_
    refine (readsValues_value finished bound (place + 1) b (by omega) inside (by omega)).bind same
      fun value place onward inside same => goes_pure inside ⟨by omega, same⟩
  · intro unnamed'
    rw [readParam.eq_2 _ _ _ unnamed'] at same
    refine (readsValues_value finished bound start b (by omega) inside enough).bind same
      fun value place onward inside same => goes_pure inside ⟨onward, same⟩

/-- The rest of the arguments, behind these, reads as the whole does. -/
def ParamsLeft (tokens : List Token) (whole : Except PipelineError (Params × List Token)) :
    Params × Nat → Nat → Prop :=
  fun (params, unnamed) place => ∃ b, 2 * (tokens.length - place) < b ∧
    whole = readParams b unnamed params (tokens.drop place)

/-- A turn of the loop in a call reads one argument, and refuses a name that was given before. -/
theorem goes_param {whole : Except PipelineError (Params × List Token)} {known : Params × Nat}
    (turns : tokens.length - start ≤ bound) (left : ParamsLeft tokens whole known start)
    (noClose : ∀ q rest, tokens.drop start ≠ ⟨.mark .rightParen, q⟩ :: rest) :
    Goes tokens start (param bound known)
      (fun known later => start < later ∧ ParamsLeft tokens whole known later) (whole = .error ·) := by
  obtain ⟨params, unnamed⟩ := known
  obtain ⟨_ | b, enough, same⟩ := left
  · omega
  obtain ⟨l, q, token⟩ := exists_token inside
  rw [readParams.eq_3 _ _ _ _ noClose, current_of_token token] at same
  refine .bind (goes_current token ?_)
  refine (reads_argument finished inside turns (by omega)).bind same
    fun read place onward inside same => ?_
  simp only at same ⊢
  split
  next twice =>
    rw [if_pos twice] at same
    exact goes_stop inside same
  next once =>
  rw [if_neg once] at same
  obtain ⟨l, q, token⟩ := exists_token inside
  simp only [token] at same
  refine .bind (goes_separator finished token ?_ ?_ ?_)
  · rintro rfl behind
    exact goes_pure behind ⟨by omega, b, by omega, same⟩
  · rintro rfl
    refine goes_pure inside ⟨by omega, 2 * (tokens.length - place) + 1, by omega, ?_⟩
    rw [same, token]
    rfl
  · intro noComma noClose
    rw [same]
    split
    next there => cases there; exact absurd rfl noComma
    next there => cases there; exact absurd rfl noClose
    next => rfl

/-- The arguments of a call are read between their parentheses. -/
theorem reads_params (turns : tokens.length - start ≤ bound) :
    Reads tokens start (start + 1) (params bound) (do
      let ts ← takeMark .leftParen (tokens.drop start)
      readParams (2 * ts.length + 1) 0 [] ts) := by
  refine reads_of fun whole same => ?_
  refine goes_expect finished inside same fun inside same => ?_
  have left : ParamsLeft tokens whole ([], 0) (start + 1) := by
    refine ⟨_, ?_, same⟩
    rw [List.length_drop]
    omega
  refine .bind (goes_loopTo finished inside (by omega) left ?_ ?_)
  · intro known place onward inside left noClose
    exact goes_param finished inside (by omega) left noClose
  · rintro ⟨params, unnamed⟩ place q onward inside ⟨_ | b, enough, same⟩ token
    · omega
    refine goes_pure inside ⟨by omega, ?_⟩
    rw [same, token]
    rfl

/-- A call without parentheses has no arguments, and the cursor stays where it is. -/
theorem reads_params? (turns : tokens.length - start ≤ bound) :
    Reads tokens start start (params? bound) (readArguments (tokens.drop start)) := by
  obtain ⟨l, q, token⟩ := exists_token inside
  refine goes_choice token (fun paren => ?_) fun noParen => goes_pure inside ⟨Nat.le_refl _, ?_⟩
  · have params := reads_params finished inside turns
    rw [token, kind_eq_mark.mp paren] at params ⊢
    exact params.weaken (Nat.le_succ start)
  · exact readArguments.eq_2 _ (no_mark_of_token token noParen)

omit finished in
/-- Making a step of a call takes no token. -/
theorem reads_made {unknown : UnknownTypes} (call : Call) :
    Reads tokens start start (made unknown call)
      (call.toStep unknown >>= fun (_, step) => .ok (step, tokens.drop start)) := by
  rw [made]
  cases call.toStep unknown with
  | ok read => exact goes_pure inside ⟨Nat.le_refl _, rfl⟩
  | error e => exact goes_stop inside rfl

/-- A step is read, and the atom of its call is looked up last. -/
theorem reads_step {unknown : UnknownTypes} (turns : tokens.length - start ≤ bound) :
    Reads tokens start (start + 1) (step unknown bound) (readStep unknown (tokens.drop start)) := by
  obtain ⟨l, q, token⟩ := exists_token inside
  refine reads_of fun whole same => .bind (goes_current token ?_)
  rw [readStep, readCall_eq, current_of_token token] at same
  simp only [bind_assoc] at same
  refine (reads_word finished inside).bind same fun module place onward inside same => ?_
  refine goes_expect finished inside same fun inside same => ?_
  refine (reads_word finished inside).bind same fun action place onward inside same => ?_
  refine (reads_params? finished inside (by omega)).bind same
    fun params place onward inside same => ?_
  rw [same]
  exact (reads_made inside _).weaken (by omega)

/-! ## Pipelines -/

omit finished in
/-- One or two looks tell whether the keyword stands here, and the cursor stays where it is. -/
theorem goes_isKeyword {gives : Bool → Nat → Prop} {refuses : PipelineError → Prop}
    (keyword : ∀ q rest, tokens.drop start = ⟨.word "pipeline", q⟩ :: rest → gives true start)
    (other : (∀ q rest, tokens.drop start ≠ ⟨.word "pipeline", q⟩ :: rest) → gives false start) :
    Goes tokens start isKeyword gives refuses := by
  obtain ⟨l, q, token⟩ := exists_token inside
  refine goes_choice token (fun word => ?_) fun noWord => goes_pure inside (other ?_)
  · obtain ⟨name, rfl⟩ := kind_eq_word.mp word
    refine .bind (goes_current token (goes_pure inside ?_))
    by_cases same : name = "pipeline"
    · subst same
      exact keyword _ _ token
    · show gives (some name == some "pipeline") start
      rw [beq_eq_false_iff_ne.mpr fun found => same (Option.some.inj found)]
      refine other fun _ _ there => same ?_
      rw [token] at there
      cases there
      rfl
  · intro q rest same
    rw [token] at same
    exact noWord (kind_eq_word.mpr ⟨_, congrArg Token.lexeme (List.cons.inj same).1⟩)

/-- A header is read: the keyword, a name and a colon. -/
theorem reads_header :
    Reads tokens start (start + 1) header (takeMark .at (tokens.drop start) >>= readHeader) := by
  refine reads_of fun whole same => ?_
  refine goes_expect finished inside same fun inside same => ?_
  refine .bind (goes_isKeyword inside ?_ ?_)
  · intro q rest here
    obtain ⟨l, q', token⟩ := exists_token inside
    rw [token] at here same
    cases here
    refine .bind (goes_advance finished token (by simp) fun inside => ?_)
    refine (reads_name finished inside).bind same fun name place onward inside same => ?_
    refine goes_expect finished inside same fun inside same => ?_
    exact goes_pure inside ⟨by omega, same⟩
  · intro noKeyword
    obtain ⟨l, q, token⟩ := exists_token inside
    refine goes_refuse token ?_
    rw [same, readHeader.eq_2 _ noKeyword, token]
    rfl

/-- The declaration of a variable is read. -/
theorem reads_binding (turns : tokens.length - start ≤ bound) :
    Reads tokens start (start + 1) (binding bound)
      (takeMark .dollar (tokens.drop start) >>= readVariable) := by
  refine reads_of fun whole same => ?_
  refine goes_expect finished inside same fun inside same => ?_
  refine (reads_word finished inside).bind same fun name place onward inside same => ?_
  refine goes_expect finished inside same fun inside same => ?_
  refine (readsValues_value finished bound _ _ (by omega) inside ?_).bind same
    fun value place onward inside same => goes_pure inside ⟨by omega, same⟩
  exact Nat.le_of_eq (congrArg (2 * ·) List.length_drop.symm)

/-- The rest of the variables, behind these, reads as the whole does. -/
def VariablesLeft (tokens : List Token) (whole : Except PipelineError (Fields × List Token))
    (vars : Fields) (place : Nat) : Prop :=
  ∃ b, tokens.length - place ≤ b ∧ whole = readVariables b vars (tokens.drop place)

omit inside in
/-- A turn of the loop over the variables declares one. -/
theorem goes_declared {whole : Except PipelineError (Fields × List Token)} {vars : Fields}
    {q : Position}
    (token : tokens.drop start = ⟨.mark .dollar, q⟩ :: tokens.drop (start + 1))
    (turns : tokens.length - start ≤ bound) (left : VariablesLeft tokens whole vars start) :
    Goes tokens start (declared bound vars)
      (fun vars later => start < later ∧ VariablesLeft tokens whole vars later) (whole = .error ·) := by
  have inside := inside_of_token token
  obtain ⟨_ | b, enough, same⟩ := left
  · omega
  have same : whole = takeMark .dollar (tokens.drop start) >>= readVariable >>=
      fun read => readVariables b (vars.insert read.1.1 read.1.2) read.2 := by
    rw [same, token]
    rfl
  refine (reads_binding finished inside turns).bind same fun read place onward inside same => ?_
  exact goes_pure inside ⟨onward, b, by omega, same⟩

/-- The variables are read as far as they go; there need not be any. -/
theorem reads_variables (turns : tokens.length - start ≤ bound) :
    Reads tokens start start (loop (fun _ => check (.mark .dollar)) (declared bound) bound [])
      (readVariables (tokens.drop start).length [] (tokens.drop start)) := by
  refine reads_of fun whole same => ?_
  have left : VariablesLeft tokens whole [] start := ⟨_, Nat.le_of_eq List.length_drop.symm, same⟩
  refine goes_loop inside turns left fun vars place onward inside left => ?_
  obtain ⟨l, q, token⟩ := exists_token inside
  refine goes_check token ⟨rfl, ?_⟩
  by_cases dollar : l.kind = .mark .dollar
  · rw [if_pos (beq_iff_eq.mpr dollar)]
    rw [kind_eq_mark.mp dollar] at token
    exact goes_declared finished token (by omega) left
  · rw [if_neg fun same => dollar (beq_iff_eq.mp same)]
    obtain ⟨b, -, same⟩ := left
    refine ⟨onward, ?_⟩
    rw [same]
    exact readVariables.eq_2 _ _ _ fun b q ts _ => no_mark_of_token token dollar q ts

/-- Where no header stands the pipeline has the name by default. -/
theorem reads_header? :
    Reads tokens start start header? (readName (tokens.drop start)) := by
  obtain ⟨l, q, token⟩ := exists_token inside
  refine goes_choice token (fun headed => ?_) fun other => goes_pure inside ⟨Nat.le_refl _, ?_⟩
  · have header := reads_header finished inside
    rw [token, kind_eq_mark.mp headed] at header ⊢
    exact header.weaken (Nat.le_succ start)
  · exact readName.eq_2 _ (no_mark_of_token token other)

/-- The rest of the steps, behind these, reads as the whole does; without a pipe nothing is left. -/
def StepsLeft (unknown : UnknownTypes) (tokens : List Token)
    (whole : Except PipelineError (List Step)) : List Step × Bool → Nat → Prop
  | (steps, true), place => ∃ b, tokens.length - place ≤ b ∧
    whole = (readSteps unknown b (tokens.drop place)).result >>= fun more => .ok (steps ++ more)
  | (steps, false), _ => whole = .ok steps

/-- A turn of the loop over the steps reads one, and says whether a pipe stands behind it. -/
theorem goes_piped {unknown : UnknownTypes} {whole : Except PipelineError (List Step)}
    {steps : List Step} (turns : tokens.length - start ≤ bound)
    (left : StepsLeft unknown tokens whole (steps, true) start) :
    Goes tokens start (piped unknown bound (steps, true))
      (fun steps later => start < later ∧ StepsLeft unknown tokens whole steps later)
      (whole = .error ·) := by
  obtain ⟨_ | b, enough, same⟩ := left
  · omega
  rw [readSteps_succ_result, bind_assoc] at same
  refine (reads_step finished inside turns).bind same fun step place onward inside same => ?_
  obtain ⟨l, q, token⟩ := exists_token inside
  simp only [token] at same
  refine goes_choice token (fun pipe => ?_) fun noPipe => ?_
  · rw [kind_eq_mark.mp pipe] at token same
    have same : whole = (readSteps unknown b (tokens.drop (place + 1))).result.map (step :: ·) >>=
      fun more => .ok (steps ++ more) := same
    refine .bind (goes_advance finished token (by simp) fun inside => ?_)
    refine goes_pure inside ⟨by omega, b, by omega, ?_⟩
    rw [same]
    cases (readSteps unknown b (tokens.drop (place + 1))).result with
    | error e => rfl
    | ok more => exact congrArg Except.ok (List.append_cons steps step more)
  refine goes_choice token (fun ends => ?_) fun noEnd => goes_refuse token ?_
  · rw [kind_eq_finish.mp ends] at same
    exact goes_pure inside ⟨onward, same⟩
  · rw [same]
    split
    next there => cases there; exact absurd rfl noEnd
    next there => cases there; exact absurd rfl noPipe
    next => rfl

/-- The loop reads the steps, of which there is one at least. -/
theorem goes_steps {unknown : UnknownTypes} (turns : tokens.length - start ≤ bound) :
    Goes tokens start (steps unknown bound)
      (fun steps _ => (readSteps unknown (tokens.drop start).length (tokens.drop start)).result = .ok steps)
      ((readSteps unknown (tokens.drop start).length (tokens.drop start)).result = .error ·) := by
  generalize same : (readSteps unknown _ _).result = whole
  have left : StepsLeft unknown tokens whole ([], true) start :=
    ⟨_, Nat.le_of_eq List.length_drop.symm, by rw [same]; exact (bind_pure _).symm⟩
  refine .bind (goes_loop inside turns left fun steps place onward inside left => ?_)
  obtain ⟨steps, _ | _⟩ := steps
  · exact goes_pure inside ⟨rfl, goes_pure inside left⟩
  · exact goes_pure inside ⟨rfl, goes_piped finished inside (by omega) left⟩

/-- A pipeline is read from its header to the end. -/
theorem goes_pipeline {unknown : UnknownTypes} (turns : tokens.length - start ≤ bound) :
    Goes tokens start (pipeline unknown bound)
      (fun p _ => (readPipeline unknown (tokens.drop start)).result = .ok p)
      ((readPipeline unknown (tokens.drop start)).result = .error ·) := by
  generalize same : (readPipeline unknown (tokens.drop start)).result = whole
  rw [readPipeline_result, readPreamble_eq] at same
  simp only [bind_assoc] at same
  refine (reads_header? finished inside).bind same.symm fun name place onward inside same => ?_
  refine (reads_variables finished inside (by omega)).bind same
    fun vars place onward inside same => ?_
  obtain ⟨l, q, token⟩ := exists_token inside
  refine goes_choice token (fun ends => ?_) fun more => ?_
  · rw [token, kind_eq_finish.mp ends] at same
    exact goes_pure inside same
  · have same : whole = (readSteps unknown (tokens.drop place).length (tokens.drop place)).result.map
        fun steps => { name, vars, steps } := by
      rw [token] at same ⊢
      cases l with
      | finish => exact absurd rfl more
      | _ => exact same
    refine .bind ((goes_steps finished inside (by omega)).imp ?_ ?_)
    · intro steps place inside read
      rw [same, read]
      exact goes_pure inside rfl
    · intro e failed
      rw [same, failed]
      rfl

/-! ## All routines -/

/-- What each routine does from a place on, within a bound. -/
structure Progress (unknown : UnknownTypes) (tokens : List Token) (start bound : Nat) : Prop where
  header : Reads tokens start (start + 1) Cursor.header
    (takeMark .at (tokens.drop start) >>= readHeader)
  binding : Reads tokens start (start + 1) (Cursor.binding bound)
    (takeMark .dollar (tokens.drop start) >>= readVariable)
  step : Reads tokens start (start + 1) (Cursor.step unknown bound)
    (readStep unknown (tokens.drop start))
  params : Reads tokens start (start + 1) (Cursor.params bound)
    (takeMark .leftParen (tokens.drop start) >>= fun ts => readParams (2 * ts.length + 1) 0 [] ts)
  value : Reads tokens start (start + 1) (Cursor.value bound)
    (readValue (2 * (tokens.drop start).length) (tokens.drop start))
  object : Reads tokens start (start + 1) (Cursor.object (Cursor.value bound) bound)
    (takeMark .leftBrace (tokens.drop start) >>= fun ts =>
      readEntries (2 * (tokens.drop start).length) [] ts >>= fun (fields, ts) => .ok (.object fields, ts))
  list : Reads tokens start (start + 1) (Cursor.list (Cursor.value bound) bound)
    (takeMark .leftBracket (tokens.drop start) >>= fun ts =>
      readItems (2 * (tokens.drop start).length) ts >>= fun (items, ts) => .ok (.array items, ts))
  pipeline : Goes tokens start (Cursor.pipeline unknown bound)
    (fun p _ => (readPipeline unknown (tokens.drop start)).result = .ok p)
    ((readPipeline unknown (tokens.drop start)).result = .error ·)

end

/-- The tokens of a text end with the end. -/
theorem finished_of_tokenize {text : String} {tokens : List Token}
    (scanned : tokenize text = .ok tokens) : Finished tokens := by
  obtain ⟨body, terminated, -⟩ := scanFrom_terminated text.toList scanned
  rw [Finished, terminated, List.getLast?_concat]

/-- **Every routine goes on, and every walk ends.** Where the last of the tokens is the end, and the
bound is not less than the number of tokens left, each routine looks and moves inside the tokens only
and forwards, has no more turns in a loop than tokens were left, and gives what the reader of the same
part gives, at a later place than it began, or its error. So does the walk over the tokens of a text, and
gives the parse of the text. -/
theorem routines_progress (unknown : UnknownTypes) :
    (∀ tokens start bound, Finished tokens → start < tokens.length → tokens.length - start ≤ bound →
      Progress unknown tokens start bound) ∧
    ∀ text tokens, tokenize text = .ok tokens →
      Goes tokens 0 (pipeline unknown tokens.length) (fun p _ => parse unknown text = .ok p)
        (parse unknown text = .error ·) := by
  constructor
  · intro tokens start bound finished inside enough
    have left : (tokens.drop start).length = tokens.length - start := List.length_drop
    have values : ReadsValues tokens start (value bound) :=
      fun place b front => readsValues_value finished bound place b (by omega)
    have nested : ReadsValues tokens (start + 1) (value bound) :=
      fun place b front => values place b (by omega)
    exact {
      header := reads_header finished inside
      binding := reads_binding finished inside enough
      step := reads_step finished inside enough
      params := reads_params finished inside enough
      value := values start _ (Nat.le_refl _) inside (by omega)
      object := reads_object finished inside nested (by omega) (by omega)
      list := reads_list finished inside nested (by omega) (by omega)
      pipeline := goes_pipeline finished inside enough }
  · intro text tokens scanned
    have finished := finished_of_tokenize scanned
    rw [parse_of_tokenize scanned]
    have inside : 0 < tokens.length := by
      refine List.length_pos_of_ne_nil ?_
      rintro rfl
      cases finished
    exact goes_pipeline finished inside (Nat.sub_le _ _)

/-- The tokens of a call with a list that is closed before the object in it. -/
def misnested : List Token :=
  [⟨.word "data", ⟨0, 1, 1⟩⟩, ⟨.mark .dot, ⟨4, 1, 5⟩⟩, ⟨.word "load", ⟨5, 1, 6⟩⟩,
    ⟨.mark .leftParen, ⟨9, 1, 10⟩⟩, ⟨.mark .leftBracket, ⟨10, 1, 11⟩⟩,
    ⟨.mark .leftBrace, ⟨11, 1, 12⟩⟩, ⟨.mark .rightBracket, ⟨12, 1, 13⟩⟩, ⟨.finish, ⟨13, 1, 14⟩⟩]

/-- The walk over these tokens ends, and so does that of the value routine from the bracket on,
where four tokens are left. -/
theorem misnested_walk_ends :
    Finished misnested ∧ 4 < misnested.length ∧ misnested.length - 4 ≤ 4 ∧
      Progress .reject misnested 4 4 ∧
      tokenize "data.load([\x7b]" = .ok misnested ∧
      Goes misnested 0 (pipeline .reject misnested.length)
        (fun p _ => parse .reject "data.load([\x7b]" = .ok p)
        (parse .reject "data.load([\x7b]" = .error ·) := by
  have finished : Finished misnested := rfl
  have scanned : tokenize "data.load([\x7b]" = .ok misnested := by decide +kernel
  exact ⟨finished, by decide, by decide,
    (routines_progress .reject).1 misnested 4 4 finished (by decide) (by decide), scanned,
    (routines_progress .reject).2 _ _ scanned⟩

end Pipework.Script.Cursor
