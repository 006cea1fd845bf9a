import Pipework.Proofs.Script.Soundness
import Pipework.Proofs.Script.Tiling
import Pipework.Proofs.Script.Viable

/-!
# Strict and lenient reading

A reader that refuses unknown module names and one that gives them another type read the same way up to
the first of them. There the strict reader stops, but only when it has read the whole call; so an error
inside the call is the error of both, and every later error is one of the lenient reader alone.
-/

namespace Pipework.Script

open Script.Tree

/-! ## Errors of readers -/

/-- The error says that a token does not fit where it stands. -/
def PointsAt (t : Token) (e : PipelineError) : Prop :=
  ∃ expected found, e = .malformed expected found t.position.line t.position.column

/-- Where reading fails, the error points at one of the tokens. -/
theorem Fails.pointsAt {L : Language Lexeme} {ts : List Token} {e : PipelineError}
    (fails : Fails L ts e) : ∃ t ∈ ts, PointsAt t e := by
  cases fails with
  | @unexpected before behind t expected =>
    exact ⟨t, List.mem_append_right _ List.mem_cons_self, expected, t.describe, rfl⟩
  | @repeated before behind t found =>
    exact ⟨t, List.mem_append_right _ List.mem_cons_self, _, found, rfl⟩

theorem PointsAt.malformed {t : Token} {e : PipelineError} (points : PointsAt t e) :
    ∃ expected found line column, e = .malformed expected found line column := by
  obtain ⟨expected, found, rfl⟩ := points
  exact ⟨expected, found, _, _, rfl⟩

/-- A text that is not scanned is malformed. -/
theorem malformed_of_tokenize {text : String} {e : PipelineError} (failed : tokenize text = .error e) :
    ∃ expected found line column, e = .malformed expected found line column := by
  obtain ⟨tiles, rest, -, outcome⟩ := exists_tiled text.toList []
  rcases outcome with ⟨-, scanned⟩ | ⟨-, -, refused⟩
  · cases scanned.symm.trans failed
  · obtain rfl := Except.error.inj (refused.symm.trans failed)
    unfold refusal
    split <;> exact ⟨_, _, _, _, rfl⟩

/-! ## Calls -/

/-- A call that is read begins with its module name, is derivable, and leaves what stands behind it. -/
theorem readCall_spelled {call : Call} {ts ts₁ : List Token} (ended : Ended ts)
    (read : readCall ts = .ok (call, ts₁)) :
    ∃ arguments inside,
      let tree : Tree.Call := ⟨call.module, call.action, arguments⟩
      ts = ⟨.word call.module, call.position⟩ :: (inside ++ ts₁) ∧
      .word call.module :: lexemes inside = tree.spelling ∧ tree.params = call.params := by
  have follows := readCall_follows hasWord_behind_call noParen_behind_call ended
  obtain ⟨front, split, -⟩ := follows.taken _ read
  obtain ⟨arguments, spelled, meant, -⟩ := readCall_sound read
  obtain ⟨p, q, r, ts', first, place, -⟩ := readCall_eq_ok.mp read
  have spelling : lexemes front = Tree.Call.spelling ⟨call.module, call.action, arguments⟩ := by
    rw [split, lexemes, List.map_append] at spelled
    exact List.append_cancel_right spelled
  cases front with
  | nil => cases spelling
  | cons t inside =>
    obtain rfl : t = ⟨.word call.module, p⟩ := (List.cons.inj (split.symm.trans first)).1
    refine ⟨arguments, inside, ?_, spelling, meant⟩
    rw [place]
    exact split

/-! ## Steps -/

/-- How a strict and a lenient reading of the same tokens compare. They are alike; or the strict one
stops at the first unknown module name, where the lenient one goes on behind the call. -/
inductive Compared (ts : List Token) (strict : Except PipelineError (List Step))
    (lenient : AtomType → Except PipelineError (List Step)) : Prop
  | alike (same : ∀ type, lenient type = strict)
      (malformed : ∀ e, strict = .error e → ∃ t ∈ ts, PointsAt t e)
  | stopped {known : List Tree.Call} {call : Tree.Call} {before inside behind : List Token}
      {place : Position}
      (split : ts = before ++ ⟨.word call.module, place⟩ :: (inside ++ behind))
      (front : lexemes before = known.flatMap fun c => c.spelling ++ [.mark .pipe])
      (whole : .word call.module :: lexemes inside = call.spelling)
      (admitted : ∀ c ∈ known, (AtomType.ofName? c.module).isSome = true)
      (unknown : AtomType.ofName? call.module = none)
      (refused : strict = .error (.unknownAtomType call.module place.line place.column))
      (goesOn : ∀ type,
        (∃ steps, lenient type = .ok steps ∧ steps[known.length]? = some (call.meaning type)) ∨
        ∃ e, lenient type = .error e ∧ ∃ t ∈ behind, PointsAt t e)

/-- What is read alike under every policy compares as alike. -/
theorem Compared.of_forall {ts : List Token} {x : Except PipelineError (List Step)}
    {run : UnknownTypes → Except PipelineError (List Step)} (same : ∀ unknown, run unknown = x)
    (malformed : ∀ e, x = .error e → ∃ t ∈ ts, PointsAt t e) :
    Compared ts (run .reject) fun type => run (.substitute type) :=
  .alike (fun type => (same (.substitute type)).trans (same .reject).symm)
    fun e failed => malformed e ((same .reject).symm.trans failed)

/-- Behind a call with a known module name, only the steps behind a pipe may depend on the policy. -/
theorem readSteps_known (bound : Nat) {call : Call} {type : AtomType} {ts ts₁ : List Token}
    (read : readCall ts = .ok (call, ts₁)) (known : AtomType.ofName? call.module = some type)
    (ended : Ended ts₁) :
    (∃ p ts₂, ts₁ = ⟨.mark .pipe, p⟩ :: ts₂ ∧ ∀ unknown, (readSteps unknown (bound + 1) ts).result =
      (readSteps unknown bound ts₂).result.map
        ({ atom := ⟨type, call.action, call.params⟩ } :: ·)) ∨
    ∃ x, (∀ unknown, (readSteps unknown (bound + 1) ts).result = x) ∧
      ∀ e, x = .error e → ∃ t ∈ ts₁, PointsAt t e := by
  have made (unknown : UnknownTypes) : call.toStep unknown =
      .ok ([], { atom := ⟨type, call.action, call.params⟩ }) := by
    unfold Call.toStep
    rw [known]
  obtain ⟨l, q, ts₂, rfl⟩ := ended.exists_cons
  have refused (e : PipelineError) (failed : fail "'|' or end of input" (⟨l, q⟩ :: ts₂) =
      (.error e : Except PipelineError (List Step))) : ∃ t ∈ (⟨l, q⟩ :: ts₂ : List Token), PointsAt t e := by
    cases failed
    exact ⟨⟨l, q⟩, List.mem_cons_self, _, _, rfl⟩
  cases l with
  | finish =>
    refine .inr ⟨.ok [{ atom := ⟨type, call.action, call.params⟩ }], fun unknown => ?_, fun e failed => ?_⟩
    · rw [readSteps, read]
      simp only [made]
    · cases failed
  | mark m =>
    cases m with
    | pipe =>
      refine .inl ⟨q, ts₂, rfl, fun unknown => ?_⟩
      rw [readSteps, read]
      simp only [made]
    | _ => exact .inr ⟨_, fun unknown => by rw [readSteps, read]; simp only [made], refused⟩
  | _ => exact .inr ⟨_, fun unknown => by rw [readSteps, read]; simp only [made], refused⟩

/-- Where a type takes the place of an unknown module name, it is the type of the call's step, or an
error behind the call is reported. -/
theorem readSteps_goesOn {call : Call} {ts ts₁ : List Token} {bound : Nat} (ended : Ended ts₁)
    (enough : ts₁.length ≤ bound + 1) (read : readCall ts = .ok (call, ts₁))
    (unknown : AtomType.ofName? call.module = none) (type : AtomType) :
    (∃ steps, (readSteps (.substitute type) (bound + 1) ts).result = .ok steps ∧
        steps[0]? = some { atom := ⟨type, call.action, call.params⟩ }) ∨
      ∃ e, (readSteps (.substitute type) (bound + 1) ts).result = .error e ∧
        ∃ t ∈ ts₁, PointsAt t e := by
  have made : ∃ reports, call.toStep (.substitute type) =
      .ok (reports, { atom := ⟨type, call.action, call.params⟩ }) := by
    unfold Call.toStep
    rw [unknown]
    exact ⟨_, rfl⟩
  obtain ⟨reports, made⟩ := made
  cases outcome : (readSteps (.substitute type) (bound + 1) ts).result with
  | ok steps =>
    obtain ⟨_, _, _, step, read', made', after⟩ := readSteps_succ_eq_ok.mp outcome
    cases read.symm.trans read'
    cases made.symm.trans made'
    refine .inl ⟨steps, rfl, ?_⟩
    rcases after with ⟨-, -, -, rfl⟩ | ⟨-, -, others, -, -, rfl⟩ <;> rfl
  | error e =>
    refine .inr ⟨e, rfl, ?_⟩
    rcases readSteps_succ_eq_error.mp outcome with
      failed | ⟨_, _, read', failed | ⟨_, _, -, ⟨p, ts₂, rfl, failed⟩ | ⟨-, -, rfl⟩⟩⟩
    · cases read.symm.trans failed
    · cases read.symm.trans read'
      cases made.symm.trans failed
    · cases read.symm.trans read'
      rw [List.length_cons] at enough
      have admits : UnknownTypes.substitute type ≠ .reject := UnknownTypes.noConfusion
      have fails := readSteps_fails admits ended.tail_mark (by omega) failed
      obtain ⟨t, mem, points⟩ := fails.pointsAt
      exact ⟨t, List.mem_cons_of_mem _ mem, points⟩
    · cases read.symm.trans read'
      obtain ⟨l, q, ts₂, rfl⟩ := ended.exists_cons
      exact ⟨⟨l, q⟩, List.mem_cons_self, _, _, rfl⟩

/-- In front of the steps that compare, a call with a known module name and a pipe change nothing but
which step is the first unknown one. -/
theorem Compared.cons {tree : Tree.Call} {inside ts : List Token} {place q : Position}
    {strict : Except PipelineError (List Step)} {lenient : AtomType → Except PipelineError (List Step)}
    (step : Step) (spelled : .word tree.module :: lexemes inside = tree.spelling)
    (known : (AtomType.ofName? tree.module).isSome = true) (compared : Compared ts strict lenient) :
    Compared (⟨.word tree.module, place⟩ :: (inside ++ ⟨.mark .pipe, q⟩ :: ts))
      (strict.map (step :: ·)) fun type => (lenient type).map (step :: ·) := by
  cases compared with
  | alike same malformed =>
    refine .alike (fun type => by rw [same]) fun e failed => ?_
    obtain ⟨t, mem, points⟩ := malformed e (Outcome.map_eq_error.mp failed)
    have there := List.mem_append_right inside (List.mem_cons_of_mem (⟨.mark .pipe, q⟩ : Token) mem)
    exact ⟨t, List.mem_cons_of_mem _ there, points⟩
  | @stopped others next before inside' behind place' split front whole admitted unknown refused goesOn =>
    refine @Compared.stopped _ _ _ (tree :: others) next
      (⟨.word tree.module, place⟩ :: (inside ++ ⟨.mark .pipe, q⟩ :: before)) inside' behind place' ?_ ?_
      whole (List.forall_mem_cons.mpr ⟨known, admitted⟩) unknown (Outcome.map_eq_error.mpr refused)
      fun type => ?_
    · rw [split, List.cons_append, List.append_assoc, List.cons_append]
    · simp only [lexemes, List.map_cons, List.map_append, List.flatMap_cons] at front spelled ⊢
      rw [front, ← spelled]
      simp only [List.append_assoc, List.cons_append, List.nil_append]
    · rcases goesOn type with ⟨steps, found, here⟩ | ⟨e, failed, later⟩
      · exact .inl ⟨step :: steps, Outcome.map_eq_ok.mpr ⟨steps, found, rfl⟩, here⟩
      · exact .inr ⟨e, Outcome.map_eq_error.mpr failed, later⟩

/-- Steps are read alike up to the first unknown module name. -/
theorem readSteps_compared {bound : Nat} {ts : List Token} (ended : Ended ts)
    (enough : ts.length ≤ bound) :
    Compared ts (readSteps .reject bound ts).result
      fun type => (readSteps (.substitute type) bound ts).result := by
  induction bound generalizing ts with
  | zero =>
    obtain ⟨l, q, rest, rfl⟩ := ended.exists_cons
    cases enough
  | succ bound ih =>
    have follows := readCall_follows hasWord_behind_call noParen_behind_call ended
    cases read : readCall ts with
    | error e =>
      have failed (unknown : UnknownTypes) :
          (readSteps unknown (bound + 1) ts).result = .error e := by rw [readSteps, read]
      refine Compared.of_forall failed fun e' same => ?_
      cases same
      exact (follows.error e read).pointsAt
    | ok read' =>
    obtain ⟨call, ts₁⟩ := read'
    have ended₁ : Ended ts₁ := follows.ended read ended
    have shorter₁ : ts₁.length ≤ ts.length := follows.length_le read
    obtain ⟨arguments, inside, split, spelled, meant⟩ := readCall_spelled ended read
    cases known : AtomType.ofName? call.module with
    | none =>
      refine @Compared.stopped _ _ _ [] ⟨call.module, call.action, arguments⟩ [] inside ts₁
        call.position split rfl spelled (List.forall_mem_nil _) known ?_ fun type => ?_
      · have failed := toStep_eq_error.mpr ⟨rfl, known, rfl⟩
        exact readSteps_succ_eq_error.mpr (.inr ⟨call, ts₁, read, .inl failed⟩)
      · have step : Tree.Call.meaning type ⟨call.module, call.action, arguments⟩ =
            { atom := ⟨type, call.action, call.params⟩ } := by
          rw [Tree.Call.meaning, meant, known]
          rfl
        rw [step]
        exact readSteps_goesOn ended₁ (Nat.le_trans shorter₁ enough) read known type
    | some type =>
      rcases readSteps_known bound read known ended₁ with ⟨q, ts₂, rfl, more⟩ | ⟨x, same, malformed⟩
      · have isKnown : (AtomType.ofName? call.module).isSome = true := by
          rw [known]
          rfl
        rw [List.length_cons] at shorter₁
        simp only [more]
        rw [split]
        exact @Compared.cons ⟨call.module, call.action, arguments⟩ inside ts₂ call.position q _ _ _
          spelled isKnown (ih ended₁.tail_mark (by omega))
      · refine Compared.of_forall same fun e failed => ?_
        obtain ⟨t, mem, points⟩ := malformed e failed
        rw [split]
        exact ⟨t, List.mem_cons_of_mem _ (List.mem_append_right _ mem), points⟩

/-! ## Whole texts -/

/-- A call is the first of a script whose module name is unknown: it stands behind a header and
declarations, if there are any, and behind calls that all have known module names. Its module name is
the token at `place`, and what is behind the whole call is `behind`. -/
structure FirstUnknown (ts : List Token) (known : List Tree.Call) (call : Tree.Call) (place : Position)
    (behind : List Token) : Prop where
  unknown : AtomType.ofName? call.module = none
  admitted : ∀ c ∈ known, (AtomType.ofName? c.module).isSome = true
  stands : ∃ (header : Option Key) (vars : List (String × Value)) (before inside : List Token),
    ts = before ++ ⟨.word call.module, place⟩ :: (inside ++ behind) ∧
    lexemes before = headerSpelling header ++ vars.flatMap variableSpelling ++
      known.flatMap (fun c => c.spelling ++ [.mark .pipe]) ∧
    .word call.module :: lexemes inside = call.spelling

/-- Only the steps of a script may depend on the policy. -/
theorem readPipeline_cases {ts : List Token} (ended : Ended ts) :
    (∃ x, (∀ unknown, (readPipeline unknown ts).result = x) ∧
      ∀ e, x = .error e → ∃ t ∈ ts, PointsAt t e) ∨
    ∃ start ts₁, readPreamble ts = .ok (start, ts₁) ∧ ∀ unknown, (readPipeline unknown ts).result =
      (readSteps unknown ts₁.length ts₁).result.map fun steps => { start with steps } := by
  cases found : readPreamble ts with
  | error e =>
    refine .inl ⟨.error e, fun unknown => by rw [readPipeline, found], fun e' same => ?_⟩
    cases same
    exact ((readPreamble_follows ended).error e found).pointsAt
  | ok read =>
    obtain ⟨start, ts₁⟩ := read
    by_cases finished : ∃ q rest, ts₁ = ⟨.finish, q⟩ :: rest
    · obtain ⟨q, rest, rfl⟩ := finished
      refine .inl ⟨.ok start, fun unknown => by rw [readPipeline, found], fun e failed => ?_⟩
      cases failed
    · refine .inr ⟨start, ts₁, rfl, fun unknown => ?_⟩
      rw [readPipeline, found]
      simp only
      split
      · exact absurd ⟨_, _, rfl⟩ finished
      · rfl

/-- What is parsed alike under every policy, and malformed if it fails. -/
theorem parse_alike {text : String} {x : Except PipelineError Pipeline}
    (same : ∀ unknown, parse unknown text = x)
    (malformed : ∀ e, x = .error e →
      ∃ expected found line column, e = .malformed expected found line column) :
    (∀ type, parse (.substitute type) text = parse .reject text) ∧
      ∀ e, parse .reject text = .error e →
        ∃ expected found line column, e = .malformed expected found line column :=
  ⟨fun type => (same (.substitute type)).trans (same .reject).symm,
    fun e failed => malformed e ((same .reject).symm.trans failed)⟩

/-- A text is parsed alike under all policies, or strict parsing stops at the first unknown module name,
where a type that takes its place is the type of that step or an error behind it is reported. -/
theorem parse_compared (text : String) :
    ((∀ type, parse (.substitute type) text = parse .reject text) ∧
      ∀ e, parse .reject text = .error e →
        ∃ expected found line column, e = .malformed expected found line column) ∨
    ∃ ts known call place behind, tokenize text = .ok ts ∧ FirstUnknown ts known call place behind ∧
      parse .reject text = .error (.unknownAtomType call.module place.line place.column) ∧
      ∀ type, (∃ p, parse (.substitute type) text = .ok p ∧
          p.steps[known.length]? = some (call.meaning type)) ∨
        ∃ e, parse (.substitute type) text = .error e ∧ ∃ t ∈ behind, PointsAt t e := by
  cases scanned : tokenize text with
  | error e =>
    have failed (unknown : UnknownTypes) : parse unknown text = .error e := by
      rw [parse, read, scanned]
    refine .inl (parse_alike failed fun e' same => ?_)
    cases same
    exact malformed_of_tokenize scanned
  | ok ts =>
  have ended := ended_of_tokenize scanned
  rcases readPipeline_cases ended with ⟨x, same, malformed⟩ | ⟨start, ts₁, found, more⟩
  · have parsed (unknown : UnknownTypes) : parse unknown text = x :=
      (parse_of_tokenize scanned).trans (same unknown)
    refine .inl (parse_alike parsed fun e failed => ?_)
    obtain ⟨t, -, points⟩ := malformed e failed
    exact points.malformed
  have preamble := readPreamble_follows ended
  have ended₁ : Ended ts₁ := preamble.ended found ended
  simp only [parse_of_tokenize scanned, more]
  cases readSteps_compared ended₁ (Nat.le_refl _) with
  | alike same malformed =>
    refine .inl ⟨fun type => by rw [same], fun e failed => ?_⟩
    obtain ⟨t, -, points⟩ := malformed e (Outcome.map_eq_error.mp failed)
    exact points.malformed
  | @stopped known call before inside behind place split front whole admitted unknown refused goesOn =>
    obtain ⟨header, vars, spelled, -⟩ := readPreamble_sound found
    obtain ⟨front', split', -⟩ := preamble.taken _ found
    have spelled' : lexemes front' = headerSpelling header ++ vars.flatMap variableSpelling := by
      rw [split', lexemes, List.map_append] at spelled
      exact List.append_cancel_right spelled
    refine .inr ⟨ts, known, call, place, behind, rfl, ⟨unknown, admitted, header, vars,
      front' ++ before, inside, ?_, ?_, whole⟩, Outcome.map_eq_error.mpr refused, fun type => ?_⟩
    · rw [split', List.append_assoc]
      exact congrArg (front' ++ ·) split
    · rw [← spelled', ← front, lexemes, List.map_append]
    · rcases goesOn type with ⟨steps, made, here⟩ | ⟨e, failed, later⟩
      · exact .inl ⟨_, Outcome.map_eq_ok.mpr ⟨steps, made, rfl⟩, here⟩
      · exact .inr ⟨e, Outcome.map_eq_error.mpr failed, later⟩

/-- **Strict and fallback parsing agree except on unknown modules.** What strict parsing gives, parsing
with any fallback type gives; where it is malformed, so is it for every fallback type, with the same
error. Otherwise the error names the first unknown module name and where it stands, and every fallback
parse gives that step the fallback type, or fails at a later place. What two different fallback types
agree on, strict parsing gives. -/
theorem strict_and_fallback_agree (text : String) :
    (∀ p, parse .reject text = .ok p → ∀ type, parse (.substitute type) text = .ok p) ∧
    (∀ expected found line column,
      parse .reject text = .error (.malformed expected found line column) →
        ∀ type, parse (.substitute type) text = .error (.malformed expected found line column)) ∧
    (∀ e, parse .reject text = .error e →
      (∃ expected found line column, e = .malformed expected found line column) ∨
      ∃ ts known call place behind, tokenize text = .ok ts ∧ FirstUnknown ts known call place behind ∧
        e = .unknownAtomType call.module place.line place.column ∧
        ∀ type, (∃ p step, parse (.substitute type) text = .ok p ∧ p.steps[known.length]? = some step ∧
            step.atom = ⟨type, call.action, call.params⟩) ∨
          ∃ expected found later, parse (.substitute type) text =
            .error (.malformed expected found later.line later.column) ∧ place.Before later) ∧
    ∀ type type' p, type ≠ type' → parse (.substitute type) text = .ok p →
      parse (.substitute type') text = .ok p → parse .reject text = .ok p := by
  rcases parse_compared text with ⟨same, malformed⟩ |
    ⟨ts, known, call, place, behind, scanned, first, refused, goesOn⟩
  · refine ⟨fun p parsed type => (same type).trans parsed,
      fun _ _ _ _ failed type => (same type).trans failed, fun e failed => .inl (malformed e failed),
      fun type _ p _ parsed _ => (same type).symm.trans parsed⟩
  · have meaning (type : AtomType) : call.meaning type =
        { atom := ⟨type, call.action, call.params⟩ } := by
      rw [Tree.Call.meaning, first.unknown]
      rfl
    refine ⟨fun p parsed => ?_, fun _ _ _ _ failed => ?_, fun e failed => .inr ?_, ?_⟩
    · cases refused.symm.trans parsed
    · cases refused.symm.trans failed
    · cases refused.symm.trans failed
      refine ⟨ts, known, call, place, behind, scanned, first, rfl, fun type => ?_⟩
      rcases goesOn type with ⟨p, parsed, here⟩ | ⟨e, failed, t, mem, expected, found, rfl⟩
      · exact .inl ⟨p, _, parsed, here, by rw [meaning]⟩
      · refine .inr ⟨expected, found, t.position, failed, ?_⟩
        obtain ⟨-, -, before, inside, rfl, -, -⟩ := first.stands
        have ascending := (List.pairwise_append.mp (tokenize_ascending scanned)).2.1
        exact (List.pairwise_cons.mp ascending).1 t (List.mem_append_right _ mem)
    · intro type type' p other parsed parsed'
      rcases goesOn type with ⟨q, given, here⟩ | ⟨e, failed, -⟩
      · rcases goesOn type' with ⟨q', given', here'⟩ | ⟨e, failed, -⟩
        · cases parsed.symm.trans given
          cases parsed'.symm.trans given'
          have steps := Option.some.inj (here.symm.trans here')
          rw [meaning, meaning] at steps
          cases steps
          exact absurd rfl other
        · cases parsed'.symm.trans failed
      · cases parsed.symm.trans failed

/-- A second call with an unknown module name, read strictly and with any other type in its place. -/
theorem second_call_is_refused :
    parse .reject "data.load() | warehouse.load(1)" =
        .error (.unknownAtomType "warehouse" 1 15) ∧
      ∃ ts known call place behind, tokenize "data.load() | warehouse.load(1)" = .ok ts ∧
        FirstUnknown ts known call place behind ∧ call.module = "warehouse" ∧ place.line = 1 ∧
        place.column = 15 ∧
        ∀ type, (∃ p step, parse (.substitute type) "data.load() | warehouse.load(1)" = .ok p ∧
            p.steps[known.length]? = some step ∧ step.atom = ⟨type, call.action, call.params⟩) ∨
          ∃ expected found later, parse (.substitute type) "data.load() | warehouse.load(1)" =
            .error (.malformed expected found later.line later.column) ∧ place.Before later := by
  have refused : parse .reject "data.load() | warehouse.load(1)" =
      .error (.unknownAtomType "warehouse" 1 15) := by decide +kernel
  rcases (strict_and_fallback_agree _).2.2.1 _ refused with
    ⟨_, _, _, _, same⟩ | ⟨ts, known, call, place, behind, scanned, first, same, goesOn⟩
  · cases same
  · obtain ⟨name, line, column⟩ := PipelineError.unknownAtomType.inj same
    exact ⟨refused, ts, known, call, place, behind, scanned, first, name.symm, line.symm, column.symm,
      goesOn⟩

end Pipework.Script
