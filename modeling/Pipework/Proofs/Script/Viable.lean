import Mathlib.Computability.Language
import Pipework.Proofs.Script.Following
import Pipework.Proofs.Script.Places
import Pipework.Proofs.Script.Reading

/-!
# Errors name the first token that does not fit

Every reader follows the grammar: it takes a token only if some script goes on with it, and refuses the
first with which none does (`readValue_follows` and its likes). What is left of a script when a reader
is called is a word of the reader's own language with any language `K` behind it, which need only have a
word; a reader that looks for a mark behind what it has read needs to know that no word of `K` begins
with that mark.

The readers of values, arguments and steps carry a bound. It is never reached: there is an end among the
tokens, no reader takes it, and twice the number of tokens that are left is enough for the next.
-/

namespace Pipework.Script

open Grammar

variable {K : Language Lexeme} {ts : List Token}

/-! ## Single tokens -/

/-- A mark is refused at its own place when it is another token. -/
theorem takeMark_follows (m : Mark) (some : HasWord K) (ended : Ended ts) :
    Follows (mark m * K) K id ts (takeMark m ts) := by
  obtain ⟨l, q, rest, rfl⟩ := ended.exists_cons
  exact follows_single ((hasWord_mark m).mul some) nofun
    (fun same => ⟨rest, if_pos same, rfl⟩) fun other => if_neg other

/-- So is a word. -/
theorem takeWord_follows (some : HasWord K) (ended : Ended ts) :
    Follows (words * K) K Prod.snd ts (takeWord ts) := by
  obtain ⟨l, q, rest, rfl⟩ := ended.exists_cons
  refine follows_single (hasWord_words.mul some) nofun ?_ fun other =>
    takeWord.eq_2 _ fun name p ts same => other ⟨name, by cases same; rfl⟩
  rintro ⟨name, rfl⟩
  exact ⟨_, rfl, rfl⟩

theorem takeName_follows (expected : String) (some : HasWord K) (ended : Ended ts) :
    Follows (keys * K) K Prod.snd ts (takeName expected ts) := by
  obtain ⟨l, q, rest, rfl⟩ := ended.exists_cons
  refine follows_single (hasWord_keys.mul some) ?_ ?_ fun other =>
    takeName.eq_3 _ _ (fun name p ts same => other ⟨.word name, by cases same; rfl⟩)
      fun name p ts same => other ⟨.text name, by cases same; rfl⟩
  · rintro ⟨key, same⟩
    cases key <;> cases same
  · rintro ⟨key, rfl⟩
    cases key <;> exact ⟨_, rfl, rfl⟩

/-! ## Sequences -/

section

variable {α : Type} {close : Mark} {parts : Language Lexeme} {left : α → List Token}
  {x : Except PipelineError α}

/-- A sequence ends at once, or a part comes first. -/
theorem follows_closed (ended : Ended ts)
    (plain : ∀ w K, .mark close :: w ∉ parts * K)
    (onClose : ∀ q rest, ts = ⟨.mark close, q⟩ :: rest → ∃ a, x = .ok a ∧ left a = rest)
    (onPart : (∀ q rest, ts ≠ ⟨.mark close, q⟩ :: rest) →
      Follows (parts * (separated close parts * K)) K left ts x) :
    Follows (closed close parts * K) K left ts x := by
  obtain ⟨l, q, rest, rfl⟩ := ended.exists_cons
  by_cases closes : l = .mark close
  · subst closes
    obtain ⟨a, rfl, behind⟩ := onClose q rest rfl
    refine (follows_ok behind).shift nofun fun w => ?_
    rw [cons_mem_closed_mul, or_iff_left (plain w _), and_iff_right rfl]
  · have part := onPart fun q rest same => closes (by cases same; rfl)
    refine part.narrow (fun w mem => ?_) fun w mem => ?_
    · rw [closed_eq, add_mul, mul_assoc]
      exact .inr mem
    · exact (cons_mem_closed_mul.mp mem).resolve_left fun ⟨same, _⟩ => closes same

/-- Behind a part the sequence ends, or goes on behind a comma. -/
theorem follows_separated (some : HasWord K) (ended : Ended ts)
    (onComma : ∀ q rest, ts = ⟨.mark .comma, q⟩ :: rest → Follows (closed close parts * K) K left rest x)
    (onClose : ∀ q rest, ts = ⟨.mark close, q⟩ :: rest → ∃ a, x = .ok a ∧ left a = rest)
    (other : close ≠ .comma)
    (refused : (∀ q rest, ts ≠ ⟨.mark .comma, q⟩ :: rest) →
      (∀ q rest, ts ≠ ⟨.mark close, q⟩ :: rest) → ∃ expected, x = fail expected ts) :
    Follows (separated close parts * K) K left ts x := by
  obtain ⟨l, q, rest, rfl⟩ := ended.exists_cons
  by_cases comma : l = .mark .comma
  · subst comma
    refine (onComma q rest rfl).shift nofun fun w => ?_
    rw [cons_mem_separated_mul]
    simp [Ne.symm other]
  by_cases closes : l = .mark close
  · subst closes
    obtain ⟨a, rfl, behind⟩ := onClose q rest rfl
    refine (follows_ok behind).shift nofun fun w => ?_
    rw [cons_mem_separated_mul]
    simp [other]
  · obtain ⟨expected, rfl⟩ := refused (fun q rest same => comma (by cases same; rfl))
      fun q rest same => closes (by cases same; rfl)
    refine follows_fail ((hasWord_separated close parts).mul some) (fun w mem => ?_) expected
    rcases cons_mem_separated_mul.mp mem with ⟨same, -⟩ | ⟨same, -⟩
    · exact closes same
    · exact comma same

end

/-! ## Values -/

mutual

/-- A value is read as far as it goes on, or refused at the first token that it cannot go on with. -/
theorem readValue_follows (bound : Nat) {K : Language Lexeme} {ts : List Token} (some : HasWord K)
    (ended : Ended ts) (enough : 2 * ts.length ≤ bound) :
    Follows (values * K) K Prod.snd ts (readValue bound ts) := by
  have leaf {l : Lexeme} (leaf : Leaf l) (w : List Lexeme) : l :: w ∈ values * K ↔ w ∈ K := by
    rcases leaf with ⟨_, rfl⟩ | ⟨_, rfl⟩ | ⟨_, rfl⟩ | ⟨_, rfl⟩ <;> simp [cons_mem_values_mul, Leaf]
  match bound, ts with
  | _, [] => cases ended
  | 0, _ :: _ => cases enough
  | bound + 1, ⟨l, q⟩ :: rest =>
    rw [List.length_cons] at enough
    cases l with
    | text s => exact (follows_pair (Json.string s)).shift nofun (leaf (.inl ⟨s, rfl⟩))
    | number n => exact (follows_pair (Json.number n)).shift nofun (leaf (.inr (.inl ⟨n, rfl⟩)))
    | bool b => exact (follows_pair (Json.bool b)).shift nofun (leaf (.inr (.inr (.inl ⟨b, rfl⟩))))
    | word name => exact (follows_pair (wordValue name)).shift nofun (leaf (.inr (.inr (.inr ⟨name, rfl⟩))))
    | finish =>
      exact follows_fail (hasWord_values.mul some) (by simp [cons_mem_values_mul, Leaf]) "value"
    | mark m =>
      have behind := ended.tail_mark
      cases m with
      | leftBrace =>
        have object : Follows _ K Prod.snd rest (readEntries bound [] rest >>= fun read =>
            .ok (Json.object read.1, read.2)) :=
          (readEntries_follows bound [] some behind (by omega)).bind behind
            fun _ _ _ => follows_pair _
        exact object.shift nofun (by simp [cons_mem_values_mul, Leaf])
      | leftBracket =>
        have list : Follows _ K Prod.snd rest (readItems bound rest >>= fun read =>
            .ok (Json.array read.1, read.2)) :=
          (readItems_follows bound some behind (by omega)).bind behind fun _ _ _ => follows_pair _
        exact list.shift nofun (by simp [cons_mem_values_mul, Leaf])
      | dollar =>
        have reference : Follows _ K Prod.snd rest (takeWord rest >>= fun read =>
            .ok (Json.string ("$" ++ read.1), read.2)) :=
          (takeWord_follows some behind).bind behind fun _ _ _ => follows_pair _
        exact reference.shift nofun (by simp [cons_mem_values_mul, Leaf])
      | _ =>
        exact follows_fail (hasWord_values.mul some) (by simp [cons_mem_values_mul, Leaf]) "value"

/-- So are the entries of an object. -/
theorem readEntries_follows (bound : Nat) (fields : Fields) {K : Language Lexeme} {ts : List Token}
    (some : HasWord K) (ended : Ended ts) (enough : 2 * ts.length + 1 ≤ bound) :
    Follows (closed .rightBrace entries * K) K Prod.snd ts (readEntries bound fields ts) := by
  cases bound with
  | zero => cases enough
  | succ bound =>
    have rest : HasWord (separated .rightBrace entries * K) := (hasWord_separated _ _).mul some
    refine follows_closed ended ?_ ?_ fun open' => ?_
    · intro w K mem
      obtain ⟨⟨key, same⟩, -⟩ := cons_mem_entries_mul.mp mem
      cases key <;> cases same
    · rintro q rest rfl
      exact ⟨_, rfl, rfl⟩
    · rw [readEntries.eq_3 _ _ _ open', entries_mul]
      refine (takeName_follows _ ?_ ended).bind_pair ended fun name ts₁ ended₁ shorter₁ => ?_
      · exact (hasWord_mark _).mul (hasWord_values.mul rest)
      refine (takeMark_follows _ (hasWord_values.mul rest) ended₁).bind_rest ended₁
        fun ts₂ ended₂ shorter₂ => ?_
      refine (readValue_follows bound rest ended₂ (by omega)).bind_pair ended₂
        fun value ts₃ ended₃ shorter₃ => ?_
      refine follows_separated some ended₃ ?_ ?_ nofun ?_
      · rintro q rest rfl
        rw [List.length_cons] at shorter₃
        exact readEntries_follows bound _ some ended₃.tail_mark (by omega)
      · rintro q rest rfl
        exact ⟨_, rfl, rfl⟩
      · intro noComma noClose
        dsimp only
        split
        · exact absurd rfl (noComma _ _)
        · exact absurd rfl (noClose _ _)
        · exact ⟨_, rfl⟩

/-- So are the items of a list. -/
theorem readItems_follows (bound : Nat) {K : Language Lexeme} {ts : List Token} (some : HasWord K)
    (ended : Ended ts) (enough : 2 * ts.length + 1 ≤ bound) :
    Follows (closed .rightBracket values * K) K Prod.snd ts (readItems bound ts) := by
  cases bound with
  | zero => cases enough
  | succ bound =>
    have rest : HasWord (separated .rightBracket values * K) := (hasWord_separated _ _).mul some
    refine follows_closed ended (by simp [cons_mem_values_mul, Leaf]) ?_ fun open' => ?_
    · rintro q rest rfl
      exact ⟨_, rfl, rfl⟩
    · rw [readItems.eq_3 _ _ open']
      refine (readValue_follows bound rest ended (by omega)).bind_pair ended
        fun item ts₁ ended₁ shorter₁ => ?_
      refine follows_separated some ended₁ ?_ ?_ nofun ?_
      · rintro q rest rfl
        rw [List.length_cons] at shorter₁
        have behind := ended₁.tail_mark
        exact (readItems_follows bound some behind (by omega)).bind behind
          fun _ _ _ => follows_pair _
      · rintro q rest rfl
        exact ⟨_, rfl, rfl⟩
      · intro noComma noClose
        dsimp only
        split
        · exact absurd rfl (noComma _ _)
        · exact absurd rfl (noClose _ _)
        · exact ⟨_, rfl⟩

end

/-! ## Calls -/

/-- An argument is read with a name if an equals sign comes behind its first word, which no argument
has behind it. -/
theorem readParam_follows {bound unnamed : Nat} (some : HasWord K)
    (noEquals : ∀ w, .mark .equals :: w ∉ K) (ended : Ended ts) (enough : 2 * ts.length ≤ bound) :
    Follows (arguments * K) K Prod.snd ts (readParam bound unnamed ts) := by
  obtain ⟨l, q, rest, rfl⟩ := ended.exists_cons
  by_cases word : ∃ name, l = .word name
  · obtain ⟨name, rfl⟩ := word
    have behind := ended.tail nofun
    have named (w : List Lexeme) : .word name :: w ∈ arguments * K ↔
        w ∈ K + mark .equals * (values * K) := by
      simp [cons_mem_arguments_mul, cons_mem_values_mul, Leaf, Language.mem_add]
    obtain ⟨l', q', rest, rfl⟩ := behind.exists_cons
    simp only [List.length_cons] at enough
    by_cases equals : l' = .mark .equals
    · subst equals
      have value := readValue_follows bound some behind.tail_mark (by omega)
      have argument : Follows (values * K) K Prod.snd rest (readValue bound rest >>= fun read =>
          .ok ((name, read.1, unnamed), read.2)) :=
        value.bind behind.tail_mark fun _ _ _ => follows_pair _
      refine Follows.shift nofun named (argument.shift nofun fun w => ?_)
      simp [Language.mem_add, cons_mem_single_mul, noEquals]
    · obtain ⟨bound, rfl⟩ : ∃ n, bound = n + 1 := ⟨bound - 1, by omega⟩
      rw [readParam.eq_2 _ _ _ fun _ _ _ _ same => equals (by cases same; rfl)]
      have argument : Follows K K Prod.snd (⟨l', q'⟩ :: rest)
          (.ok ((positionalKey unnamed, wordValue name, unnamed + 1), ⟨l', q'⟩ :: rest)) :=
        follows_pair _
      refine Follows.shift nofun named (argument.narrow (fun w mem => .inl mem) fun w mem => ?_)
      exact mem.resolve_right fun mem => equals (cons_mem_single_mul.mp mem).1
  · rw [readParam.eq_2 _ _ _ fun name _ _ _ same => word ⟨name, by cases same; rfl⟩]
    have argument : Follows (values * K) K Prod.snd (⟨l, q⟩ :: rest)
        (readValue bound (⟨l, q⟩ :: rest) >>= fun read =>
          .ok ((positionalKey unnamed, read.1, unnamed + 1), read.2)) :=
      (readValue_follows bound some ended enough).bind ended fun _ _ _ => follows_pair _
    refine argument.narrow (fun w mem => ?_) fun w mem => ?_
    · rw [arguments_eq, add_mul]
      exact .inl mem
    · exact (cons_mem_arguments_mul.mp mem).resolve_right fun named => word named.1

/-- So are the parameters of a call. -/
theorem readParams_follows {bound unnamed : Nat} {params : Params} (some : HasWord K)
    (ended : Ended ts) (enough : 2 * ts.length + 1 ≤ bound) :
    Follows (closed .rightParen arguments * K) K Prod.snd ts
      (readParams bound unnamed params ts) := by
  induction bound generalizing unnamed params ts with
  | zero => cases enough
  | succ bound ih =>
    have rest : HasWord (separated .rightParen arguments * K) := (hasWord_separated _ _).mul some
    have noEquals (w : List Lexeme) : .mark .equals :: w ∉ separated .rightParen arguments * K := by
      simp [cons_mem_separated_mul]
    refine follows_closed ended ?_ ?_ fun open' => ?_
    · simp [cons_mem_arguments_mul, cons_mem_values_mul, Leaf]
    · rintro q rest rfl
      exact ⟨_, rfl, rfl⟩
    · have first : Follows (arguments * (separated .rightParen arguments * K))
          (separated .rightParen arguments * K) Prod.snd ts (readParam bound unnamed ts) :=
        readParam_follows rest noEquals ended (Nat.le_of_lt_succ enough)
      rw [readParams.eq_3 _ _ _ _ open']
      refine first.chain ?_
      rintro ⟨⟨key, value, following⟩, ts₁⟩ read
      have ended₁ : Ended ts₁ := first.ended read ended
      have shorter₁ : ts₁.length ≤ ts.length := first.length_le read
      by_cases known : Fields.contains params key = true
      · simp only [known, ↓reduceIte]
        obtain ⟨l, q, rest, rfl⟩ := ended.exists_cons
        exact follows_repeated _
      · simp only [known, Bool.false_eq_true, ↓reduceIte]
        refine first.after read ?_
        show Follows (separated .rightParen arguments * K) K Prod.snd ts₁ _
        refine follows_separated some ended₁ ?_ ?_ (by decide) ?_
        · rintro q rest rfl
          rw [List.length_cons] at shorter₁
          exact ih ended₁.tail_mark (by omega)
        · rintro q rest rfl
          exact ⟨_, rfl, rfl⟩
        · intro noComma noClose
          split
          · exact absurd rfl (noComma _ _)
          · exact absurd rfl (noClose _ _)
          · exact ⟨_, rfl⟩

/-- A call is read with its arguments if a parenthesis comes behind it, which no call has behind it. -/
theorem readCall_follows (some : HasWord K) (noParen : ∀ w, .mark .leftParen :: w ∉ K)
    (ended : Ended ts) : Follows (calls * K) K Prod.snd ts (readCall ts) := by
  have rest : HasWord ((1 + mark .leftParen * closed .rightParen arguments) * K) := by
    obtain ⟨w, mem⟩ := some
    rw [add_mul, one_mul]
    exact ⟨w, .inl mem⟩
  rw [calls_mul]
  refine (takeWord_follows ?_ ended).bind_pair ended fun module ts₁ ended₁ _ => ?_
  · exact (hasWord_mark _).mul (hasWord_words.mul rest)
  refine (takeMark_follows _ (hasWord_words.mul rest) ended₁).bind_rest ended₁
    fun ts₂ ended₂ _ => ?_
  refine (takeWord_follows rest ended₂).bind_pair ended₂ fun action ts₃ ended₃ _ => ?_
  obtain ⟨l, q, ts₄, rfl⟩ := ended₃.exists_cons
  have bare (other : l ≠ .mark .leftParen) :
      Follows ((1 + mark .leftParen * closed .rightParen arguments) * K) K Prod.snd (⟨l, q⟩ :: ts₄)
        (.ok ((⟨module, (current ts).position, action, []⟩ : Call), ⟨l, q⟩ :: ts₄)) := by
    refine (follows_pair _).narrow (fun w mem => ?_) fun w mem => ?_
    · rw [add_mul, one_mul]
      exact .inl mem
    · rw [add_mul, one_mul, mul_assoc] at mem
      exact mem.resolve_right fun mem => other (cons_mem_single_mul.mp mem).1
  cases l with
  | mark m =>
    cases m with
    | leftParen =>
      have behind := ended₃.tail_mark
      have params : Follows (closed .rightParen arguments * K) K Prod.snd ts₄
          (readParams (2 * ts₄.length + 1) 0 [] ts₄) :=
        readParams_follows some behind (Nat.le_refl _)
      have called : Follows (closed .rightParen arguments * K) K Prod.snd ts₄
          (readParams (2 * ts₄.length + 1) 0 [] ts₄ >>= fun read =>
            .ok ((⟨module, (current ts).position, action, read.1⟩ : Call), read.2)) :=
        params.bind_pair behind fun _ _ _ _ => follows_pair _
      refine called.shift nofun fun w => ?_
      simp [add_mul, mul_assoc, Language.mem_add, cons_mem_single_mul, noParen]
    | _ => exact bare nofun
  | _ => exact bare nofun

/-! ## Steps -/

/-- Behind a call no parenthesis can stand. -/
theorem noParen_behind_call (w : List Lexeme) :
    .mark .leftParen :: w ∉ finish + mark .pipe * steps := by
  simp [Language.mem_add, cons_mem_single_mul, cons_mem_single]

theorem hasWord_behind_call : HasWord (finish + mark .pipe * steps) := ⟨[.finish], .inl ⟨_, rfl, rfl⟩⟩

/-- A call becomes no step if its module name is no atom type and nothing takes its place. -/
theorem toStep_eq_error {unknown : UnknownTypes} {call : Call} {e : PipelineError} :
    call.toStep unknown = .error e ↔ unknown = .reject ∧ AtomType.ofName? call.module = none ∧
      e = .unknownAtomType call.module call.position.line call.position.column := by
  unfold Call.toStep
  cases AtomType.ofName? call.module <;> cases unknown <;> simp [eq_comm]

/-- Steps fail with their first call, or as its step is made, or behind it: in the steps behind a pipe,
or with what is neither a pipe nor the end. -/
theorem readSteps_succ_eq_error {unknown : UnknownTypes} {bound : Nat} {e : PipelineError} :
    (readSteps unknown (bound + 1) ts).result = .error e ↔ readCall ts = .error e ∨
      ∃ call ts₁, readCall ts = .ok (call, ts₁) ∧ (call.toStep unknown = .error e ∨
        ∃ reports step, call.toStep unknown = .ok (reports, step) ∧
          ((∃ p ts₂, ts₁ = ⟨.mark .pipe, p⟩ :: ts₂ ∧
              (readSteps unknown bound ts₂).result = .error e) ∨
            ((∀ p ts₂, ts₁ ≠ ⟨.finish, p⟩ :: ts₂) ∧ (∀ p ts₂, ts₁ ≠ ⟨.mark .pipe, p⟩ :: ts₂) ∧
              e = (current ts₁).unexpected "'|' or end of input"))) := by
  rw [readSteps]
  cases readCall ts with
  | error e' => simp
  | ok read =>
    obtain ⟨call, ts₁⟩ := read
    simp only [Except.ok.injEq, Prod.mk.injEq, reduceCtorEq, false_or, ↓existsAndEq, true_and]
    cases call.toStep unknown with
    | error e' => simp
    | ok made =>
      obtain ⟨reports, step⟩ := made
      simp only [Except.ok.injEq, Prod.mk.injEq, reduceCtorEq, false_or, ↓existsAndEq, true_and]
      split
      next p ts₂ => simp
      next p ts₂ => simp [Outcome.map_eq_error]
      next noFinish noPipe =>
        have noFinish' : ∀ p ts₂, ts₁ ≠ ⟨.finish, p⟩ :: ts₂ := noFinish
        have noPipe' : ∀ p ts₂, ts₁ ≠ ⟨.mark .pipe, p⟩ :: ts₂ := noPipe
        simp [fail, noFinish', noPipe', eq_comm]

/-- Where every module name is taken, steps fail at the first token that does not fit. -/
theorem readSteps_fails {unknown : UnknownTypes} (admits : unknown ≠ .reject) {bound : Nat}
    {e : PipelineError} (ended : Ended ts) (enough : ts.length ≤ bound)
    (failed : (readSteps unknown bound ts).result = .error e) : Fails steps ts e := by
  induction bound generalizing ts e with
  | zero =>
    obtain ⟨l, q, rest, rfl⟩ := ended.exists_cons
    cases enough
  | succ bound ih =>
    have first := readCall_follows hasWord_behind_call noParen_behind_call ended
    rw [← steps_eq] at first
    rcases readSteps_succ_eq_error.mp failed with
      failed | ⟨call, ts₁, read, failed | ⟨reports, step, -, behind⟩⟩
    · exact first.error e failed
    · exact absurd (toStep_eq_error.mp failed).1 admits
    · have ended₁ : Ended ts₁ := first.ended read ended
      have shorter₁ : ts₁.length ≤ ts.length := first.length_le read
      refine first.ok _ read e ?_
      rcases behind with ⟨p, ts₂, rfl, failed⟩ | ⟨noFinish, noPipe, rfl⟩
      · rw [List.length_cons] at shorter₁
        refine (ih ended₁.tail_mark (by omega) failed).shift fun w => ?_
        simp [Language.mem_add, cons_mem_single_mul, cons_mem_single]
      · obtain ⟨l, q, ts₂, rfl⟩ := ended₁.exists_cons
        refine fails_first hasWord_behind_call (fun w mem => ?_) _
        rcases mem with mem | mem
        · exact noFinish q ts₂ (by rw [(cons_mem_single.mp mem).1])
        · exact noPipe q ts₂ (by rw [(cons_mem_single_mul.mp mem).1])

/-! ## Whole scripts -/

/-- The header is refused at the first token that does not belong to it. -/
theorem readHeader_follows (some : HasWord K) (ended : Ended ts) :
    Follows (single (· = .word "pipeline") * (keys * (mark .colon * K))) K Prod.snd ts
      (readHeader ts) := by
  obtain ⟨l, q, rest, rfl⟩ := ended.exists_cons
  have behindName : HasWord (mark .colon * K) := (hasWord_mark _).mul some
  by_cases keyword : l = .word "pipeline"
  · subst keyword
    have behind := ended.tail nofun
    have header : Follows (keys * (mark .colon * K)) K Prod.snd rest
        (takeName "pipeline name" rest >>= fun read =>
          takeMark .colon read.2 >>= fun ts => .ok (read.1, ts)) :=
      (takeName_follows _ behindName behind).bind_pair behind fun name ts₁ ended₁ _ =>
        (takeMark_follows _ some ended₁).bind_rest ended₁ fun ts₂ _ _ => follows_pair name
    refine header.shift nofun fun w => ?_
    rw [cons_mem_single_mul, and_iff_right rfl]
  · rw [readHeader.eq_2 _ fun p ts same => keyword (by cases same; rfl)]
    have begins : HasWord (single (· = .word "pipeline")) := hasWord_single rfl
    refine follows_fail (begins.mul (hasWord_keys.mul behindName)) (fun w mem => ?_) _
    exact keyword (cons_mem_single_mul.mp mem).1

theorem readVariable_follows (some : HasWord K) (ended : Ended ts) :
    Follows (words * (mark .equals * (values * K))) K Prod.snd ts (readVariable ts) := by
  have value : HasWord (values * K) := hasWord_values.mul some
  refine (takeWord_follows ((hasWord_mark _).mul value) ended).bind_pair ended
    fun name ts₁ ended₁ _ => ?_
  refine (takeMark_follows _ value ended₁).bind_rest ended₁ fun ts₂ ended₂ _ => ?_
  exact (readValue_follows _ some ended₂ (Nat.le_refl _)).bind_pair ended₂
    fun value ts₃ _ _ => follows_pair _

theorem hasWord_bodies : HasWord bodies := ⟨_, [], [], rfl⟩

/-- What stands behind declarations begins with no mark. -/
theorem noMark_in_ends (m : Mark) (w : List Lexeme) : .mark m :: w ∉ ends := by
  rw [ends_eq, steps_eq, calls_mul, Language.mem_add, cons_mem_single, cons_mem_single_mul]
  rintro (⟨same, -⟩ | ⟨⟨name, same⟩, -⟩) <;> cases same

/-- So are the variables with the steps behind them. -/
theorem readVariables_follows {bound : Nat} {declared : Fields} (ended : Ended ts)
    (enough : ts.length ≤ bound) :
    Follows bodies ends Prod.snd ts (readVariables bound declared ts) := by
  induction bound generalizing declared ts with
  | zero =>
    obtain ⟨l, q, rest, rfl⟩ := ended.exists_cons
    cases enough
  | succ bound ih =>
    obtain ⟨l, q, rest, rfl⟩ := ended.exists_cons
    by_cases dollar : l = .mark .dollar
    · subst dollar
      have behind := ended.tail_mark
      have more : Follows (words * (mark .equals * (values * bodies))) ends Prod.snd rest
          (readVariable rest >>= fun read =>
            readVariables bound (declared.insert read.1.1 read.1.2) read.2) :=
        (readVariable_follows hasWord_bodies behind).bind_pair behind
          fun ⟨name, value⟩ ts₁ ended₁ shorter₁ => by
            rw [List.length_cons] at enough
            exact ih ended₁ (by omega)
      refine more.shift nofun fun w => ?_
      conv_lhs => rw [bodies_eq]
      simp [Language.mem_add, cons_mem_single_mul, noMark_in_ends]
    · rw [readVariables.eq_2 _ _ _ fun _ p ts _ same => dollar (by cases same; rfl)]
      refine (follows_pair _).narrow (fun w mem => ?_) fun w mem => ?_
      · rw [bodies_eq]
        exact .inl mem
      · rw [bodies_eq] at mem
        exact mem.resolve_right fun mem => dollar (cons_mem_single_mul.mp mem).1

/-- What stands behind a header begins with no at sign. -/
theorem noAt_in_bodies (w : List Lexeme) : .mark .at :: w ∉ bodies := by
  rw [bodies_eq]
  simp [Language.mem_add, cons_mem_single_mul, noMark_in_ends]

/-- A script is refused at the first token that no sentence goes on with. -/
theorem readPreamble_follows (ended : Ended ts) :
    Follows sentences ends Prod.snd ts (readPreamble ts) := by
  -- Behind the header, or where there is none.
  have declared (name : String) {ts₁ : List Token} (ended₁ : Ended ts₁) :
      Follows bodies ends Prod.snd ts₁ (readVariables ts₁.length [] ts₁ >>= fun read =>
        .ok (({ name, vars := read.1 } : Pipeline), read.2)) :=
    (readVariables_follows ended₁ (Nat.le_refl _)).bind_pair ended₁ fun _ _ _ _ => follows_pair _
  obtain ⟨l, q, rest, rfl⟩ := ended.exists_cons
  have headless (other : l ≠ .mark .at) : Follows sentences ends Prod.snd (⟨l, q⟩ :: rest)
      (readVariables (⟨l, q⟩ :: rest : List Token).length [] (⟨l, q⟩ :: rest) >>= fun read =>
        .ok (({ name := Pipeline.defaultName, vars := read.1 } : Pipeline), read.2)) := by
    refine (declared _ ended).narrow (fun w mem => ?_) fun w mem => ?_
    · rw [sentences_eq]
      exact .inl mem
    · rw [sentences_eq] at mem
      exact mem.resolve_right fun mem => other (cons_mem_single_mul.mp mem).1
  cases l with
  | mark m =>
    cases m with
    | «at» =>
      have behind := ended.tail_mark
      have headed : Follows (single (· = .word "pipeline") * (keys * (mark .colon * bodies))) ends
          Prod.snd rest (readHeader rest >>= fun read =>
            readVariables read.2.length [] read.2 >>= fun read' =>
              .ok (({ name := read.1, vars := read'.1 } : Pipeline), read'.2)) :=
        (readHeader_follows hasWord_bodies behind).bind_pair behind fun name ts₁ ended₁ _ =>
          declared name ended₁
      refine headed.shift nofun fun w => ?_
      rw [sentences_eq]
      simp [Language.mem_add, cons_mem_single_mul, noAt_in_bodies]
    | _ => exact headless nofun
  | _ => exact headless nofun

/-- Where every module name is taken, a script fails at the first token that does not fit. -/
theorem readPipeline_fails {unknown : UnknownTypes} (admits : unknown ≠ .reject)
    {e : PipelineError} (ended : Ended ts) (failed : (readPipeline unknown ts).result = .error e) :
    Fails sentences ts e := by
  have preamble := readPreamble_follows ended
  rw [readPipeline] at failed
  cases read : readPreamble ts with
  | error e' =>
    rw [read] at failed
    cases failed
    exact preamble.error e read
  | ok read' =>
    obtain ⟨start, ts₁⟩ := read'
    rw [read] at failed
    refine preamble.ok _ read e ?_
    have ended₁ : Ended ts₁ := preamble.ended read ended
    obtain ⟨l, q, rest, rfl⟩ := ended₁.exists_cons
    by_cases finished : l = .finish
    · subst finished
      cases failed
    · have stepsFailed : (readSteps unknown (⟨l, q⟩ :: rest : List Token).length
          (⟨l, q⟩ :: rest)).result = .error e := by
        simp only at failed
        split at failed
        next same => cases same; exact absurd rfl finished
        next => exact Outcome.map_eq_error.mp failed
      refine (readSteps_fails admits ended₁ (Nat.le_refl _) stepsFailed).narrow
        (fun w mem => by rw [ends_eq]; exact .inr mem) fun w mem => ?_
      rw [ends_eq] at mem
      exact mem.resolve_left fun mem => finished (cons_mem_single.mp mem).1

/-! ## Whole texts -/

/-- There is an end among the tokens of a text. -/
theorem ended_of_tokenize {text : String} (scanned : tokenize text = .ok ts) : Ended ts := by
  obtain ⟨body, terminated, -⟩ := scanFrom_terminated text.toList scanned
  rw [Ended, terminated]
  exact List.mem_append_right _ List.mem_cons_self

/-- **Syntax errors point at the first offending token.** Where the tokens of a text give no pipeline
although every module name is taken, and no parameter is given twice, the error has the line, column and
description of one token, and of no other the line and column. The tokens in front of it begin some
sentence of the grammar, and with it they begin none. -/
theorem error_at_first_offending_token {text : String} (scanned : tokenize text = .ok ts)
    {fallback : AtomType} {expected found : String} {line column : Nat}
    (failed : parse (.substitute fallback) text = .error (.malformed expected found line column))
    (other : expected ≠ "unique parameter names") :
    ∃ k t, ts[k]? = some t ∧ t.position.line = line ∧ t.position.column = column ∧
      t.describe = found ∧
      (∀ k' t', ts[k']? = some t' → t'.position.line = line → t'.position.column = column → k' = k) ∧
      Begins sentences (lexemes (ts.take k)) ∧ ¬ Begins sentences (lexemes (ts.take (k + 1))) := by
  rw [parse_of_tokenize scanned] at failed
  have admits : UnknownTypes.substitute fallback ≠ .reject := nofun
  have fails := readPipeline_fails admits (ended_of_tokenize scanned) failed
  generalize same : PipelineError.malformed expected found line column = e at fails
  cases fails with
  | repeated => cases same; exact absurd rfl other
  | @unexpected before behind t _ viable dead =>
    cases same
    have here : (before ++ t :: behind)[before.length]? = some t := by simp
    refine ⟨before.length, t, here, rfl, rfl, rfl, ?_, ?_, ?_⟩
    · exact fun k' t' there line column => index_eq_of_place scanned here there line column
    · rwa [List.take_left]
    · have taken : (before ++ t :: behind).take (before.length + 1) = before ++ [t] := by
        simp [List.take_append, List.take_of_length_le]
      rwa [taken]

/-- A list that is not closed is refused at the word behind it. -/
theorem unclosed_list_is_refused :
    parse (.substitute .data) "$x = [1, [a] data.load()" =
        .error (.malformed "',' or ']'" "IDENTIFIER 'data'" 1 14) ∧
      ∃ ts, tokenize "$x = [1, [a] data.load()" = .ok ts ∧
        ∃ k t, ts[k]? = some t ∧ t.position.line = 1 ∧ t.position.column = 14 ∧
          t.describe = "IDENTIFIER 'data'" ∧
          (∀ k' t', ts[k']? = some t' → t'.position.line = 1 → t'.position.column = 14 → k' = k) ∧
          Begins sentences (lexemes (ts.take k)) ∧
          ¬ Begins sentences (lexemes (ts.take (k + 1))) := by
  have failed : parse (.substitute .data) "$x = [1, [a] data.load()" =
      .error (.malformed "',' or ']'" "IDENTIFIER 'data'" 1 14) := by decide +kernel
  have scanned : tokenize "$x = [1, [a] data.load()" =
      .ok ((tokenize "$x = [1, [a] data.load()").toOption.getD []) := by decide +kernel
  exact ⟨failed, _, scanned, error_at_first_offending_token scanned failed (by decide)⟩

end Pipework.Script
