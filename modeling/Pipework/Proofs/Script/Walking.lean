import Pipework.Proofs.Script.Cursor
import Pipework.Proofs.Script.Scanning

/-!
# What a walk keeps to

`Goes tokens start routine gives refuses` says what a routine does from a place on: it looks and moves
at places of the tokens only, and forwards; no loop has more turns than there were tokens left; and it
ends, at a place of the tokens, with something that it gives there or at a token that it refuses. There
is one rule for each way to put routines together. A routine behind another one goes from wherever that
one ends (`Goes.bind`); the turns of a loop keep an invariant, and each ends at a later place than the
one before, so the tokens that are left bound them (`goes_turns`).

That every advance stays inside rests on the last token alone, which is the end (`Finished`): a routine
takes a token only if it is something else, and then another one stands behind it.

`Reads` says of a routine that it does what a reader of `Pipework.Script.Parse` does with the tokens
from its place on, and where it ends at the earliest. What a chain of readers gives is fixed first
(`reads_of`); then each routine of the chain strips its reader from the front (`Reads.bind`,
`goes_expect`).
-/

namespace Pipework.Script.Cursor

/-! ## What a routine does -/

/-- A look at one of so many tokens, a move forwards among them, or a turn of a loop that has no more
turns than there were tokens left when it was entered. -/
def Event.Within (count : Nat) : Event → Prop
  | .look place => place < count
  | .move source target => source < target ∧ target < count
  | .turn entered number => entered + number ≤ count

/-- A walk gives something at a place, or meets a token that does not fit. -/
inductive Ends {α : Type} (gives : α → Nat → Prop) (refuses : PipelineError → Prop) :
    Except Stop α → Nat → Prop
  | gives {a : α} {place : Nat} (given : gives a place) : Ends gives refuses (.ok a) place
  | refuses {e : PipelineError} {place : Nat} (refused : refuses e) :
    Ends gives refuses (.error (.refused e)) place

/-- From a place on, a routine stays within the tokens, never goes back, and ends in one of two ways. -/
structure Goes {α : Type} (tokens : List Token) (start : Nat) (routine : Routine α)
    (gives : α → Nat → Prop) (refuses : PipelineError → Prop) : Prop where
  events : ∀ event ∈ (routine tokens start).events, event.Within tokens.length
  onward : start ≤ (routine tokens start).place
  inside : (routine tokens start).place < tokens.length
  ends : Ends gives refuses (routine tokens start).outcome (routine tokens start).place

section

variable {α β : Type} {tokens : List Token} {start : Nat} {routine : Routine α}
  {gives : α → Nat → Prop} {refuses : PipelineError → Prop}

/-- A routine that only gives something is a walk of no steps. -/
theorem goes_pure {a : α} (inside : start < tokens.length) (given : gives a start) :
    Goes tokens start (pure a) gives refuses :=
  ⟨List.forall_mem_nil _, Nat.le_refl _, inside, .gives given⟩

/-- A routine that only refuses is a walk of no steps. -/
theorem goes_stop {e : PipelineError} (inside : start < tokens.length) (refused : refuses e) :
    Goes tokens start (stop (.refused e)) gives refuses :=
  ⟨List.forall_mem_nil _, Nat.le_refl _, inside, .refuses refused⟩

/-- What is noted down has to be within bounds, and nothing moves. -/
theorem goes_note {event : Event} {gives : Unit → Nat → Prop} (inside : start < tokens.length)
    (within : event.Within tokens.length) (given : gives () start) :
    Goes tokens start (note event) gives refuses :=
  ⟨List.forall_mem_singleton.mpr within, Nat.le_refl _, inside, .gives given⟩

/-- A routine may ask for its place. -/
theorem goes_here {gives : Nat → Nat → Prop} (inside : start < tokens.length)
    (given : gives start start) : Goes tokens start here gives refuses :=
  ⟨List.forall_mem_nil _, Nat.le_refl _, inside, .gives given⟩

/-- What a walk gives and refuses may be told less exactly. -/
theorem Goes.imp {gives' : α → Nat → Prop} {refuses' : PipelineError → Prop}
    (goes : Goes tokens start routine gives refuses)
    (given : ∀ a place, place < tokens.length → gives a place → gives' a place)
    (refused : ∀ e, refuses e → refuses' e) : Goes tokens start routine gives' refuses' := by
  obtain ⟨events, onward, inside, ends⟩ := goes
  refine ⟨events, onward, inside, ?_⟩
  generalize (routine tokens start).outcome = outcome at ends
  cases ends with
  | gives here => exact .gives (given _ _ inside here)
  | refuses here => exact .refuses (refused _ here)

/-- What two routines do of which the first gives something. -/
theorem bind_of_ok {next : α → Routine β} {a : α} (given : (routine tokens start).outcome = .ok a) :
    (routine >>= next) tokens start =
      ⟨(next a tokens (routine tokens start).place).outcome,
        (next a tokens (routine tokens start).place).place,
        (routine tokens start).events ++ (next a tokens (routine tokens start).place).events⟩ := by
  simp only [bind, given]

/-- What two routines do of which the first gives nothing. -/
theorem bind_of_error {next : α → Routine β} {why : Stop}
    (stopped : (routine tokens start).outcome = .error why) :
    (routine >>= next) tokens start =
      ⟨.error why, (routine tokens start).place, (routine tokens start).events⟩ := by
  simp only [bind, stopped]

/-- A routine behind another one goes on where that one ends. -/
theorem Goes.bind {next : α → Routine β} {gives : β → Nat → Prop}
    (first : Goes tokens start routine
      (fun a place => Goes tokens place (next a) gives refuses) refuses) :
    Goes tokens start (routine >>= next) gives refuses := by
  obtain ⟨events, onward, inside, ends⟩ := first
  generalize met : (routine tokens start).outcome = outcome at ends
  cases ends with
  | gives rest =>
    refine ⟨?_, ?_, ?_, ?_⟩ <;> rw [bind_of_ok met]
    · exact List.forall_mem_append.mpr ⟨events, rest.events⟩
    · exact Nat.le_trans onward rest.onward
    · exact rest.inside
    · exact rest.ends
  | refuses refused =>
    refine ⟨?_, ?_, ?_, ?_⟩ <;> rw [bind_of_error met]
    · exact events
    · exact onward
    · exact inside
    · exact .refuses refused

end

/-! ## Single tokens -/

/-- The kind of a mark tells which one it is. -/
theorem kind_eq_mark {l : Lexeme} {m : Mark} : l.kind = .mark m ↔ l = .mark m := by
  cases l <;> simp [Lexeme.kind]

/-- Only the end is of its kind. -/
theorem kind_eq_finish {l : Lexeme} : l.kind = .finish ↔ l = .finish := by
  cases l <;> simp [Lexeme.kind]

/-- The kind of a word leaves its name open. -/
theorem kind_eq_word {l : Lexeme} : l.kind = .word ↔ ∃ name, l = .word name := by
  cases l <;> simp [Lexeme.kind]

/-- The last of the tokens is the end. -/
def Finished (tokens : List Token) : Prop := (lexemes tokens).getLast? = some .finish

section

variable {tokens : List Token} {start : Nat} {refuses : PipelineError → Prop}

/-- At a place of the tokens there is one. -/
theorem exists_token (inside : start < tokens.length) :
    ∃ l q, tokens.drop start = ⟨l, q⟩ :: tokens.drop (start + 1) :=
  ⟨_, _, List.drop_eq_getElem_cons inside⟩

/-- A token stands at a place of the tokens. -/
theorem inside_of_token {t : Token} {rest : List Token} (token : tokens.drop start = t :: rest) :
    start < tokens.length := by
  refine Nat.lt_of_not_le fun outside => ?_
  rw [List.drop_eq_nil_of_le outside] at token
  cases token

/-- A cursor finds the token in front of the tokens that are left. -/
theorem getElem?_of_token {t : Token} {rest : List Token} (token : tokens.drop start = t :: rest) :
    tokens[start]? = some t := by
  rw [← List.head?_drop, token]
  rfl

/-- A reader finds the same token. -/
theorem current_of_token {t : Token} {rest : List Token} (token : tokens.drop start = t :: rest) :
    Script.current (tokens.drop start) = t := by
  rw [token]
  rfl

/-- A look ahead finds the token there, and the cursor stays where it is. -/
theorem goes_peek {ahead : Nat} {t : Token} {rest : List Token} {gives : Lexeme → Nat → Prop}
    (token : tokens.drop (start + ahead) = t :: rest) (given : gives t.lexeme start) :
    Goes tokens start (peek ahead) gives refuses := by
  have inside := inside_of_token token
  refine ⟨List.forall_mem_singleton.mpr inside, Nat.le_refl _,
    Nat.lt_of_le_of_lt (Nat.le_add_right _ _) inside, ?_⟩
  rw [peek, getElem?_of_token token]
  exact .gives given

/-- One step forwards is within bounds where another token stands behind. -/
theorem goes_forward {gives : Unit → Nat → Prop} (inside : start + 1 < tokens.length)
    (given : gives () (start + 1)) : Goes tokens start forward gives refuses :=
  ⟨List.forall_mem_singleton.mpr ⟨Nat.lt_succ_self _, inside⟩, Nat.le_succ _, inside, .gives given⟩

section Token

variable {α : Type} {l : Lexeme} {q : Position} (finished : Finished tokens)
  (token : tokens.drop start = ⟨l, q⟩ :: tokens.drop (start + 1))

include token

/-- A token of another kind is not this mark. -/
theorem no_mark_of_token {m : Mark} (other : l.kind ≠ .mark m) (q' : Position) (rest : List Token) :
    tokens.drop start ≠ ⟨.mark m, q'⟩ :: rest := by
  intro there
  rw [token] at there
  cases there
  exact other rfl

/-- A look at the place finds the token there. -/
theorem goes_current {gives : Token → Nat → Prop} (given : gives ⟨l, q⟩ start) :
    Goes tokens start current gives refuses := by
  have inside := inside_of_token token
  refine ⟨List.forall_mem_singleton.mpr inside, Nat.le_refl _, inside, ?_⟩
  rw [current, getElem?_of_token token]
  exact .gives given

/-- A check compares the kind of the token, and the cursor stays where it is. -/
theorem goes_check {kind : Kind} {gives : Bool → Nat → Prop} (given : gives (l.kind == kind) start) :
    Goes tokens start (check kind) gives refuses :=
  .bind (goes_current token (goes_pure (inside_of_token token) given))

/-- A choice by the kind of the token. -/
theorem goes_choice {kind : Kind} {yes no : Routine α} {gives : α → Nat → Prop}
    (same : l.kind = kind → Goes tokens start yes gives refuses)
    (other : l.kind ≠ kind → Goes tokens start no gives refuses) :
    Goes tokens start (check kind >>= fun found => if found = true then yes else no) gives refuses := by
  refine .bind (goes_check token ?_)
  by_cases found : l.kind = kind
  · rw [if_pos (beq_iff_eq.mpr found)]
    exact same found
  · rw [if_neg fun same => found (beq_iff_eq.mp same)]
    exact other found

/-- A refusal names what was expected and the token that was found. -/
theorem goes_refuse {expected : String} {gives : α → Nat → Prop}
    (refused : refuses (Token.unexpected ⟨l, q⟩ expected)) :
    Goes tokens start (refuse expected) gives refuses :=
  .bind (goes_current token (goes_stop (inside_of_token token) refused))

include finished

/-- Behind a token that is not the end another one stands. -/
theorem Finished.behind (other : l ≠ .finish) : start + 1 < tokens.length := by
  refine Nat.lt_of_not_le fun outside => other ?_
  have last : (lexemes (tokens.drop start)).getLast? = some .finish := by
    rw [lexemes, List.map_drop, List.getLast?_drop, List.length_map,
      if_neg (Nat.not_le.mpr (inside_of_token token))]
    exact finished
  rw [token, List.drop_eq_nil_of_le outside] at last
  exact Option.some.inj last

/-- An advance over anything but the end goes to the next place. -/
theorem goes_advance {gives : Unit → Nat → Prop} (other : l ≠ .finish)
    (given : start + 1 < tokens.length → gives () (start + 1)) :
    Goes tokens start advance gives refuses := by
  have behind := finished.behind token other
  exact goes_choice token (fun same => absurd (kind_eq_finish.mp same) other)
    fun _ => goes_forward behind (given behind)

/-- A text that is expected is given, and taken. -/
theorem goes_expectText {kind : Kind} {gives : String → Nat → Prop} (same : l.kind = kind)
    (other : l ≠ .finish)
    (given : start + 1 < tokens.length → gives (l.value.string?.getD "") (start + 1)) :
    Goes tokens start (expectText kind) gives refuses := by
  refine goes_choice token (fun _ => ?_) fun different => absurd same different
  refine .bind (goes_current token (.bind (goes_advance finished token other fun behind => ?_)))
  exact goes_pure behind (given behind)

/-- Behind a part of a sequence the cursor goes over a comma, stays at the closing mark, or refuses. -/
theorem goes_separator {close : Mark} {expected : String} {gives : Unit → Nat → Prop}
    (comma : l = .mark .comma → start + 1 < tokens.length → gives () (start + 1))
    (closes : l = .mark close → gives () start)
    (refused : l ≠ .mark .comma → l ≠ .mark close → refuses (Token.unexpected ⟨l, q⟩ expected)) :
    Goes tokens start (separator close expected) gives refuses := by
  refine goes_choice token (fun same => ?_) fun noComma => ?_
  · have same := kind_eq_mark.mp same
    exact goes_advance finished token (by simp [same]) (comma same)
  refine goes_choice token (fun same => ?_) fun noClose => ?_
  · exact goes_pure (inside_of_token token) (closes (kind_eq_mark.mp same))
  · exact goes_refuse token (refused (noComma ∘ kind_eq_mark.mpr) (noClose ∘ kind_eq_mark.mpr))

end Token

end

/-! ## Loops -/

section

variable {α : Type} {tokens : List Token} {refuses : PipelineError → Prop}
  {test : α → Routine Bool} {body : α → Routine α} {keeps gives : α → Nat → Prop}

/-- The turns of a loop keep an invariant. Each ends at a later place than the one before, so there are
no more of them than tokens were left when the loop was entered. -/
theorem goes_turns {entered : Nat}
    (turn : ∀ a place, entered ≤ place → place < tokens.length → keeps a place →
      Goes tokens place (test a) (fun going there => there = place ∧
        if going = true then
          Goes tokens place (body a) (fun a later => place < later ∧ keeps a later) refuses
        else gives a place) refuses)
    {bound made start : Nat} {a : α} (inside : start < tokens.length)
    (enough : tokens.length - start ≤ bound) (counted : entered + made ≤ start)
    (kept : keeps a start) :
    Goes tokens start (turns test body entered bound made a) gives refuses := by
  induction bound generalizing made start a with
  | zero => omega
  | succ bound ih =>
    refine .bind ((turn a start (by omega) inside kept).imp ?_ fun _ refused => refused)
    rintro going _ - ⟨rfl, goes⟩
    cases going with
    | false => exact goes_pure inside goes
    | true =>
      -- Each turn that was made took a token behind `entered`, and this one finds another.
      have within : (Event.turn entered (made + 1)).Within tokens.length := by
        show entered + (made + 1) ≤ tokens.length
        omega
      refine .bind (goes_note inside within (.bind (goes.imp ?_ fun _ refused => refused)))
      rintro a later inside ⟨onward, kept⟩
      exact ih inside (by omega) (by omega) kept

/-- A loop keeps what each of its turns keeps, and ends where the test says so. -/
theorem goes_loop {bound start : Nat} {a : α} (inside : start < tokens.length)
    (enough : tokens.length - start ≤ bound) (kept : keeps a start)
    (turn : ∀ a place, start ≤ place → place < tokens.length → keeps a place →
      Goes tokens place (test a) (fun going there => there = place ∧
        if going = true then
          Goes tokens place (body a) (fun a later => place < later ∧ keeps a later) refuses
        else gives a place) refuses) :
    Goes tokens start (loop test body bound a) gives refuses :=
  .bind (goes_here inside (goes_turns turn inside enough (Nat.le_refl _) kept))

end

/-- A loop up to a mark ends behind that mark. -/
theorem goes_loopTo {α : Type} {tokens : List Token} {refuses : PipelineError → Prop}
    {body : α → Routine α} {keeps gives : α → Nat → Prop} {close : Mark} {bound start : Nat} {a : α}
    (finished : Finished tokens) (inside : start < tokens.length)
    (enough : tokens.length - start ≤ bound) (kept : keeps a start)
    (turn : ∀ a place, start ≤ place → place < tokens.length → keeps a place →
      (∀ q rest, tokens.drop place ≠ ⟨.mark close, q⟩ :: rest) →
      Goes tokens place (body a) (fun a later => place < later ∧ keeps a later) refuses)
    (closed : ∀ a place q, start ≤ place → place + 1 < tokens.length → keeps a place →
      tokens.drop place = ⟨.mark close, q⟩ :: tokens.drop (place + 1) → gives a (place + 1)) :
    Goes tokens start (loopTo close body bound a) gives refuses := by
  refine .bind (goes_loop inside enough kept fun a place onward inside kept => ?_)
  obtain ⟨l, q, token⟩ := exists_token inside
  refine .bind (goes_check token (goes_pure inside ⟨rfl, ?_⟩))
  by_cases closes : l.kind = .mark close
  · rw [if_neg (by simp [closes])]
    have mark := kind_eq_mark.mp closes
    subst mark
    refine .bind (goes_choice token (fun _ => ?_) fun other => absurd closes other)
    refine goes_advance finished token (by simp) fun behind => goes_pure behind ?_
    exact closed a place q onward behind kept token
  · rw [if_pos (by simp [closes])]
    exact turn a place onward inside kept (no_mark_of_token token closes)

/-! ## Routines and readers -/

/-- A routine does what the reader does whose result this is with the tokens from a place on, and ends
at some other place or behind it. -/
def Reads {α : Type} (tokens : List Token) (start least : Nat) (routine : Routine α)
    (x : Except PipelineError (α × List Token)) : Prop :=
  Goes tokens start routine (fun a place => least ≤ place ∧ x = .ok (a, tokens.drop place))
    (x = .error ·)

section

variable {α β γ : Type} {tokens : List Token} {start least : Nat} {routine : Routine α}
  {next : α → Routine β} {gives : β → Nat → Prop} {whole : Except PipelineError γ}

/-- What a reader gives may be given a name first. -/
theorem reads_of {x : Except PipelineError (α × List Token)}
    (goes : ∀ whole, whole = x → Goes tokens start routine
      (fun a place => least ≤ place ∧ whole = .ok (a, tokens.drop place)) (whole = .error ·)) :
    Reads tokens start least routine x := goes x rfl

/-- A routine that ends this far on ends farther on than any place before. -/
theorem Reads.weaken {x : Except PipelineError (α × List Token)} {least' : Nat}
    (reads : Reads tokens start least routine x) (le : least' ≤ least) :
    Reads tokens start least' routine x :=
  Goes.imp reads (fun _ _ _ given => ⟨Nat.le_trans le given.1, given.2⟩) fun _ failed => failed

/-- Behind a routine that reads the first part of a whole the rest of it is left. -/
theorem Reads.bind {x : Except PipelineError (α × List Token)}
    {g : α × List Token → Except PipelineError γ} (reads : Reads tokens start least routine x)
    (same : whole = x >>= g)
    (rest : ∀ a place, least ≤ place → place < tokens.length → whole = g (a, tokens.drop place) →
      Goes tokens place (next a) gives (whole = .error ·)) :
    Goes tokens start (routine >>= next) gives (whole = .error ·) := by
  refine .bind (Goes.imp reads ?_ ?_)
  · rintro a place inside ⟨onward, read⟩
    refine rest a place onward inside ?_
    rw [same, read]
    rfl
  · rintro e failed
    rw [same, failed]
    rfl

/-- Behind a mark the rest of the whole is left. -/
theorem goes_expect {m : Mark} {g : List Token → Except PipelineError γ} {next : Unit → Routine β}
    (finished : Finished tokens) (inside : start < tokens.length)
    (same : whole = takeMark m (tokens.drop start) >>= g)
    (rest : start + 1 < tokens.length → whole = g (tokens.drop (start + 1)) →
      Goes tokens (start + 1) (next ()) gives (whole = .error ·)) :
    Goes tokens start (expect (.mark m) >>= next) gives (whole = .error ·) := by
  obtain ⟨l, q, token⟩ := exists_token inside
  rw [token] at same
  refine .bind (goes_choice token (fun found => ?_) fun other => ?_)
  · have found := kind_eq_mark.mp found
    refine goes_advance finished token (by simp [found]) fun behind => rest behind ?_
    rw [same, found, takeMark, if_pos rfl]
    rfl
  · refine goes_refuse token ?_
    rw [same, takeMark, if_neg (other ∘ kind_eq_mark.mpr)]
    rfl

end

section

variable {tokens : List Token} {start : Nat}

/-- A word is read, and one token taken. -/
theorem reads_word (finished : Finished tokens) (inside : start < tokens.length) :
    Reads tokens start (start + 1) (expectText .word) (takeWord (tokens.drop start)) := by
  obtain ⟨l, q, token⟩ := exists_token inside
  rw [token]
  by_cases word : l.kind = .word
  · obtain ⟨name, rfl⟩ := kind_eq_word.mp word
    exact goes_expectText finished token rfl (by simp) fun _ => ⟨Nat.le_refl _, rfl⟩
  · refine goes_choice token (fun same => absurd same word) fun _ => goes_refuse token ?_
    exact takeWord.eq_2 _ fun name p rest same => word (by cases same; rfl)

/-- A name, which is a word or a text, is read, and one token taken. -/
theorem reads_name {expected : String} (finished : Finished tokens) (inside : start < tokens.length) :
    Reads tokens start (start + 1) (expectName expected) (takeName expected (tokens.drop start)) := by
  obtain ⟨l, q, token⟩ := exists_token inside
  rw [token]
  refine Goes.bind (goes_current token ?_)
  cases l with
  | word name | text name =>
    exact goes_expectText finished token rfl (by simp) fun _ => ⟨Nat.le_refl _, rfl⟩
  | _ => exact goes_refuse token rfl

end

end Pipework.Script.Cursor
