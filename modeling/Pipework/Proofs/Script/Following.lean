import Pipework.Proofs.Outcome
import Pipework.Proofs.Script.Grammar
import Pipework.Proofs.Script.Scanning

/-!
# Where reading fails

What is left of a script at some point of reading it has to be a word of a language: the words that may
stand there up to the end. Reading fails at a token if the tokens in front of it still begin such a
word, and with it they do not (`Fails`).

`Follows L K left ts x` says that `x` reads the first part of what is to be a word of `L` and leaves what
is to be a word of `K`: where it fails, reading a word of `L` fails there; and where it succeeds, reading
a word of `L` fails where reading a word of `K` from the tokens that it leaves does. So the links of a
chain follow each other (`Follows.bind`), and a link has to be looked at only up to its own end. That no
two words go apart later is never needed: the next lexeme tells what L becomes behind it
(`Follows.shift`), or which of its alternatives is meant (`Follows.narrow`).
-/

namespace Pipework.Script

open Grammar

/-! ## Beginnings of words -/

/-- The lexemes begin a word of the language. -/
def Begins (L : Language Lexeme) (ls : List Lexeme) : Prop := ∃ w ∈ L, ls <+: w

section

variable {L L' : Language Lexeme} {l : Lexeme} {ls : List Lexeme}

theorem begins_nil (some : HasWord L) : Begins L [] := by
  obtain ⟨w, mem⟩ := some
  exact ⟨w, mem, List.nil_prefix⟩

/-- Behind a lexeme words begin as those that it stands in front of. -/
theorem begins_cons (same : ∀ w, l :: w ∈ L ↔ w ∈ L') : Begins L (l :: ls) ↔ Begins L' ls := by
  constructor
  · rintro ⟨w, mem, v, rfl⟩
    exact ⟨ls ++ v, (same _).mp mem, List.prefix_append ls v⟩
  · rintro ⟨w, mem, before⟩
    exact ⟨l :: w, (same w).mpr mem, List.cons_prefix_cons.mpr ⟨rfl, before⟩⟩

/-- What begins a word begins one with the same first lexeme. -/
theorem Begins.narrow (only : ∀ w, l :: w ∈ L → l :: w ∈ L') (begins : Begins L (l :: ls)) :
    Begins L' (l :: ls) := by
  obtain ⟨w, mem, v, rfl⟩ := begins
  exact ⟨_, only _ mem, List.prefix_append _ v⟩

end

/-! ## Failures -/

/-- Reading a word of the language from the tokens fails. The error names the first token that does not
fit: up to it the tokens begin a word, and with it they do not. Or it is about a parameter given twice,
and names one of the tokens. -/
inductive Fails (L : Language Lexeme) : List Token → PipelineError → Prop
  | unexpected {before behind : List Token} {t : Token} (expected : String)
      (viable : Begins L (lexemes before)) (dead : ¬ Begins L (lexemes (before ++ [t]))) :
      Fails L (before ++ t :: behind) (t.unexpected expected)
  | repeated {before behind : List Token} {t : Token} (found : String) :
      Fails L (before ++ t :: behind)
        (.malformed "unique parameter names" found t.position.line t.position.column)

/-- There is an end among the tokens. -/
abbrev Ended (ts : List Token) : Prop := Lexeme.finish ∈ lexemes ts

section

variable {L L' : Language Lexeme} {l : Lexeme} {q : Position} {ts rest : List Token}
  {e : PipelineError}

theorem Ended.exists_cons (ended : Ended ts) : ∃ l q rest, ts = ⟨l, q⟩ :: rest := by
  cases ts with
  | nil => cases ended
  | cons t rest => exact ⟨t.lexeme, t.position, rest, rfl⟩

theorem Ended.tail (ended : Ended (⟨l, q⟩ :: rest)) (other : l ≠ .finish) : Ended rest :=
  (List.mem_cons.mp ended).resolve_left (Ne.symm other)

theorem Ended.tail_mark {m : Mark} (ended : Ended (⟨.mark m, q⟩ :: rest)) : Ended rest :=
  ended.tail nofun

/-- A first lexeme that no word has fails to fit. -/
theorem fails_first (some : HasWord L) (none : ∀ w, l :: w ∉ L) (expected : String) :
    Fails L (⟨l, q⟩ :: rest) (Token.unexpected ⟨l, q⟩ expected) := by
  refine @Fails.unexpected L [] rest ⟨l, q⟩ expected (begins_nil some) ?_
  rintro ⟨w, mem, v, rfl⟩
  exact none _ mem

/-- What fails behind a lexeme fails with it in front. -/
theorem Fails.shift (same : ∀ w, l :: w ∈ L ↔ w ∈ L') (fails : Fails L' rest e) :
    Fails L (⟨l, q⟩ :: rest) e := by
  cases fails with
  | @unexpected before behind t expected viable dead =>
    exact @Fails.unexpected L (⟨l, q⟩ :: before) behind t expected ((begins_cons same).mpr viable)
      fun begins => dead ((begins_cons same).mp begins)
  | @repeated before behind t found => exact @Fails.repeated L (⟨l, q⟩ :: before) behind t found

/-- What fails among the words with the first lexeme fails among all. -/
theorem Fails.narrow (sub : ∀ w, w ∈ L' → w ∈ L) (only : ∀ w, l :: w ∈ L → l :: w ∈ L')
    (fails : Fails L' (⟨l, q⟩ :: rest) e) : Fails L (⟨l, q⟩ :: rest) e := by
  generalize same : (⟨l, q⟩ :: rest : List Token) = ts at fails
  cases fails with
  | @unexpected before behind t expected viable dead =>
    obtain ⟨w, mem, begins⟩ := viable
    refine .unexpected expected ⟨w, sub w mem, begins⟩ fun begins => dead ?_
    have first : ∃ ls, lexemes (before ++ [t]) = l :: ls := by
      cases before with
      | nil => cases same; exact ⟨[], rfl⟩
      | cons t' before => cases same; exact ⟨lexemes (before ++ [t]), rfl⟩
    obtain ⟨ls, first⟩ := first
    rw [first] at begins ⊢
    exact begins.narrow only
  | repeated found => exact .repeated found

end

/-! ## Readers -/

/-- `x` reads the beginning of a word of `L` from the tokens and leaves a word of `K`. -/
structure Follows {α : Type} (L K : Language Lexeme) (left : α → List Token) (ts : List Token)
    (x : Except PipelineError α) : Prop where
  error : ∀ e, x = .error e → Fails L ts e
  taken : ∀ a, x = .ok a → ∃ front, ts = front ++ left a ∧ .finish ∉ lexemes front
  ok : ∀ a, x = .ok a → ∀ e, Fails K (left a) e → Fails L ts e

section

variable {α β : Type} {L L' K M : Language Lexeme} {left : α → List Token} {left' : β → List Token}
  {l : Lexeme} {q : Position} {ts rest : List Token} {x : Except PipelineError α} {a : α}

/-- Behind what was read there is still an end. -/
theorem Follows.ended (follows : Follows L K left ts x) (read : x = .ok a) (ended : Ended ts) :
    Ended (left a) := by
  obtain ⟨front, rfl, noFinish⟩ := follows.taken a read
  rw [Ended, lexemes, List.map_append, List.mem_append] at ended
  exact ended.resolve_left noFinish

/-- Behind what was read there are no more tokens than before. -/
theorem Follows.length_le (follows : Follows L K left ts x) (read : x = .ok a) :
    (left a).length ≤ ts.length := by
  obtain ⟨front, rfl, -⟩ := follows.taken a read
  rw [List.length_append]
  omega

/-- A reader goes on where the one before it has ended. -/
theorem Follows.after (first : Follows L M left ts x) (read : x = .ok a)
    {y : Except PipelineError β} (second : Follows M K left' (left a) y) :
    Follows L K left' ts y where
  error e failed := first.ok a read e (second.error e failed)
  taken b read' := by
    obtain ⟨front, split, noFinish⟩ := first.taken a read
    obtain ⟨front', split', noFinish'⟩ := second.taken b read'
    refine ⟨front ++ front', by rw [split, split', List.append_assoc], ?_⟩
    rw [lexemes, List.map_append, List.mem_append, not_or]
    exact ⟨noFinish, noFinish'⟩
  ok b read' e fails := first.ok a read e (second.ok b read' e fails)

/-- A chain follows if it does where its first link succeeds. -/
theorem Follows.chain {f : α → Except PipelineError β} (first : Follows L M left ts x)
    (second : ∀ a, x = .ok a → Follows L K left' ts (f a)) : Follows L K left' ts (x >>= f) := by
  cases x with
  | error e =>
    have failed := first.error e rfl
    exact ⟨fun e' same => by cases same; exact failed, nofun, nofun⟩
  | ok a => exact second a rfl

/-- The links of a chain follow each other. -/
theorem Follows.bind {f : α → Except PipelineError β} (ended : Ended ts)
    (first : Follows L M left ts x)
    (second : ∀ a, Ended (left a) → (left a).length ≤ ts.length →
      Follows M K left' (left a) (f a)) : Follows L K left' ts (x >>= f) :=
  first.chain fun a read =>
    first.after read (second a (first.ended read ended) (first.length_le read))

/-- The links of a chain follow each other, each handing over the tokens that it leaves. -/
theorem Follows.bind_pair {x : Except PipelineError (α × List Token)}
    {f : α × List Token → Except PipelineError β} (ended : Ended ts)
    (first : Follows L M Prod.snd ts x)
    (second : ∀ a rest, Ended rest → rest.length ≤ ts.length →
      Follows M K left' rest (f (a, rest))) : Follows L K left' ts (x >>= f) :=
  first.bind ended fun read => second read.1 read.2

/-- A link that gives nothing but the tokens that it leaves. -/
theorem Follows.bind_rest {x : Except PipelineError (List Token)}
    {f : List Token → Except PipelineError β} (ended : Ended ts) (first : Follows L M id ts x)
    (second : ∀ rest, Ended rest → rest.length ≤ ts.length → Follows M K left' rest (f rest)) :
    Follows L K left' ts (x >>= f) :=
  first.bind ended second

/-- What takes no token leaves the language as it is. -/
theorem follows_ok (same : left a = ts) : Follows K K left ts (.ok a) where
  error _ failed := nomatch failed
  taken b read := by
    cases read
    exact ⟨[], same.symm, nofun⟩
  ok b read e fails := by
    cases read
    rwa [same] at fails

/-- What was read comes with the tokens that are left. -/
theorem follows_pair (a : α) : Follows K K Prod.snd ts (.ok (a, ts)) := follows_ok rfl

/-- A first lexeme that no word has is refused. -/
theorem follows_fail (some : HasWord L) (none : ∀ w, l :: w ∉ L) (expected : String) :
    Follows L K left (⟨l, q⟩ :: rest) (fail expected (⟨l, q⟩ :: rest)) where
  error e failed := by
    cases failed
    exact fails_first some none expected
  taken _ read := nomatch read
  ok _ read := nomatch read

/-- The error of a parameter given twice names a token. -/
theorem follows_repeated (found : String) : Follows L K left (⟨l, q⟩ :: rest)
    (.error (.malformed "unique parameter names" found q.line q.column)) where
  error e failed := by
    cases failed
    exact @Fails.repeated L [] rest ⟨l, q⟩ found
  taken _ read := nomatch read
  ok _ read := nomatch read

/-- A reader that begins with a lexeme reads on behind it. -/
theorem Follows.shift (noFinish : l ≠ .finish) (same : ∀ w, l :: w ∈ L ↔ w ∈ L')
    (follows : Follows L' K left rest x) : Follows L K left (⟨l, q⟩ :: rest) x where
  error e failed := (follows.error e failed).shift same
  taken a read := by
    obtain ⟨front, rfl, inside⟩ := follows.taken a read
    refine ⟨⟨l, q⟩ :: front, rfl, ?_⟩
    rw [lexemes, List.map_cons, List.mem_cons, not_or]
    exact ⟨noFinish.symm, inside⟩
  ok a read e fails := (follows.ok a read e fails).shift same

/-- A reader need only follow the words with the first lexeme. -/
theorem Follows.narrow (sub : ∀ w, w ∈ L' → w ∈ L) (only : ∀ w, l :: w ∈ L → l :: w ∈ L')
    (follows : Follows L' K left (⟨l, q⟩ :: rest) x) : Follows L K left (⟨l, q⟩ :: rest) x where
  error e failed := (follows.error e failed).narrow sub only
  taken := follows.taken
  ok a read e fails := (follows.ok a read e fails).narrow sub only

/-- A lexeme of a class is taken, and any other refused. -/
theorem follows_single {p : Lexeme → Prop} {expected : String} (some : HasWord (single p * K))
    (noFinish : ¬ p .finish) (taken : p l → ∃ a, x = .ok a ∧ left a = rest)
    (refused : ¬ p l → x = fail expected (⟨l, q⟩ :: rest)) :
    Follows (single p * K) K left (⟨l, q⟩ :: rest) x := by
  by_cases good : p l
  · obtain ⟨a, rfl, behind⟩ := taken good
    have same : ∀ w, l :: w ∈ single p * K ↔ w ∈ K := by
      intro w
      rw [cons_mem_single_mul, and_iff_right good]
    exact (follows_ok behind).shift (fun same => noFinish (same ▸ good)) same
  · rw [refused good]
    exact follows_fail some (fun w mem => good (cons_mem_single_mul.mp mem).1) expected

end

end Pipework.Script
