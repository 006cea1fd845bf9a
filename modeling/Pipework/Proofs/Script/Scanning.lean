import Pipework.Proofs.Outcome
import Pipework.Script.Scan

/-!
# What a scan that succeeds has seen

`pieceAt` decides by the first character what starts at a place. `pieceAt_cases` lists the six
things it can be, and `scanFrom_cons_eq_ok` says how a scan goes on behind a piece; everything else
about tokens that were scanned follows from these two by induction on the length of the text.
-/

namespace Pipework.Script

/-! ## Lexemes -/

/-- The lexemes of tokens. -/
abbrev lexemes (ts : List Token) : List Lexeme := ts.map Token.lexeme

/-- Tokens whose first lexeme is known. -/
theorem lexemes_eq_cons {ts : List Token} {l : Lexeme} {tail : List Lexeme} :
    lexemes ts = l :: tail ↔ ∃ p rest, ts = ⟨l, p⟩ :: rest ∧ lexemes rest = tail := by
  rw [lexemes, List.map_eq_cons_iff]
  constructor
  · rintro ⟨⟨_, p⟩, rest, rfl, rfl, rfl⟩
    exact ⟨p, rest, rfl, rfl⟩
  · rintro ⟨p, rest, rfl, rfl⟩
    exact ⟨⟨l, p⟩, rest, rfl, rfl, rfl⟩

/-! ## Pieces -/

/-- What may start at a place, and how far it reaches. -/
theorem pieceAt_cases {before : Option Char} {c : Char} {cs : List Char} {piece : Piece}
    {extra : Nat} (h : pieceAt before c cs = some (piece, extra)) :
    (∃ m, Mark.ofChar? c = some m ∧ piece = .lexeme (.mark m) ∧ extra = 0) ∨
    ((c = '"' ∨ c = '\'') ∧ ∃ body, quotedBody c cs = some body ∧ extra = body.length + 1 ∧
      piece = .lexeme (.text (String.ofList (unescape body)))) ∨
    (∃ raw, numeral? (c :: cs) = some raw ∧ extra = raw.length - 1 ∧
      ((∃ n, numeralValue? raw = some n ∧ piece = .lexeme (.number n)) ∨
        (numeralValue? raw = none ∧ piece = .numberOutOfRange))) ∨
    (isWordStart c ∧ numeral? (c :: cs) = none ∧ (piece, extra) = wordPiece before c cs) ∨
    (Text.isBlank c ∧ piece = .trivia ∧ extra = (cs.takeWhile Text.isBlank).length) ∨
    (c = '#' ∧ piece = .trivia ∧ extra = (cs.takeWhile (· != '\n')).length) := by
  unfold pieceAt at h
  split at h
  next m mark =>
    cases h
    exact .inl ⟨m, mark, rfl, rfl⟩
  split at h
  next quote =>
    obtain ⟨body, hbody, h⟩ := Option.map_eq_some_iff.mp h
    cases h
    exact .inr (.inl ⟨quote, body, hbody, rfl, rfl⟩)
  split at h
  next raw numeral =>
    split at h
    next n value =>
      cases h
      exact .inr (.inr (.inl ⟨raw, numeral, rfl, .inl ⟨n, value, rfl⟩⟩))
    next none =>
      cases h
      exact .inr (.inr (.inl ⟨raw, numeral, rfl, .inr ⟨none, rfl⟩⟩))
  next none =>
    split at h
    next start => exact .inr (.inr (.inr (.inl ⟨start, none, (Option.some.inj h).symm⟩)))
    split at h
    next blank =>
      cases h
      exact .inr (.inr (.inr (.inr (.inl ⟨blank, rfl, rfl⟩))))
    split at h
    next hash =>
      cases h
      exact .inr (.inr (.inr (.inr (.inr ⟨hash, rfl, rfl⟩))))
    · cases h

/-- What starts where a word may start is the word itself or a boolean. -/
theorem wordPiece_cases (before : Option Char) (c : Char) (cs : List Char) :
    (∃ b, boolean? (String.ofList (c :: cs.takeWhile isWordChar)) = some b ∧
        (wordPiece before c cs).1 = .lexeme (.bool b)) ∨
      (wordPiece before c cs).1 =
        .lexeme (.word (String.ofList (c :: cs.takeWhile isWordChar))) := by
  simp only [wordPiece, spelledPiece]
  cases word : boolean? (String.ofList (c :: cs.takeWhile isWordChar)) with
  | none => exact .inr rfl
  | some b =>
    simp only
    split
    · exact .inl ⟨b, rfl, rfl⟩
    · exact .inr rfl

/-- What starts where a word may start reaches as far as the characters of words do. -/
theorem wordPiece_snd (before : Option Char) (c : Char) (cs : List Char) :
    (wordPiece before c cs).2 = (cs.takeWhile isWordChar).length := by
  simp only [wordPiece, spelledPiece]
  split <;> rfl

/-- What a lexeme may be, and where it says something of what it was read from. -/
theorem lexeme_cases {before : Option Char} {c : Char} {cs : List Char} {l : Lexeme} {extra : Nat}
    (h : pieceAt before c cs = some (.lexeme l, extra)) :
    (∃ m, l = .mark m) ∨ (∃ s, l = .text s) ∨
      (∃ raw n, numeralValue? raw = some n ∧ l = .number n) ∨ (∃ b, l = .bool b) ∨
      (isWordStart c ∧ ∃ name, l = .word name) := by
  rcases pieceAt_cases h with ⟨m, _, h, _⟩ | ⟨_, body, _, _, h⟩ |
    ⟨raw, _, _, ⟨n, value, h⟩ | ⟨_, h⟩⟩ | ⟨start, _, h⟩ | ⟨_, h, _⟩ | ⟨_, h, _⟩
  case inl => exact .inl ⟨m, Piece.lexeme.inj h⟩
  case inr.inl => exact .inr (.inl ⟨_, Piece.lexeme.inj h⟩)
  case inr.inr.inl.inl => exact .inr (.inr (.inl ⟨raw, n, value, Piece.lexeme.inj h⟩))
  case inr.inr.inr.inl =>
    rcases wordPiece_cases before c cs with ⟨b, _, word⟩ | word <;> rw [← h] at word
    · exact .inr (.inr (.inr (.inl ⟨b, Piece.lexeme.inj word⟩)))
    · exact .inr (.inr (.inr (.inr ⟨start, _, Piece.lexeme.inj word⟩)))
  all_goals cases h

/-- The end is no piece of a text. -/
theorem pieceAt_ne_finish {before : Option Char} {c : Char} {cs : List Char} {extra : Nat} :
    pieceAt before c cs ≠ some (.lexeme .finish, extra) := by
  intro h
  rcases lexeme_cases h with ⟨_, h⟩ | ⟨_, h⟩ | ⟨_, _, _, h⟩ | ⟨_, h⟩ | ⟨_, _, h⟩ <;> cases h

/-! ## Scans -/

/-- A scan succeeds when there is a piece at the front and the scan behind the piece succeeds. -/
theorem scanFrom_cons_eq_ok {position : Position} {before : Option Char} {c : Char}
    {cs : List Char} {ts : List Token} :
    scanFrom position before (c :: cs) = .ok ts ↔
      ∃ piece extra ts', pieceAt before c cs = some (piece, extra) ∧
        scanFrom (position.advance (c :: cs.take extra)) (c :: cs.take extra).getLast?
          (cs.drop extra) = .ok ts' ∧
        ((piece = .trivia ∧ ts = ts') ∨ ∃ l, piece = .lexeme l ∧ ts = ⟨l, position⟩ :: ts') := by
  rw [scanFrom]
  split
  next none =>
    simp only [none, reduceCtorEq, false_and, exists_false]
  next piece extra some =>
    simp only [some, Option.some.injEq, Prod.mk.injEq]
    cases piece with
    | trivia =>
      simp only
      constructor
      · intro h
        exact ⟨_, _, ts, ⟨rfl, rfl⟩, h, .inl ⟨rfl, rfl⟩⟩
      · rintro ⟨_, _, ts', ⟨rfl, rfl⟩, h, ⟨-, rfl⟩ | ⟨l, h', _⟩⟩
        · exact h
        · cases h'
    | lexeme l =>
      simp only [Outcome.map_eq_ok]
      constructor
      · rintro ⟨ts', h, rfl⟩
        exact ⟨_, _, ts', ⟨rfl, rfl⟩, h, .inr ⟨l, rfl, rfl⟩⟩
      · rintro ⟨_, _, ts', ⟨rfl, rfl⟩, h, ⟨h', _⟩ | ⟨l, h', rfl⟩⟩
        · cases h'
        · cases h'
          exact ⟨ts', h, rfl⟩
    | numberOutOfRange =>
      simp only [reduceCtorEq, false_iff]
      rintro ⟨_, _, ts', ⟨rfl, rfl⟩, _, ⟨h, _⟩ | ⟨l, h, _⟩⟩ <;> cases h

/-- The mark of the end stands behind the other tokens and nowhere else. -/
theorem scanFrom_terminated (cs : List Char) {position : Position} {before : Option Char}
    {ts : List Token} (h : scanFrom position before cs = .ok ts) :
    ∃ body, lexemes ts = body ++ [.finish] ∧ .finish ∉ body := by
  match cs with
  | [] =>
    rw [scanFrom] at h
    cases h
    exact ⟨[], rfl, List.not_mem_nil⟩
  | c :: cs =>
    obtain ⟨piece, extra, ts', found, rest, this⟩ := scanFrom_cons_eq_ok.mp h
    obtain ⟨body, spelled, inner⟩ := scanFrom_terminated (cs.drop extra) rest
    rcases this with ⟨-, rfl⟩ | ⟨l, rfl, rfl⟩
    · exact ⟨body, spelled, inner⟩
    · refine ⟨l :: body, congrArg (l :: ·) spelled, ?_⟩
      rw [List.mem_cons, not_or]
      refine ⟨?_, inner⟩
      rintro rfl
      exact pieceAt_ne_finish found
termination_by cs.length
decreasing_by rw [List.length_drop, List.length_cons]; omega

/-- In the tokens of a text, nothing stands behind the mark of the end. -/
theorem tokenize_ends {text : String} {ts : List Token} (h : tokenize text = .ok ts)
    {front beyond : List Lexeme} (spelled : lexemes ts = front ++ .finish :: beyond) :
    beyond = [] := by
  obtain ⟨body, terminated, inner⟩ := scanFrom_terminated text.toList h
  rw [terminated] at spelled
  rcases List.eq_nil_or_concat beyond with rfl | ⟨between, last, rfl⟩
  · rfl
  · rw [List.concat_eq_append, ← List.cons_append, ← List.append_assoc] at spelled
    obtain ⟨rfl, -⟩ := List.append_inj' spelled rfl
    exact absurd (List.mem_append_right _ List.mem_cons_self) inner

end Pipework.Script
