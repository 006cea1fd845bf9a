import Mathlib.Data.List.Chain
import Mathlib.Tactic.SplitIfs
import Pipework.Proofs.Script.Lexing

/-!
# What the tokens of a text are like

Two things about tokens that were scanned make what is read from them something a script can say
again: every number fits, and behind a mark stands no word that spells a boolean.

The second holds although `true` is a word where something touches it. What can touch it from the
left is a number only, as every other piece either ends with a character that touches nothing or
reaches as far as words do; and from the right a digit that is not ASCII, which begins no number
that has a value. So it is a matter of neighbours, and `MayFollow` says it of any two of them.
-/

namespace Pipework.Script

/-! ## Numbers -/

/-- A whole number below the range of signed words fits. -/
theorem fits_of_ofInt? {i : Int} {n : Number} (low : i < 9223372036854775808)
    (whole : Number.ofInt? i = some n) : n.Fits := by
  unfold Number.ofInt? at whole
  split at whole
  · cases whole
    exact low
  · cases whole

/-- The value of a spelling fits. -/
theorem fits_of_numeralValue? {raw : List Char} {n : Number} (value : numeralValue? raw = some n) :
    n.Fits := by
  have double : (Double.ofText? raw).map Number.double = some n → n.Fits := by
    intro found
    obtain ⟨x, -, rfl⟩ := Option.map_eq_some_iff.mp found
    exact trivial
  simp only [numeralValue?] at value
  split_ifs at value with all negative range range
  · exact fits_of_ofInt? range.2 value
  · exact double value
  · exact fits_of_ofInt? range.2 value
  · exact double value
  · exact double value

/-- A digit that is not ASCII begins no number that has a value. -/
theorem numeralValue?_eq_none {c : Char} {cs : List Char} (digit : Text.isDigit c = true)
    (other : isAsciiDigit c = false) : numeralValue? (c :: cs) = none := by
  have minus : c ≠ '-' := by rintro rfl; revert digit; decide +kernel
  have plus : c ≠ '+' := by rintro rfl; revert digit; decide +kernel
  have point : c ≠ '.' := by rintro rfl; revert digit; decide +kernel
  have unsigned : Decimal.takeSign (c :: cs) = (false, c :: cs) := by
    unfold Decimal.takeSign
    split
    next same => exact absurd (List.cons.inj same).1 minus
    next same => exact absurd (List.cons.inj same).1 plus
    next => rfl
  have unread : Decimal.ofText? (c :: cs) = none := by
    have none : (c :: cs).takeWhile isAsciiDigit = [] := by simp [other]
    have all : (c :: cs).dropWhile isAsciiDigit = c :: cs := by simp [other]
    simp [Decimal.ofText?, unsigned, none, all, point]
  simp [numeralValue?, unsigned, other, Double.ofText?, unread]

/-- A digit that is not ASCII is out of range. -/
theorem pieceAt_of_not_isAsciiDigit (before : Option Char) {c : Char} (cs : List Char)
    (digit : Text.isDigit c = true) (other : isAsciiDigit c = false) :
    ∃ extra, pieceAt before c cs = some (.numberOutOfRange, extra) := by
  obtain ⟨noMark, noQuote⟩ := undecided digit (by decide +kernel)
  have minus : c ≠ '-' := by rintro rfl; revert digit; decide +kernel
  obtain ⟨raw, spelling⟩ : ∃ raw, numeral? (c :: cs) = some (c :: raw) := by
    rw [numeral?_of_ne_minus minus]
    simp only [unsigned?, List.takeWhile_cons, digit, ↓reduceIte, List.nil_append]
    split
    next none => cases none
    next => exact ⟨_, rfl⟩
    next => exact ⟨_, rfl⟩
  refine ⟨(c :: raw).length - 1, ?_⟩
  simp only [pieceAt, noMark, noQuote, ↓reduceIte, spelling, numeralValue?_eq_none digit other]

/-- Where a scan succeeds no digit stands but an ASCII one. -/
theorem isAsciiDigit_of_scanned {position : Position} {before : Option Char} {c : Char}
    {cs : List Char} {ts : List Token} (scanned : scanFrom position before (c :: cs) = .ok ts)
    (digit : Text.isDigit c = true) : isAsciiDigit c = true := by
  by_contra other
  obtain ⟨piece, extra, ts', found, -, taken⟩ := scanFrom_cons_eq_ok.mp scanned
  obtain ⟨extra', outOfRange⟩ :=
    pieceAt_of_not_isAsciiDigit before cs digit (Bool.eq_false_iff.mpr other)
  rw [outOfRange] at found
  cases found
  rcases taken with ⟨h, -⟩ | ⟨l, h, -⟩ <;> cases h

/-! ## Characters beside words -/

/-- A word goes on with what it may begin with and with ASCII digits. -/
theorem isWordChar_iff {c : Char} :
    isWordChar c = true ↔ isWordStart c = true ∨ isAsciiDigit c = true := by
  simp only [isWordChar, isWordStart, isAsciiDigit_eq, Char.isAlphanum, Bool.or_eq_true]
  tauto

/-- A letter or a digit touches a word, and so does an underscore. -/
theorem touches_iff {c : Char} :
    touches c = true ↔ isWordStart c = true ∨ Text.isDigit c = true := by
  simp only [touches, Bool.or_eq_true, isWordChar_iff]
  constructor
  · rintro ((start | digit) | digit)
    · exact .inl start
    · exact .inr (Text.isDigit_of_isAsciiDigit digit)
    · exact .inr digit
  · rintro (start | digit)
    · exact .inl (.inl start)
    · exact .inr digit

theorem touches_char (m : Mark) : touches m.char = false := by
  cases m <;> decide +kernel

theorem touches_of_isBlank {c : Char} (blank : Text.isBlank c = true) : touches c = false := by
  rw [← Bool.not_eq_true, touches_iff, not_or]
  constructor
  · rw [isWordStart_of_isBlank blank]
    exact Bool.false_ne_true
  · rw [isDigit_of_isBlank blank]
    exact Bool.false_ne_true

/-! ## The ends of pieces -/

/-- What stands before touches nothing, or no word begins behind it. -/
def Parted (before : Option Char) (rest : List Char) : Prop :=
  before.any touches = false ∨ Text.StopsAt isWordStart rest

/-- A text ends with its quote. -/
theorem eq_of_quotedBody {quote : Char} {cs body : List Char}
    (found : quotedBody quote cs = some body) : ∃ rest, cs = body ++ quote :: rest := by
  fun_induction quotedBody quote cs generalizing body with
  | case1 => cases found
  | case2 => cases found; exact ⟨[], rfl⟩
  | case3 => cases found
  | case4 d cs => cases found; exact ⟨d :: cs, rfl⟩
  | case5 => cases found
  | case6 d cs _ _ ih =>
    obtain ⟨inner, behind, rfl⟩ := Option.map_eq_some_iff.mp found
    obtain ⟨rest, rfl⟩ := ih behind
    exact ⟨rest, rfl⟩
  | case7 c d cs _ _ ih =>
    obtain ⟨inner, behind, rfl⟩ := Option.map_eq_some_iff.mp found
    obtain ⟨rest, same⟩ := ih behind
    exact ⟨rest, congrArg (c :: ·) same⟩

/-- The quote that ends a text touches nothing. -/
theorem untouched_text {quote : Char} {cs body : List Char} (opens : quote = '"' ∨ quote = '\'')
    (found : quotedBody quote cs = some body) :
    (quote :: cs.take (body.length + 1)).getLast?.any touches = false := by
  obtain ⟨rest, rfl⟩ := eq_of_quotedBody found
  have last : (quote :: (body ++ quote :: rest).take (body.length + 1)).getLast? = some quote := by
    simp [List.take_append, List.getLast?_cons]
  rw [last]
  rcases opens with rfl | rfl <;> decide +kernel

/-- The last of some blanks touches nothing. -/
theorem untouched_blanks {c : Char} (cs : List Char) (blank : Text.isBlank c = true) :
    (c :: cs.takeWhile Text.isBlank).getLast?.any touches = false := by
  obtain ⟨last, mem, same⟩ : ∃ last ∈ c :: cs.takeWhile Text.isBlank,
      (c :: cs.takeWhile Text.isBlank).getLast? = some last :=
    ⟨_, List.getLast_mem (List.cons_ne_nil _ _), List.getLast?_eq_some_getLast _⟩
  rw [same]
  rcases List.mem_cons.mp mem with rfl | mem
  · exact touches_of_isBlank blank
  · exact touches_of_isBlank (List.all_eq_true.mp List.all_takeWhile last mem)

/-- Behind a run of a class that words may begin with, no word begins. -/
theorem stopsAt_isWordStart {p : Char → Bool} (cs : List Char)
    (covers : ∀ c, isWordStart c = true → p c = true) :
    Text.StopsAt isWordStart (cs.drop (cs.takeWhile p).length) := by
  rw [Text.drop_length_takeWhile]
  intro c head
  rw [← Bool.not_eq_true]
  intro start
  have outside := Text.stopsAt_dropWhile (p := p) cs c head
  rw [covers c start] at outside
  cases outside

/-- Behind a piece that is no number no word goes on: the piece ends with a character that touches
nothing, or it has taken what a word could begin with. -/
theorem parted_of_pieceAt {before : Option Char} {c : Char} {cs : List Char} {piece : Piece}
    {extra : Nat} (found : pieceAt before c cs = some (piece, extra)) :
    (∃ n, piece = .lexeme (.number n)) ∨ piece = .numberOutOfRange ∨
      Parted (c :: cs.take extra).getLast? (cs.drop extra) := by
  -- Marks, texts and blanks end with a character that touches nothing; words and comments are taken
  -- as far as a word could go on.
  rcases pieceAt_cases found with ⟨m, mark, rfl, rfl⟩ | ⟨quote, body, inner, rfl, rfl⟩ |
    ⟨raw, -, -, ⟨n, -, rfl⟩ | ⟨-, rfl⟩⟩ | ⟨start, -, word⟩ | ⟨blank, rfl, rfl⟩ | ⟨rfl, rfl, rfl⟩
  case inl =>
    rw [← char_of_ofChar? mark]
    exact .inr (.inr (.inl (touches_char m)))
  case inr.inl => exact .inr (.inr (.inl (untouched_text quote inner)))
  case inr.inr.inl.inl => exact .inl ⟨n, rfl⟩
  case inr.inr.inl.inr => exact .inr (.inl rfl)
  case inr.inr.inr.inl =>
    have extent : extra = (cs.takeWhile isWordChar).length :=
      (congrArg Prod.snd word).trans (wordPiece_snd before c cs)
    rw [extent]
    refine .inr (.inr (.inr (stopsAt_isWordStart cs ?_)))
    exact fun d start => isWordChar_iff.mpr (.inl start)
  case inr.inr.inr.inr.inl =>
    rw [Text.take_length_takeWhile]
    exact .inr (.inr (.inl (untouched_blanks cs blank)))
  case inr.inr.inr.inr.inr =>
    refine .inr (.inr (.inr (stopsAt_isWordStart cs ?_)))
    rintro d start
    rw [bne_iff_ne]
    rintro rfl
    cases start

/-! ## Words -/

theorem isWordStart_of_pieceAt {before : Option Char} {c : Char} {cs : List Char} {name : String}
    {extra : Nat} (found : pieceAt before c cs = some (.lexeme (.word name), extra)) :
    isWordStart c = true := by
  rcases lexeme_cases found with ⟨_, h⟩ | ⟨_, h⟩ | ⟨_, _, _, h⟩ | ⟨_, h⟩ | ⟨start, _, _⟩
  case inr.inr.inr.inr => exact start
  all_goals cases h

/-- A word spells no boolean, if nothing touches it from the left and the scan succeeds behind
it. -/
theorem isBareWord_of_pieceAt {before : Option Char} {c : Char} {cs : List Char} {name : String}
    {extra : Nat} {position : Position} {between : Option Char} {ts : List Token}
    (found : pieceAt before c cs = some (.lexeme (.word name), extra))
    (untouched : before.any touches = false)
    (scanned : scanFrom position between (cs.drop extra) = .ok ts) : isBareWord name = true := by
  have start := isWordStart_of_pieceAt found
  rw [pieceAt_of_isWordStart start, Option.some_inj] at found
  -- What touches a word from the right without going on with it is a digit that is not ASCII, and
  -- there the scan would have failed.
  have untouchedBehind : (cs.dropWhile isWordChar).head?.any touches = false := by
    cases head : (cs.dropWhile isWordChar).head? with
    | none => rfl
    | some d =>
      have noWord := Text.stopsAt_dropWhile cs d head
      rw [Option.any_some, touches, noWord, Bool.false_or, ← Bool.not_eq_true]
      intro digit
      have ascii : isAsciiDigit d = true := by
        have extent : extra = (cs.takeWhile isWordChar).length :=
          (congrArg Prod.snd found).symm.trans (wordPiece_snd before c cs)
        rw [extent, Text.drop_length_takeWhile] at scanned
        obtain ⟨tail, behind⟩ := List.head?_eq_some_iff.mp head
        rw [behind] at scanned
        exact isAsciiDigit_of_scanned scanned digit
      rw [isWordChar_iff.mpr (.inr ascii)] at noWord
      cases noWord
  have word : isWord (String.ofList (c :: cs.takeWhile isWordChar)) = true := by
    simp only [isWord, String.toList_ofList, start, List.all_takeWhile, Bool.and_self]
  cases spelled : boolean? (String.ofList (c :: cs.takeWhile isWordChar)) with
  | some b =>
    simp only [wordPiece, spelled, untouched, untouchedBehind, Bool.not_false, Bool.and_self,
      ↓reduceIte, spelledPiece, Prod.mk.injEq, Piece.lexeme.injEq, reduceCtorEq, false_and] at found
  | none =>
    simp only [wordPiece, spelled, spelledPiece, Prod.mk.injEq, Piece.lexeme.injEq,
      Lexeme.word.injEq] at found
    rw [← found.1, isBareWord, word, spelled]
    rfl

/-! ## Neighbours -/

/-- The one lexeme may stand behind the other: a word that spells a boolean only behind a number. -/
def MayFollow (l l' : Lexeme) : Prop :=
  ∀ name, l' = .word name → (∃ n, l = .number n) ∨ isBareWord name = true

/-- Two neighbours in a scan may stand behind each other, and so may its first lexeme behind the one
before it. -/
theorem scanFrom_chain (cs : List Char) {position : Position} {before : Option Char}
    {l : Lexeme} {ts : List Token} (scanned : scanFrom position before cs = .ok ts)
    (parted : (∃ n, l = .number n) ∨ Parted before cs) :
    (l :: lexemes ts).IsChain MayFollow := by
  -- On the length of the text. Where trivia stand between, `l` stays the neighbour, and what stands
  -- directly before the rest is parted from it whatever `l` is.
  match cs with
  | [] =>
    rw [scanFrom] at scanned
    cases scanned
    exact List.isChain_pair.mpr (by rintro _ ⟨⟩)
  | c :: cs =>
    obtain ⟨piece, extra, ts', found, rest, taken⟩ := scanFrom_cons_eq_ok.mp scanned
    have partedBehind := parted_of_pieceAt found
    rcases taken with ⟨rfl, rfl⟩ | ⟨l', rfl, rfl⟩
    · have parted' : Parted (c :: cs.take extra).getLast? (cs.drop extra) := by
        simpa using partedBehind
      exact scanFrom_chain (cs.drop extra) rest (.inr parted')
    · have chain := scanFrom_chain (l := l') (cs.drop extra) rest (by simpa using partedBehind)
      refine List.isChain_cons_cons.mpr ⟨?_, chain⟩
      rintro name rfl
      refine parted.imp_right fun parted => ?_
      rcases parted with untouched | stop
      · exact isBareWord_of_pieceAt found untouched rest
      · have noStart := stop c rfl
        rw [isWordStart_of_pieceAt found] at noStart
        cases noStart
termination_by cs.length
decreasing_by all_goals rw [List.length_drop, List.length_cons]; omega

/-! ## Whole texts -/

/-- What holds of every piece holds of every lexeme. -/
theorem scanFrom_forall {p : Lexeme → Prop} (finish : p .finish)
    (piece : ∀ {before c cs l extra}, pieceAt before c cs = some (.lexeme l, extra) → p l)
    (cs : List Char) {position : Position} {before : Option Char} {ts : List Token}
    (scanned : scanFrom position before cs = .ok ts) : ∀ l ∈ lexemes ts, p l := by
  match cs with
  | [] =>
    rw [scanFrom] at scanned
    cases scanned
    exact List.forall_mem_singleton.mpr finish
  | c :: cs =>
    obtain ⟨_, extra, ts', found, rest, taken⟩ := scanFrom_cons_eq_ok.mp scanned
    have behind := scanFrom_forall finish piece (cs.drop extra) rest
    rcases taken with ⟨-, rfl⟩ | ⟨l, rfl, rfl⟩
    · exact behind
    · exact List.forall_mem_cons.mpr ⟨piece found, behind⟩
termination_by cs.length
decreasing_by rw [List.length_drop, List.length_cons]; omega

variable {text : String} {ts : List Token}

/-- Every number in a text fits. -/
theorem fits_of_tokenize (scanned : tokenize text = .ok ts) {n : Number}
    (mem : .number n ∈ lexemes ts) : n.Fits := by
  have finish : ∀ n, Lexeme.finish = .number n → n.Fits := by
    intro n h
    cases h
  refine scanFrom_forall (p := fun l => ∀ n, l = .number n → n.Fits) finish ?_ text.toList scanned
    _ mem n rfl
  rintro before c cs l extra found n rfl
  rcases lexeme_cases found with ⟨_, h⟩ | ⟨_, h⟩ | ⟨_, _, value, h⟩ | ⟨_, h⟩ | ⟨_, _, h⟩
  case inr.inr.inl =>
    cases h
    exact fits_of_numeralValue? value
  all_goals cases h

/-- A word behind a mark spells no boolean. -/
theorem isBareWord_of_tokenize (scanned : tokenize text = .ok ts) {m : Mark} {name : String}
    (neighbours : [.mark m, .word name] <:+: lexemes ts) : isBareWord name = true := by
  have parted : Parted none text.toList := .inl rfl
  have chain := scanFrom_chain (l := .finish) text.toList scanned (.inr parted)
  have follows := List.isChain_pair.mp ( List.IsChain.infix chain.tail neighbours)
  rcases follows name rfl with ⟨n, h⟩ | bare
  · cases h
  · exact bare

end Pipework.Script
