import Pipework.Proofs.Script.Scanned

/-!
# Scripts are tiled by their pieces

A text that is scanned is its pieces put together: no character is passed over, read twice or counted
wrongly. `Takes` lists the pieces, what each is read as, and how far it reaches, given the character
before it and the text behind it; a piece is always taken as far as it goes. `Tiled` puts pieces one
behind the other from the start of a text on. Places are counted afresh here, from all the characters
in front (`placeBehind`), and not one from the other as a scan does.

`scanned_as_tiled` says that a scan succeeds exactly where the pieces reach the end of the text, that
its tokens are the lexemes among them at their places, and that it fails exactly at the end of the
longest tiling where they do not.
-/

namespace Pipework.Script

open Text (StopsAt)

/-! ## Places -/

/-- The place behind the characters at the front of a text: the bytes that they take, the line breaks
among them, and how many stand behind the last line break. -/
def placeBehind (front : List Char) : Position where
  offset := (String.ofList front).utf8ByteSize
  line := front.count '\n' + 1
  column := (front.reverse.takeWhile (· != '\n')).length + 1

/-- One character more. -/
theorem placeBehind_concat (front : List Char) (c : Char) :
    placeBehind (front ++ [c]) = (placeBehind front).next c := by
  by_cases line : c = '\n'
  · have size : (String.ofList ['\n']).utf8ByteSize = '\n'.utf8Size := by decide
    subst line
    simp [placeBehind, Position.next, String.ofList_append, size]
  · simp [placeBehind, Position.next, line]

/-- The place behind further characters is the one that a scan counts. -/
theorem advance_placeBehind (front cs : List Char) :
    (placeBehind front).advance cs = placeBehind (front ++ cs) := by
  induction cs generalizing front with
  | nil => rw [List.append_nil]; rfl
  | cons c cs ih =>
    rw [Position.advance, List.foldl_cons, ← placeBehind_concat]
    exact (ih _).trans (by rw [List.append_assoc, List.singleton_append])

/-- A place is farther the more characters are in front of it. -/
theorem offset_placeBehind_lt (front : List Char) {cs : List Char} (some : cs ≠ []) :
    (placeBehind front).offset < (placeBehind (front ++ cs)).offset := by
  obtain ⟨c, cs, rfl⟩ := List.exists_cons_of_ne_nil some
  have := c.utf8Size_pos
  simp only [placeBehind, String.ofList_append, String.utf8ByteSize_append, String.ofList_cons]
  simp
  omega

/-! ## Pieces -/

/-- What may stand between the quotes of a text: neither the quote nor a backslash on its own, and
behind a backslash anything but a line break. -/
inductive Enclosed (quote : Char) : List Char → Prop
  | nil : Enclosed quote []
  | char {c : Char} {cs : List Char} (other : c ≠ quote) (escape : c ≠ '\\')
      (more : Enclosed quote cs) : Enclosed quote (c :: cs)
  | escaped {c : Char} {cs : List Char} (line : c ≠ '\n') (more : Enclosed quote cs) :
      Enclosed quote ('\\' :: c :: cs)

/-- The spellings of numbers: digits, with a minus in front or not, and with a point and any digits
behind or not. -/
inductive Numeral : List Char → Prop
  | whole {sign digits : List Char} (signed : sign = [] ∨ sign = ['-']) (some : digits ≠ [])
      (all : ∀ c ∈ digits, Text.isDigit c = true) : Numeral (sign ++ digits)
  | point {sign digits fraction : List Char} (signed : sign = [] ∨ sign = ['-'])
      (some : digits ≠ []) (all : ∀ c ∈ digits, Text.isDigit c = true)
      (all' : ∀ c ∈ fraction, Text.isDigit c = true) : Numeral (sign ++ digits ++ '.' :: fraction)

/-- The piece that is taken in front of `rest` and behind the character `before`, and the lexeme that
it is read as, if it is no trivia. Every piece that could be longer stops only where what is behind
it does not go on with it. -/
inductive Takes (before : Option Char) (rest : List Char) : List Char → Option Lexeme → Prop
  | mark (m : Mark) : Takes before rest [m.char] (some (.mark m))
  | text {quote : Char} {body : List Char} (opens : quote = '"' ∨ quote = '\'')
      (inner : Enclosed quote body) :
      Takes before rest (quote :: (body ++ [quote]))
        (some (.text (String.ofList (unescape body))))
  | number {raw : List Char} {n : Number} (spelled : Numeral raw)
      (value : numeralValue? raw = some n) (stop : StopsAt Text.isDigit rest)
      (point : '.' ∈ raw ∨ rest.head? ≠ some '.') : Takes before rest raw (some (.number n))
  | bool {raw : List Char} {b : Bool} (spelled : boolean? (String.ofList raw) = some b)
      (alone : before.any touches = false) (stop : StopsAt touches rest) :
      Takes before rest raw (some (.bool b))
  | word {raw : List Char} (word : isWord (String.ofList raw) = true)
      (stop : StopsAt isWordChar rest)
      (other : boolean? (String.ofList raw) = none ∨ before.any touches = true ∨
        rest.head?.any touches = true) : Takes before rest raw (some (.word (String.ofList raw)))
  | blanks {raw : List Char} (some : raw ≠ []) (all : ∀ c ∈ raw, Text.isBlank c = true)
      (stop : StopsAt Text.isBlank rest) : Takes before rest raw none
  | comment {line : List Char} (inside : '\n' ∉ line) (stop : StopsAt (· != '\n') rest) :
      Takes before rest ('#' :: line) none

/-- The piece of a lexeme, or of trivia. -/
abbrev Piece.ofLexeme? : Option Lexeme → Piece
  | some l => .lexeme l
  | none => .trivia

theorem Piece.ofLexeme?_inj {l l' : Option Lexeme} (same : ofLexeme? l = ofLexeme? l') :
    l = l' := by
  cases l <;> cases l' <;> cases same <;> rfl

section

variable {before : Option Char} {c quote : Char} {cs raw rest body : List Char}

/-- A text goes on to the first quote that is not escaped. -/
theorem quotedBody_of_enclosed (opens : quote = '"' ∨ quote = '\'') (inner : Enclosed quote body) :
    quotedBody quote (body ++ quote :: rest) = some body := by
  have plain : quote ≠ '\\' := by rcases opens with rfl | rfl <;> decide
  induction inner with
  | nil => cases rest <;> simp [quotedBody]
  | @char c cs other escape more ih =>
    obtain ⟨d, ds, split⟩ : ∃ d ds, cs ++ quote :: rest = d :: ds := by
      cases cs with
      | nil => exact ⟨_, _, rfl⟩
      | cons d ds => exact ⟨_, _, rfl⟩
    rw [split] at ih
    rw [List.cons_append, split, quotedBody, if_neg other, if_neg escape, ih, Option.map_some]
  | @escaped c cs line more ih =>
    rw [List.cons_append, List.cons_append, quotedBody, if_neg plain.symm, if_pos rfl, if_neg line,
      ih, Option.map_some]

/-- What is found between quotes may stand there. -/
theorem enclosed_of_quotedBody (found : quotedBody quote cs = some body) : Enclosed quote body := by
  fun_induction quotedBody quote cs generalizing body with
  | case1 => cases found
  | case2 => cases found; exact .nil
  | case3 => cases found
  | case4 => cases found; exact .nil
  | case5 => cases found
  | case6 d cs line _ ih =>
    obtain ⟨inner, behind, rfl⟩ := Option.map_eq_some_iff.mp found
    exact .escaped line (ih behind)
  | case7 c d cs other escape ih =>
    obtain ⟨inner, behind, rfl⟩ := Option.map_eq_some_iff.mp found
    exact .char other escape (ih behind)

theorem isDigit_minus : Text.isDigit '-' = false := by decide +kernel

/-- A sign is read in front of any digits. -/
theorem numeral?_signed {sign digits : List Char} (signed : sign = [] ∨ sign = ['-'])
    (some : digits ≠ []) (all : ∀ c ∈ digits, Text.isDigit c = true) :
    numeral? (sign ++ digits ++ rest) = unsigned? sign (digits ++ rest) := by
  rcases signed with rfl | rfl
  · obtain ⟨d, ds, rfl⟩ := List.exists_cons_of_ne_nil some
    have minus : d ≠ '-' := by
      rintro rfl
      exact absurd (all '-' List.mem_cons_self) (by rw [isDigit_minus]; exact Bool.false_ne_true)
    exact numeral?_of_ne_minus minus _
  · exact numeral?_minus _

/-- The spelling of a number is found in front of what does not go on with it. -/
theorem numeral?_of_numeral (spelled : Numeral raw) (stop : StopsAt Text.isDigit rest)
    (point : '.' ∈ raw ∨ rest.head? ≠ some '.') : numeral? (raw ++ rest) = some raw := by
  cases spelled with
  | @whole sign digits signed some all =>
    have noPoint : '.' ∉ sign ++ digits := by
      rw [List.mem_append, not_or]
      refine ⟨by rcases signed with rfl | rfl <;> decide, fun mem => ?_⟩
      exact absurd (all '.' mem) (by decide +kernel)
    rw [numeral?_signed signed some all]
    exact unsigned?_whole some all stop (point.resolve_left noPoint)
  | @point sign digits fraction signed some all all' =>
    rw [List.append_assoc, numeral?_signed signed some all, List.cons_append]
    exact unsigned?_point some all all' stop

/-- What is found at the front is the spelling of a number, as far as it goes. -/
theorem numeral_of_unsigned? {sign : List Char} (signed : sign = [] ∨ sign = ['-'])
    (found : unsigned? sign cs = some raw) :
    Numeral raw ∧ ∃ rest, sign ++ cs = raw ++ rest ∧ StopsAt Text.isDigit rest ∧
      ('.' ∈ raw ∨ rest.head? ≠ some '.') := by
  have all := List.all_eq_true.mp (List.all_takeWhile (p := Text.isDigit) (l := cs))
  have stop := Text.stopsAt_dropWhile (p := Text.isDigit) cs
  have split : sign ++ cs = sign ++ cs.takeWhile Text.isDigit ++ cs.dropWhile Text.isDigit := by
    rw [List.append_assoc, List.takeWhile_append_dropWhile]
  rw [split]
  unfold unsigned? at found
  split at found
  next => cases found
  next whole fraction point some =>
    cases found
    have more := List.takeWhile_append_dropWhile (p := Text.isDigit) (l := fraction)
    refine ⟨.point signed some all (List.all_eq_true.mp List.all_takeWhile),
      fraction.dropWhile Text.isDigit, ?_, Text.stopsAt_dropWhile fraction, .inl ?_⟩
    · rw [point, List.append_assoc _ ('.' :: _), List.cons_append, more]
    · exact List.mem_append_right _ List.mem_cons_self
  next some point =>
    cases found
    refine ⟨.whole signed some all, _, rfl, stop, .inr fun head => ?_⟩
    obtain ⟨fraction, left⟩ := List.head?_eq_some_iff.mp head
    exact point fraction left

/-- What is found at the front is the spelling of a number, taken as far as it goes. -/
theorem numeral_of_numeral? (found : numeral? cs = some raw) :
    Numeral raw ∧ ∃ rest, cs = raw ++ rest ∧ StopsAt Text.isDigit rest ∧
      ('.' ∈ raw ∨ rest.head? ≠ some '.') := by
  cases cs with
  | nil => cases found
  | cons c cs =>
    by_cases minus : c = '-'
    · subst minus
      rw [numeral?_minus] at found
      exact numeral_of_unsigned? (.inr rfl) found
    · rw [numeral?_of_ne_minus minus] at found
      exact numeral_of_unsigned? (.inl rfl) found

/-- A number begins with a minus or a digit. -/
theorem Numeral.begins (spelled : Numeral raw) :
    ∃ c cs, raw = c :: cs ∧ (c == '-' || Text.isDigit c) = true := by
  have front : ∀ {sign digits more : List Char}, sign = [] ∨ sign = ['-'] → digits ≠ [] →
      (∀ c ∈ digits, Text.isDigit c = true) →
      ∃ c cs, sign ++ digits ++ more = c :: cs ∧ (c == '-' || Text.isDigit c) = true := by
    rintro sign digits more (rfl | rfl) some all
    · obtain ⟨d, ds, rfl⟩ := List.exists_cons_of_ne_nil some
      exact ⟨d, ds ++ more, rfl, by rw [all d List.mem_cons_self, Bool.or_true]⟩
    · exact ⟨'-', digits ++ more, rfl, rfl⟩
  cases spelled with
  | whole signed some all =>
    have begins := @front _ _ [] signed some all
    rwa [List.append_nil] at begins
  | point signed some all _ => exact front signed some all

/-! ## What a scan takes -/

/-- What spells a boolean is a word. -/
theorem isWord_of_boolean? {s : String} {b : Bool} (spelled : boolean? s = some b) :
    isWord s = true := by
  have all : ∀ entry ∈ booleans, isWord entry.1 = true := by decide
  obtain ⟨_, _, split, -⟩ := List.lookup_eq_some_iff.mp spelled
  exact all (s, b) (split ▸ List.mem_append_right _ List.mem_cons_self)

/-- What a word goes on with touches it. -/
theorem stopsAt_isWordChar (stop : StopsAt touches rest) : StopsAt isWordChar rest := by
  intro c head
  have untouched := stop c head
  rw [touches, Bool.or_eq_false_iff] at untouched
  exact untouched.1

/-- The scan takes a word as far as it goes, for a boolean if it spells one and is not touched. -/
theorem pieceAt_of_isWord (before : Option Char) (word : isWord (String.ofList raw) = true)
    (stop : StopsAt isWordChar rest) :
    ∃ c cs, raw = c :: cs ∧ pieceAt before c (cs ++ rest) =
      some (match boolean? (String.ofList raw) with
        | some b => .lexeme (if !before.any touches && !rest.head?.any touches then .bool b
            else .word (String.ofList raw))
        | none => .lexeme (.word (String.ofList raw)), cs.length) := by
  obtain ⟨c, cs, split, start, chars⟩ := exists_isWordStart word
  rw [String.toList_ofList] at split
  subst split
  refine ⟨c, cs, rfl, ?_⟩
  rw [pieceAt_of_isWordStart start, wordPiece, Text.takeWhile_span chars stop,
    Text.dropWhile_span chars stop]
  cases boolean? (String.ofList (c :: cs)) <;>
    simp only [spelledPiece, List.length_cons, Nat.add_sub_cancel]

/-- The scan takes the piece that there is to take. -/
theorem pieceAt_of_takes {l : Option Lexeme} (takes : Takes before rest raw l) :
    ∃ c cs, raw = c :: cs ∧ pieceAt before c (cs ++ rest) = some (.ofLexeme? l, cs.length) := by
  cases takes with
  | mark m =>
    refine ⟨_, [], rfl, ?_⟩
    simp only [pieceAt, ofChar?_char, Piece.ofLexeme?, List.length_nil]
  | @text quote body opens inner =>
    refine ⟨quote, body ++ [quote], rfl, ?_⟩
    have noMark : Mark.ofChar? quote = none := by rcases opens with rfl | rfl <;> decide
    rw [List.append_assoc, List.singleton_append]
    simp only [pieceAt, noMark, opens, ↓reduceIte, quotedBody_of_enclosed opens inner,
      Option.map_some, Piece.ofLexeme?, List.length_append, List.length_singleton]
  | number spelled value stop point =>
    obtain ⟨c, cs, rfl, start⟩ := spelled.begins
    refine ⟨c, cs, rfl, ?_⟩
    obtain ⟨noMark, noQuote⟩ :=
      undecided (p := fun c => c == '-' || Text.isDigit c) start (by decide +kernel)
    have found := numeral?_of_numeral spelled stop point
    rw [List.cons_append] at found
    simp only [pieceAt, noMark, noQuote, ↓reduceIte, found, value, spelledPiece, Piece.ofLexeme?,
      List.length_cons, Nat.add_sub_cancel]
  | @bool raw b spelled alone stop =>
    have alone' : rest.head?.any touches = false := by
      cases head : rest.head? with
      | none => rfl
      | some c => exact stop c head
    have found := pieceAt_of_isWord before (isWord_of_boolean? spelled) (stopsAt_isWordChar stop)
    simpa only [spelled, alone, alone', Bool.not_false, Bool.and_self, ↓reduceIte] using found
  | @word raw word stop other =>
    have found := pieceAt_of_isWord before word stop
    cases spelled : boolean? (String.ofList raw) with
    | none => simpa only [spelled] using found
    | some b =>
      have touched : (!before.any touches && !rest.head?.any touches) = false := by
        rcases other with none | touched | touched
        · rw [spelled] at none
          cases none
        · rw [touched]
          rfl
        · rw [touched, Bool.not_true, Bool.and_false]
      simpa only [spelled, touched, Bool.false_eq_true, ↓reduceIte] using found
  | @blanks raw some all stop =>
    obtain ⟨c, cs, rfl⟩ := List.exists_cons_of_ne_nil some
    refine ⟨c, cs, rfl, ?_⟩
    have inside := fun d mem => all d (List.mem_cons_of_mem c mem)
    rw [pieceAt_of_isBlank (all c List.mem_cons_self), Text.takeWhile_span inside stop]
  | @comment line inside stop =>
    have chars : ∀ c ∈ line, (c != '\n') = true :=
      fun c mem => bne_iff_ne.mpr fun same => inside (same ▸ mem)
    refine ⟨'#', line, rfl, ?_⟩
    rw [pieceAt_hash, Text.takeWhile_span chars stop]

/-- Where a word may begin, a word or a boolean is taken. -/
theorem takes_of_isWordStart (before : Option Char) (start : isWordStart c = true) (cs : List Char) :
    ∃ l, Takes before (cs.dropWhile isWordChar) (c :: cs.takeWhile isWordChar) (some l) ∧
      pieceAt before c cs = some (.lexeme l, (cs.takeWhile isWordChar).length) := by
  have stop := Text.stopsAt_dropWhile (p := isWordChar) cs
  have split := List.takeWhile_append_dropWhile (p := isWordChar) (l := cs)
  have word : isWord (String.ofList (c :: cs.takeWhile isWordChar)) = true := by
    simp only [isWord, String.toList_ofList, start, List.all_takeWhile, Bool.and_self]
  obtain ⟨_, _, same, found⟩ := pieceAt_of_isWord before word stop
  obtain ⟨rfl, rfl⟩ := List.cons.inj same
  rw [split] at found
  cases spelled : boolean? (String.ofList (c :: cs.takeWhile isWordChar)) with
  | none =>
    simp only [spelled] at found
    exact ⟨_, .word word stop (.inl spelled), found⟩
  | some b =>
    simp only [spelled] at found
    cases left : before.any touches with
    | true =>
      rw [left] at found
      exact ⟨_, .word word stop (.inr (.inl left)), found⟩
    | false =>
      cases right : (cs.dropWhile isWordChar).head?.any touches with
      | true =>
        rw [left, right] at found
        exact ⟨_, .word word stop (.inr (.inr right)), found⟩
      | false =>
        rw [left, right] at found
        refine ⟨_, .bool spelled left fun d head => ?_, found⟩
        rwa [head] at right

/-- What the scan takes is a piece, or a number that is out of range. -/
theorem takes_of_pieceAt {piece : Piece} {extra : Nat}
    (found : pieceAt before c cs = some (piece, extra)) :
    (∃ l, piece = .ofLexeme? l ∧ Takes before (cs.drop extra) (c :: cs.take extra) l) ∨
      (piece = .numberOutOfRange ∧ numeral? (c :: cs) = some (c :: cs.take extra) ∧
        numeralValue? (c :: cs.take extra) = none) := by
  rcases pieceAt_cases found with ⟨m, mark, rfl, rfl⟩ | ⟨quote, body, inner, rfl, rfl⟩ |
    ⟨raw, spelled, rfl, value⟩ | ⟨start, -, -⟩ | ⟨blank, rfl, rfl⟩ | ⟨rfl, rfl, rfl⟩
  case inl =>
    rw [← char_of_ofChar? mark]
    exact .inl ⟨_, rfl, .mark m⟩
  case inr.inl =>
    obtain ⟨rest, rfl⟩ := eq_of_quotedBody inner
    have split : body ++ c :: rest = (body ++ [c]) ++ rest := by
      rw [List.append_assoc, List.singleton_append]
    have size : body.length + 1 = (body ++ [c]).length := by
      rw [List.length_append, List.length_singleton]
    rw [split, size, List.take_left, List.drop_left]
    exact .inl ⟨_, rfl, .text quote (enclosed_of_quotedBody inner)⟩
  case inr.inr.inl =>
    obtain ⟨numeral, rest, split, stop, point⟩ := numeral_of_numeral? spelled
    obtain ⟨d, ds, rfl, -⟩ := numeral.begins
    obtain ⟨rfl, rfl⟩ := List.cons.inj split
    rw [List.length_cons, Nat.add_sub_cancel, List.append_eq, List.take_left, List.drop_left]
    rcases value with ⟨n, value, rfl⟩ | ⟨none, rfl⟩
    · exact .inl ⟨_, rfl, .number numeral value stop point⟩
    · exact .inr ⟨rfl, spelled, none⟩
  case inr.inr.inr.inl =>
    obtain ⟨l, takes, same⟩ := takes_of_isWordStart before start cs
    rw [found] at same
    obtain ⟨rfl, rfl⟩ := Prod.mk.inj (Option.some.inj same)
    rw [Text.take_length_takeWhile, Text.drop_length_takeWhile]
    exact .inl ⟨some l, rfl, takes⟩
  case inr.inr.inr.inr.inl =>
    rw [Text.take_length_takeWhile, Text.drop_length_takeWhile]
    refine .inl ⟨none, rfl, .blanks (List.cons_ne_nil _ _) ?_ (Text.stopsAt_dropWhile cs)⟩
    exact List.forall_mem_cons.mpr ⟨blank, List.all_eq_true.mp List.all_takeWhile⟩
  case inr.inr.inr.inr.inr =>
    rw [Text.take_length_takeWhile, Text.drop_length_takeWhile]
    refine .inl ⟨none, rfl, .comment (fun mem => ?_) (Text.stopsAt_dropWhile cs)⟩
    exact absurd (List.all_eq_true.mp List.all_takeWhile _ mem) (by decide)

end

/-! ## Tilings -/

/-- A piece of a text, and the lexeme that it is read as, if it is no trivia. -/
structure Tile where
  raw : List Char
  lexeme : Option Lexeme

/-- The pieces that are taken one after the other behind `front`, and what is left behind the last of
them. -/
inductive Tiled : List Char → List Char → List Tile → List Char → Prop
  | done (front rest : List Char) : Tiled front rest [] rest
  | tile {front behind rest : List Char} {tile : Tile} {tiles : List Tile}
      (takes : Takes front.getLast? behind tile.raw tile.lexeme)
      (more : Tiled (front ++ tile.raw) behind tiles rest) :
      Tiled front (tile.raw ++ behind) (tile :: tiles) rest

/-- The text of pieces. -/
abbrev rawText (tiles : List Tile) : List Char := tiles.flatMap Tile.raw

/-- The lexemes among pieces that stand behind `front`, each at its place. -/
def tokensOf (front : List Char) : List Tile → List Token
  | [] => []
  | tile :: tiles =>
    (tile.lexeme.toList.map fun l => ⟨l, placeBehind front⟩) ++ tokensOf (front ++ tile.raw) tiles

/-- The end of a text that is `front` alone. -/
def finishBehind (front : List Char) : Token := ⟨.finish, placeBehind front⟩

/-- No piece can be taken behind `front`. -/
def Stuck (front cs : List Char) : Prop :=
  ∀ raw rest l, cs = raw ++ rest → ¬ Takes front.getLast? rest raw l

section

variable {front cs rest rest' : List Char} {tiles tiles' : List Tile}

/-- Pieces and what is left of a text are the text. -/
theorem Tiled.split (tiled : Tiled front cs tiles rest) : cs = rawText tiles ++ rest := by
  induction tiled with
  | done => rfl
  | tile takes more ih => rw [rawText, List.flatMap_cons, List.append_assoc, ← ih]

/-- A piece has a character. -/
theorem Takes.ne_nil {before : Option Char} {raw : List Char} {l : Option Lexeme}
    (takes : Takes before rest raw l) : raw ≠ [] := by
  obtain ⟨c, cs, rfl, -⟩ := pieceAt_of_takes takes
  exact List.cons_ne_nil c cs

/-- What is taken at a place is determined by the text. -/
theorem Takes.unique {before : Option Char} {raw raw' behind behind' : List Char}
    {l l' : Option Lexeme} (takes : Takes before behind raw l)
    (takes' : Takes before behind' raw' l') (same : raw ++ behind = raw' ++ behind') :
    raw = raw' ∧ behind = behind' ∧ l = l' := by
  obtain ⟨c, cs, rfl, found⟩ := pieceAt_of_takes takes
  obtain ⟨c', cs', rfl, found'⟩ := pieceAt_of_takes takes'
  obtain ⟨rfl, tails⟩ := List.cons_eq_cons.mp same
  rw [List.append_eq, List.append_eq] at tails
  rw [tails, found', Option.some_inj, Prod.mk.injEq] at found
  obtain ⟨rfl, rfl⟩ := List.append_inj tails found.2.symm
  exact ⟨rfl, rfl, (Piece.ofLexeme?_inj found.1).symm⟩

/-- A tiling that cannot go on has every other among its beginnings. -/
theorem Tiled.longest (tiled : Tiled front cs tiles rest)
    (stuck : Stuck (front ++ rawText tiles) rest) (tiled' : Tiled front cs tiles' rest') :
    tiles' <+: tiles := by
  induction tiled generalizing tiles' with
  | done front rest =>
    cases tiled' with
    | done => exact List.prefix_rfl
    | tile takes more =>
      rw [rawText, List.flatMap_nil, List.append_nil] at stuck
      exact absurd takes (stuck _ _ _ rfl)
  | @tile front behind rest tile tiles takes more ih =>
    rw [rawText, List.flatMap_cons, ← List.append_assoc] at stuck
    generalize whole : tile.raw ++ behind = cs at tiled'
    cases tiled' with
    | done => exact List.nil_prefix
    | @tile _ behind' _ tile' tiles' takes' more' =>
      obtain ⟨raw, lexeme⟩ := tile
      obtain ⟨raw', lexeme'⟩ := tile'
      obtain ⟨rfl, rfl, rfl⟩ := takes.unique takes' whole
      exact List.cons_prefix_cons.mpr ⟨rfl, ih stuck more'⟩

/-- At the end of a text there is no piece. -/
theorem stuck_nil (front : List Char) : Stuck front [] := by
  intro raw rest l split takes
  exact takes.ne_nil (List.append_eq_nil_iff.mp split.symm).1

/-- Two tilings of one text that begin with each other are the same. -/
theorem Tiled.eq_of_prefix (tiled : Tiled front cs tiles rest)
    (tiled' : Tiled front cs tiles' rest') (shorter : tiles <+: tiles')
    (longer : tiles' <+: tiles) : tiles = tiles' ∧ rest = rest' := by
  obtain rfl := shorter.eq_of_length_le longer.length_le
  exact ⟨rfl, List.append_cancel_left (tiled.split.symm.trans tiled'.split)⟩

/-- No piece is read as the end. -/
theorem Takes.ne_finish {before : Option Char} {raw : List Char} :
    ¬ Takes before rest raw (some .finish) := nofun

/-- Tokens stand behind one another, the first of them not before the pieces and the end not before
the last of them. -/
theorem Tiled.ascending (tiled : Tiled front cs tiles rest) :
    (tokensOf front tiles ++ [finishBehind (front ++ rawText tiles)]).Pairwise
        (fun t t' => t.position.offset < t'.position.offset) ∧
      ∀ t ∈ tokensOf front tiles ++ [finishBehind (front ++ rawText tiles)],
        (placeBehind front).offset ≤ t.position.offset := by
  induction tiled with
  | done front rest =>
    rw [rawText, List.flatMap_nil, List.append_nil]
    refine ⟨List.pairwise_singleton _ _, fun t mem => ?_⟩
    rw [List.mem_singleton.mp mem]
    exact Nat.le_refl _
  | @tile front behind rest tile tiles takes more ih =>
    obtain ⟨ordered, later⟩ := ih
    have farther := offset_placeBehind_lt front takes.ne_nil
    have all : ∀ t ∈ tokensOf (front ++ tile.raw) tiles ++
        [finishBehind (front ++ tile.raw ++ rawText tiles)],
        (placeBehind front).offset < t.position.offset :=
      fun t mem => Nat.lt_of_lt_of_le farther (later t mem)
    have text : front ++ rawText (tile :: tiles) = front ++ tile.raw ++ rawText tiles := by
      rw [rawText, List.flatMap_cons, List.append_assoc]
    rw [tokensOf, text, List.append_assoc]
    cases tile.lexeme with
    | none => exact ⟨ordered, fun t mem => Nat.le_of_lt (all t mem)⟩
    | some l =>
      exact ⟨List.pairwise_cons.mpr ⟨all, ordered⟩,
        List.forall_mem_cons.mpr ⟨Nat.le_refl _, fun t mem => Nat.le_of_lt (all t mem)⟩⟩

/-- The end is no token of a piece. -/
theorem Tiled.ne_finish (tiled : Tiled front cs tiles rest) :
    ∀ t ∈ tokensOf front tiles, t.lexeme ≠ .finish := by
  induction tiled with
  | done => exact fun _ mem => nomatch mem
  | @tile front behind rest tile tiles takes more ih =>
    rw [tokensOf]
    intro t mem
    rcases List.mem_append.mp mem with mem | mem
    · obtain ⟨l, known, rfl⟩ := List.mem_map.mp mem
      rw [Option.mem_toList.mp known] at takes
      rintro rfl
      exact takes.ne_finish
    · exact ih t mem

/-! ## Scans -/

/-- The error of a text in which no piece can be taken at a place. -/
def refusal (rest : List Char) (place : Position) : PipelineError :=
  match numeral? rest with
  | some raw =>
    .malformed "a number within range" ("NUMBER " ++ String.ofList raw) place.line place.column
  | none =>
    .malformed "a token" ("unexpected character '" ++ String.ofList (rest.take 1) ++ "'")
      place.line place.column

/-- Where nothing is taken there is no number. -/
theorem numeral?_of_pieceAt {before : Option Char} {c : Char} {cs : List Char}
    (none : pieceAt before c cs = none) : numeral? (c :: cs) = .none := by
  unfold pieceAt at none
  split at none
  · cases none
  split at none
  next quote =>
    rcases quote with rfl | rfl <;> exact numeral?_eq_none (by decide) (by decide +kernel)
  split at none
  next => split at none <;> cases none
  next noNumber => exact noNumber

/-- Where the scan does not take a piece there is none to take. -/
theorem stuck_of_pieceAt {c : Char}
    (none : ∀ l extra, pieceAt front.getLast? c cs ≠ some (.ofLexeme? l, extra)) :
    Stuck front (c :: cs) := by
  intro raw rest l split takes
  obtain ⟨d, ds, rfl, found⟩ := pieceAt_of_takes takes
  obtain ⟨rfl, rfl⟩ := List.cons_eq_cons.mp split
  exact none _ _ found

/-- A scan goes on behind a piece that it takes. -/
theorem scanFrom_of_pieceAt {position : Position} {before : Option Char} {c : Char}
    {l : Option Lexeme} {extra : Nat} (found : pieceAt before c cs = some (.ofLexeme? l, extra)) :
    scanFrom position before (c :: cs) =
      (scanFrom (position.advance (c :: cs.take extra)) (c :: cs.take extra).getLast?
        (cs.drop extra)).map fun ts => (l.toList.map fun l => ⟨l, position⟩) ++ ts := by
  rw [scanFrom]
  cases l with
  | none =>
    simp only [found]
    cases scanFrom (position.advance (c :: cs.take extra)) (c :: cs.take extra).getLast?
      (cs.drop extra) <;> rfl
  | some l =>
    simp only [found]
    rfl

/-- A scan goes from piece to piece, up to the end or to where no piece can be taken. -/
theorem exists_tiled (cs front : List Char) : ∃ tiles rest, Tiled front cs tiles rest ∧
    ((rest = [] ∧ scanFrom (placeBehind front) front.getLast? cs =
        .ok (tokensOf front tiles ++ [finishBehind (front ++ rawText tiles)])) ∨
      (rest ≠ [] ∧ Stuck (front ++ rawText tiles) rest ∧
        scanFrom (placeBehind front) front.getLast? cs =
          .error (refusal rest (placeBehind (front ++ rawText tiles))))) := by
  match cs with
  | [] =>
    refine ⟨[], [], .done _ _, .inl ⟨rfl, ?_⟩⟩
    rw [scanFrom, rawText, List.flatMap_nil, List.append_nil]
    rfl
  | c :: cs =>
    have here : front ++ rawText [] = front := List.append_nil front
    cases found : pieceAt front.getLast? c cs with
    | none =>
      refine ⟨[], c :: cs, .done _ _, .inr ⟨List.cons_ne_nil _ _, ?_, ?_⟩⟩
      · rw [here]
        exact stuck_of_pieceAt fun l extra same => by rw [found] at same; cases same
      · rw [here, scanFrom, refusal, numeral?_of_pieceAt found]
        simp only [found]
        rfl
    | some taken =>
      obtain ⟨piece, extra⟩ := taken
      rcases takes_of_pieceAt found with ⟨l, rfl, takes⟩ | ⟨rfl, spelled, -⟩
      · obtain ⟨tiles, rest, tiled, outcome⟩ :=
          exists_tiled (cs.drop extra) (front ++ c :: cs.take extra)
        have split : c :: cs = (c :: cs.take extra) ++ cs.drop extra := by
          rw [List.cons_append, List.take_append_drop]
        have text : front ++ rawText (⟨c :: cs.take extra, l⟩ :: tiles) =
            front ++ c :: cs.take extra ++ rawText tiles := by
          rw [rawText, List.flatMap_cons, List.append_assoc]
        have last : (front ++ c :: cs.take extra).getLast? = (c :: cs.take extra).getLast? :=
          List.getLast?_append_of_ne_nil _ (List.cons_ne_nil _ _)
        refine ⟨⟨c :: cs.take extra, l⟩ :: tiles, rest, ?_, ?_⟩
        · rw [split]
          exact @Tiled.tile _ _ _ ⟨c :: cs.take extra, l⟩ _ takes tiled
        · rw [last, ← advance_placeBehind] at outcome
          rw [text, scanFrom_of_pieceAt found, tokensOf]
          refine outcome.imp ?_ ?_
          · rintro ⟨done, scanned⟩
            refine ⟨done, ?_⟩
            simp only [scanned, Except.map, List.append_assoc]
          · rintro ⟨left, stuck, failed⟩
            refine ⟨left, stuck, ?_⟩
            rw [failed]
            rfl
      · refine ⟨[], c :: cs, .done _ _, .inr ⟨List.cons_ne_nil _ _, ?_, ?_⟩⟩
        · rw [here]
          refine stuck_of_pieceAt fun l extra same => ?_
          rw [found] at same
          cases l <;> cases same
        · rw [here, scanFrom, refusal, spelled]
          simp only [found]
termination_by cs.length
decreasing_by rw [List.length_drop, List.length_cons]; omega

end

/-- What the tokens of a text are: there are pieces that make up the text, each taken where the one
before it ends; the tokens are the lexemes among them, each where its piece begins, and the end behind
the whole text, which is no lexeme of a piece. So they stand one behind the other. -/
structure TokensOf (text : List Char) (ts : List Token) (tiles : List Tile) : Prop where
  tiled : Tiled [] text tiles []
  covers : rawText tiles = text
  tokens : ts = tokensOf [] tiles ++ [finishBehind text]
  finish : ∀ t ∈ tokensOf [] tiles, t.lexeme ≠ .finish
  ascending : ts.Pairwise fun t t' => t.position.offset < t'.position.offset

/-- What a text without tokens is: its longest tiling does not reach its end, and the error names the
place where it ends. -/
structure RefusedAt (text : List Char) (e : PipelineError) (tiles : List Tile) (rest : List Char) :
    Prop where
  tiled : Tiled [] text tiles rest
  left : rest ≠ []
  longest : ∀ tiles' rest', Tiled [] text tiles' rest' → tiles' <+: tiles
  error : e = refusal rest (placeBehind (rawText tiles))

/-- **Tokens tile the text.** A text is scanned exactly if pieces, each taken as far as it goes, make
up the whole of it, and then its tokens are the lexemes among the pieces, at the places where these
begin as counted from the start of the text, and the end. Any other text is refused at the end of its
longest tiling. -/
theorem scanned_as_tiled (text : String) :
    (∀ ts, tokenize text = .ok ts ↔ ∃ tiles, TokensOf text.toList ts tiles) ∧
      ∀ e, tokenize text = .error e ↔ ∃ tiles rest, RefusedAt text.toList e tiles rest := by
  obtain ⟨tiles, rest, tiled, outcome⟩ := exists_tiled text.toList []
  rw [List.nil_append] at outcome
  rcases outcome with ⟨rfl, scanned⟩ | ⟨left, stuck, failed⟩
  · have covers : rawText tiles = text.toList := by rw [tiled.split, List.append_nil]
    have full : ∀ tiles' rest', Tiled [] text.toList tiles' rest' → tiles' <+: tiles :=
      fun _ _ tiled' => tiled.longest (stuck_nil _) tiled'
    have ascending := tiled.ascending.1
    rw [List.nil_append, covers] at ascending
    rw [covers] at scanned
    have scanned : tokenize text = .ok (tokensOf [] tiles ++ [finishBehind text.toList]) := scanned
    refine ⟨fun ts => ?_, fun e => ?_⟩
    · rw [scanned, Except.ok.injEq]
      constructor
      · rintro rfl
        exact ⟨tiles, tiled, covers, rfl, tiled.ne_finish, ascending⟩
      · rintro ⟨tiles', tiled', -, rfl, -, -⟩
        have shorter := tiled'.longest (stuck_nil _) tiled
        rw [(tiled.eq_of_prefix tiled' shorter (full _ _ tiled')).1]
    · rw [scanned]
      refine ⟨nofun, ?_⟩
      rintro ⟨tiles', rest', tiled', left, longest, -⟩
      exact absurd (tiled.eq_of_prefix tiled' (longest _ _ tiled) (full _ _ tiled')).2.symm left
  · have longest : ∀ tiles' rest', Tiled [] text.toList tiles' rest' → tiles' <+: tiles :=
      fun _ _ tiled' => tiled.longest stuck tiled'
    have failed : tokenize text = .error (refusal rest (placeBehind (rawText tiles))) := failed
    refine ⟨fun ts => ?_, fun e => ?_⟩
    · rw [failed]
      refine ⟨nofun, ?_⟩
      rintro ⟨tiles', tiled', -, -, -, -⟩
      have shorter := tiled'.longest (stuck_nil _) tiled
      exact absurd (tiled.eq_of_prefix tiled' shorter (longest _ _ tiled')).2 left
    · rw [failed, Except.error.injEq]
      constructor
      · rintro rfl
        exact ⟨tiles, rest, tiled, left, longest, rfl⟩
      · rintro ⟨tiles', rest', tiled', -, longest', rfl⟩
        obtain ⟨rfl, rfl⟩ :=
          tiled.eq_of_prefix tiled' (longest' _ _ tiled) (longest _ _ tiled')
        rfl

end Pipework.Script
