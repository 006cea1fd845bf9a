import Mathlib.Data.List.Basic
import Pipework.Proofs.Script.Placeless
import Pipework.Proofs.Script.Tiling

/-!
# Layout between tokens

Blanks, or a comment with the end of its line, put in directly behind a token. A text that was scanned
is scanned with them as well, and its tokens are what they were, up to the place that each stands at.

There is one exception. A word that spells a boolean is one only where nothing touches it, and a number
may touch it: `1true` is the number and the word, `1 true` the number and the boolean. So layout
between the two makes the word a boolean, and changes nothing else (`Spaced`).

The pieces in front are taken as before, since what a piece has behind it matters by its first character
only. The token itself does not go on with layout. The first piece behind it has another character in
front now, which matters for a boolean alone.
-/

namespace Pipework.Script

open Text (StopsAt)

/-! ## Layout -/

/-- Layout: some blanks, or a comment with the end of its line. -/
inductive Layout : List Char → Prop
  | blanks {cs : List Char} (some : cs ≠ []) (all : ∀ c ∈ cs, Text.isBlank c = true) : Layout cs
  | comment {line : List Char} (inside : '\n' ∉ line) : Layout ('#' :: line ++ ['\n'])

section

variable {before : Option Char} {cs rest : List Char} {ls : List Lexeme}

/-- A text yields something behind every blank. -/
abbrev YieldsBehindBlank (rest : List Char) (ls : List Lexeme) : Prop :=
  ∀ c, Text.isBlank c = true → Yields (some c) rest ls

/-- Blanks in front of a text change nothing. -/
theorem yields_blanks (some : cs ≠ []) (all : ∀ c ∈ cs, Text.isBlank c = true)
    (behind : YieldsBehindBlank rest ls) : Yields before (cs ++ rest) ls := by
  induction cs generalizing before with
  | nil => exact absurd rfl some
  | cons c cs ih =>
    obtain ⟨blank, all⟩ := List.forall_mem_cons.mp all
    refine Yields.blank blank ?_
    cases cs with
    | nil => exact behind c blank
    | cons d cs => exact ih (List.cons_ne_nil d cs) all

theorem isBlank_lineBreak : Text.isBlank '\n' = true := by decide

/-- Layout in front of a text changes nothing. -/
theorem Layout.yields {layout : List Char} (spaced : Layout layout)
    (behind : YieldsBehindBlank rest ls) : Yields before (layout ++ rest) ls := by
  cases spaced with
  | blanks some all => exact yields_blanks some all behind
  | comment inside =>
    rw [List.append_assoc, List.singleton_append]
    refine Yields.comment inside (Text.stopsAt_cons (by decide)) fun _ => ?_
    exact Yields.blank isBlank_lineBreak (behind '\n' isBlank_lineBreak)

/-- Layout alone is no lexeme. -/
theorem Layout.yields_alone {layout : List Char} (spaced : Layout layout) :
    Yields before layout [.finish] := by
  have alone : Yields before (layout ++ []) [.finish] := spaced.yields fun _ _ => yields_nil _
  rwa [List.append_nil] at alone

/-- A comment at the end of a text goes on with layout up to the first line break in it. -/
theorem Layout.yields_in_comment {layout line : List Char} (spaced : Layout layout)
    (inside : '\n' ∉ line) : Yields before ('#' :: line ++ layout) [.finish] := by
  cases spaced with
  | blanks some all =>
    have inside' : '\n' ∉ line ++ layout.takeWhile (· != '\n') := by
      rw [List.mem_append, not_or]
      refine ⟨inside, fun mem => ?_⟩
      exact absurd (List.all_eq_true.mp List.all_takeWhile _ mem) (by decide)
    have all' : ∀ c ∈ layout.dropWhile (· != '\n'), Text.isBlank c = true :=
      fun c mem => all c ((List.dropWhile_sublist _).mem mem)
    have behind : ∀ before, Yields before (layout.dropWhile (· != '\n')) [.finish] := by
      intro before
      by_cases none : layout.dropWhile (· != '\n') = []
      · rw [none]
        exact yields_nil before
      · exact (Layout.blanks none all').yields_alone
    have split := List.takeWhile_append_dropWhile (p := (· != '\n')) (l := layout)
    rw [← split, List.cons_append, ← List.append_assoc]
    exact Yields.comment inside' (Text.stopsAt_dropWhile layout) behind
  | @comment line' inside' =>
    have inside'' : '\n' ∉ line ++ '#' :: line' := by
      simp [inside, inside']
    rw [List.cons_append, ← List.append_assoc]
    exact Yields.comment inside'' (Text.stopsAt_cons (by decide)) fun _ =>
      Yields.blank isBlank_lineBreak (yields_nil _)

/-- Nothing that may stand in front of layout goes on with it. -/
theorem Layout.stopsAt {layout : List Char} (spaced : Layout layout) (rest : List Char) :
    StopsAt goesOn (layout ++ rest) := by
  cases spaced with
  | @blanks cs some all =>
    obtain ⟨c, cs, rfl⟩ := List.exists_cons_of_ne_nil some
    have blank := all c List.mem_cons_self
    have point : (c == '.') = false := beq_eq_false_iff_ne.mpr (by rintro rfl; cases blank)
    exact Text.stopsAt_cons (by rw [goesOn, touches_of_isBlank blank, point, Bool.or_self])
  | comment inside => exact Text.stopsAt_cons (by decide +kernel)

end

/-! ## Pieces with other neighbours -/

section

variable {before before' : Option Char} {raw rest rest' : List Char} {l : Option Lexeme}

/-- Only the first character behind a piece matters for it. -/
theorem Takes.congr (same : rest.head? = rest'.head?) (takes : Takes before rest raw l) :
    Takes before rest' raw l := by
  have stops {p : Char → Bool} (stop : StopsAt p rest) : StopsAt p rest' := by rwa [StopsAt, ← same]
  cases takes with
  | mark m => exact .mark m
  | text opens inner => exact .text opens inner
  | number spelled value stop point => exact .number spelled value (stops stop) (same ▸ point)
  | bool spelled alone stop => exact .bool spelled alone (stops stop)
  | word word stop other => exact .word word (stops stop) (same ▸ other)
  | blanks some all stop => exact .blanks some all (stops stop)
  | comment inside stop => exact .comment inside (stops stop)

/-- No digit stands in front of a text but an ASCII one. Where one did, the text could not be scanned. -/
def NoForeignDigit (rest : List Char) : Prop :=
  ∀ c, rest.head? = some c → Text.isDigit c = true → isAsciiDigit c = true

/-- Of characters that touch a word, all but foreign digits go on with it. -/
theorem NoForeignDigit.stopsAt_touches (ascii : NoForeignDigit rest)
    (stop : StopsAt isWordChar rest) : StopsAt touches rest := by
  intro c head
  have digit : Text.isDigit c = false := by
    rw [← Bool.not_eq_true]
    intro digit
    have wordChar := isWordChar_iff.mpr (.inr (ascii c head digit))
    rw [stop c head] at wordChar
    cases wordChar
  rw [touches, stop c head, digit, Bool.or_self]

/-- A lexeme is taken as before in front of what does not go on with it. -/
theorem Takes.parted {l : Lexeme} (takes : Takes before rest raw (some l))
    (ascii : NoForeignDigit rest) (stop : StopsAt goesOn rest') :
    Takes before rest' raw (some l) := by
  obtain ⟨noWord, noDigit, untouched, noPoint⟩ := stops_of_goesOn stop
  cases takes with
  | mark m => exact .mark m
  | text opens inner => exact .text opens inner
  | number spelled value _ _ => exact .number spelled value noDigit (.inr noPoint)
  | bool spelled alone _ => exact .bool spelled alone untouched
  | word word stop other =>
    refine .word word noWord (other.imp_right (Or.imp_right fun touched => ?_))
    cases head : rest.head? with
    | none => rw [head] at touched; cases touched
    | some c =>
      rw [head, Option.any_some, ascii.stopsAt_touches stop c head] at touched
      cases touched

/-- A word that spells a boolean stands in front of the text. -/
def BooleanFirst (cs : List Char) : Prop :=
  ∃ word rest, cs = word ++ rest ∧ (boolean? (String.ofList word)).isSome = true ∧
    StopsAt isWordChar rest

/-- A word that spells a boolean begins as words do. -/
theorem BooleanFirst.head {cs : List Char} (boolean : BooleanFirst cs) :
    ∃ c, cs.head? = some c ∧ isWordStart c = true := by
  obtain ⟨word, rest, rfl, spelled, -⟩ := boolean
  obtain ⟨b, spelled⟩ := Option.isSome_iff_exists.mp spelled
  obtain ⟨c, cs, split, start, -⟩ := exists_isWordStart (isWord_of_boolean? spelled)
  rw [String.toList_ofList] at split
  subst split
  exact ⟨c, rfl, start⟩

/-- A piece with nothing that touches it in front is taken as before, if it is no boolean that was
touched. -/
theorem Takes.untouched (takes : Takes before rest raw l)
    (free : ¬(before.any touches = true ∧ BooleanFirst (raw ++ rest)))
    (alone : before'.any touches = false) : Takes before' rest raw l := by
  cases takes with
  | mark m => exact .mark m
  | text opens inner => exact .text opens inner
  | number spelled value stop point => exact .number spelled value stop point
  | bool spelled _ stop => exact .bool spelled alone stop
  | word word stop other =>
    refine .word word stop ?_
    cases spelled : boolean? (String.ofList raw) with
    | none => exact .inl rfl
    | some b =>
      rw [spelled] at other
      refine .inr (.inr ?_)
      rcases other with none | touched | touched
      · cases none
      · exact absurd ⟨touched, raw, rest, rfl, by rw [spelled]; rfl, stop⟩ free
      · exact touched
  | blanks some all stop => exact .blanks some all stop
  | comment inside stop => exact .comment inside stop

/-- A word that was touched and spells a boolean is one where nothing touches it any more. -/
theorem Takes.freed (takes : Takes before rest raw l) (touched : before.any touches = true)
    (boolean : BooleanFirst (raw ++ rest)) (ascii : NoForeignDigit rest) :
    ∃ name b, l = some (.word name) ∧ boolean? name = some b ∧
      ∀ before', before'.any touches = false → Takes before' rest raw (some (.bool b)) := by
  obtain ⟨word, rest', split, spelled, stop⟩ := boolean
  obtain ⟨b, spelled⟩ := Option.isSome_iff_exists.mp spelled
  have taken : Takes before rest' word (some (.word (String.ofList word))) :=
    .word (isWord_of_boolean? spelled) stop (.inr (.inl touched))
  obtain ⟨rfl, rfl, rfl⟩ := takes.unique taken split
  exact ⟨_, b, rfl, spelled, fun _ alone => .bool spelled alone (ascii.stopsAt_touches stop)⟩

/-- A piece yields its lexeme in front of what is behind it. -/
theorem Takes.yields {ls : List Lexeme} (takes : Takes before rest raw l)
    (behind : Yields raw.getLast? rest ls) : Yields before (raw ++ rest) (l.toList ++ ls) := by
  obtain ⟨c, cs, rfl, found⟩ := pieceAt_of_takes takes
  cases l with
  | none => exact Yields.trivia cs found behind
  | some l => exact Yields.lexeme cs found behind

end

/-- The last piece of a text yields its lexeme and the end in front of layout as well. -/
theorem Takes.yields_ended {layout : List Char} (takes : Takes before [] raw l)
    (spaced : Layout layout) : Yields before (raw ++ layout) (l.toList ++ [.finish]) := by
  cases l with
  | some l =>
    have stop := spaced.stopsAt []
    rw [List.append_nil] at stop
    exact (takes.parted nofun stop).yields spaced.yields_alone
  | none =>
    cases takes with
    | blanks some all _ => exact yields_blanks some all fun _ _ => spaced.yields_alone
    | @comment line inside _ => exact spaced.yields_in_comment inside

/-! ## Tilings in parts -/

/-- The lexemes among pieces. -/
abbrev lexemesOf (tiles : List Tile) : List Lexeme := tiles.flatMap fun tile => tile.lexeme.toList

section

variable {front cs rest : List Char} {tiles tiles₁ tiles₂ : List Tile}

theorem lexemes_tokensOf (front : List Char) (tiles : List Tile) :
    lexemes (tokensOf front tiles) = lexemesOf tiles := by
  induction tiles generalizing front with
  | nil => rfl
  | cons tile tiles ih =>
    have here : (tile.lexeme.toList.map fun l => (⟨l, placeBehind front⟩ : Token)).map
        Token.lexeme = tile.lexeme.toList := by rw [List.map_map, Function.comp_def, List.map_id']
    rw [tokensOf, lexemes, List.map_append, here]
    exact congrArg (tile.lexeme.toList ++ ·) (ih _)

/-- A token of a tiling is the lexeme of one of its pieces. -/
theorem exists_tile {t : Token} (mem : t ∈ tokensOf front tiles) :
    ∃ tiles₁ tile tiles₂, tiles = tiles₁ ++ tile :: tiles₂ ∧ tile.lexeme = some t.lexeme ∧
      t.position = placeBehind (front ++ rawText tiles₁) := by
  induction tiles generalizing front with
  | nil => cases mem
  | cons tile tiles ih =>
    rcases List.mem_append.mp mem with here | later
    · obtain ⟨l, known, rfl⟩ := List.mem_map.mp here
      refine ⟨[], tile, tiles, rfl, Option.mem_toList.mp known, ?_⟩
      rw [rawText, List.flatMap_nil, List.append_nil]
    · obtain ⟨tiles₁, tile', tiles₂, rfl, known, place⟩ := ih later
      refine ⟨tile :: tiles₁, tile', tiles₂, rfl, known, ?_⟩
      rw [place, rawText, rawText, List.flatMap_cons, List.append_assoc]

/-- A tiling can be cut between any two pieces. -/
theorem Tiled.cut (tiled : Tiled front cs (tiles₁ ++ tiles₂) rest) :
    ∃ mid, Tiled front cs tiles₁ mid ∧ Tiled (front ++ rawText tiles₁) mid tiles₂ rest := by
  induction tiles₁ generalizing front cs with
  | nil =>
    rw [rawText, List.flatMap_nil, List.append_nil]
    exact ⟨cs, .done front cs, tiled⟩
  | cons tile tiles₁ ih =>
    cases tiled with
    | tile takes more =>
      obtain ⟨mid, first, second⟩ := ih more
      refine ⟨mid, .tile takes first, ?_⟩
      rwa [rawText, List.flatMap_cons, ← List.append_assoc]

/-- What is tiled to its end begins with no foreign digit. -/
theorem Tiled.noForeignDigit (tiled : Tiled front cs tiles []) : NoForeignDigit cs := by
  intro c head digit
  by_contra foreign
  cases tiled with
  | done => cases head
  | @tile _ _ _ tile _ takes _ =>
    obtain ⟨raw, lexeme⟩ := tile
    obtain ⟨d, ds, rfl, found⟩ := pieceAt_of_takes takes
    cases head
    obtain ⟨extra, outOfRange⟩ :=
      pieceAt_of_not_isAsciiDigit front.getLast? _ digit (Bool.eq_false_iff.mpr foreign)
    rw [found] at outOfRange
    cases lexeme <;> cases outOfRange

/-- Pieces yield their lexemes in front of any text that begins as what was behind them. -/
theorem Tiled.yields {mid : List Char} {ls : List Lexeme} (tiled : Tiled front cs tiles rest)
    (same : rest.head? = mid.head?)
    (behind : Yields (front ++ rawText tiles).getLast? mid ls) :
    Yields front.getLast? (rawText tiles ++ mid) (lexemesOf tiles ++ ls) := by
  induction tiled with
  | done front rest => simpa using behind
  | @tile front following rest tile tiles takes more ih =>
    have head : following.head? = (rawText tiles ++ mid).head? := by
      rw [more.split, List.head?_append, List.head?_append, same]
    rw [rawText, List.flatMap_cons, ← List.append_assoc] at behind
    have inner := ih same behind
    rw [List.getLast?_append_of_ne_nil _ takes.ne_nil] at inner
    rw [rawText, lexemesOf, List.flatMap_cons, List.flatMap_cons, List.append_assoc,
      List.append_assoc]
    exact (takes.congr head).yields inner

/-- Up to a lexeme and with it a text is scanned as before in front of layout. -/
theorem Tiled.yields_to {raw behind layout : List Char} {l : Lexeme} {ls : List Lexeme}
    (tiled : Tiled front cs tiles (raw ++ behind))
    (takes : Takes (front ++ rawText tiles).getLast? behind raw (some l))
    (ascii : NoForeignDigit behind) (spaced : Layout layout) (yields : YieldsBehindBlank behind ls) :
    Yields front.getLast? (rawText tiles ++ raw ++ layout ++ behind) (lexemesOf tiles ++ l :: ls) := by
  have stop := spaced.stopsAt behind
  have own := (takes.parted ascii stop).yields (spaced.yields yields)
  have head : (raw ++ behind).head? = (raw ++ (layout ++ behind)).head? := by
    rw [List.head?_append_of_ne_nil _ takes.ne_nil, List.head?_append_of_ne_nil _ takes.ne_nil]
  rw [List.append_assoc, List.append_assoc]
  exact tiled.yields head own

/-- A text that is tiled to its end yields its lexemes and the end. -/
theorem Tiled.yields_all (tiled : Tiled front cs tiles []) :
    Yields front.getLast? cs (lexemesOf tiles ++ [.finish]) := by
  rw [tiled.split]
  exact tiled.yields rfl (yields_nil _)

/-- Behind a blank a tiled text yields its lexemes as before, if it does not begin with a boolean
that was touched. -/
theorem Tiled.yields_untouched (tiled : Tiled front cs tiles [])
    (free : ¬(front.getLast?.any touches = true ∧ BooleanFirst cs)) :
    YieldsBehindBlank cs (lexemesOf tiles ++ [.finish]) := by
  intro c blank
  cases tiled with
  | done => exact yields_nil _
  | @tile _ following _ tile tiles takes more =>
    have inner := more.yields_all
    rw [List.getLast?_append_of_ne_nil _ takes.ne_nil] at inner
    rw [lexemesOf, List.flatMap_cons, List.append_assoc]
    have alone : (some c).any touches = false := touches_of_isBlank blank
    exact (takes.untouched free alone).yields inner

/-- A tiled text that begins with a boolean that was touched yields it as a boolean behind a blank,
and everything else as before. -/
theorem Tiled.yields_freed (tiled : Tiled front cs tiles [])
    (touched : front.getLast?.any touches = true) (boolean : BooleanFirst cs) :
    ∃ name b ls, lexemesOf tiles = .word name :: ls ∧ boolean? name = some b ∧
      YieldsBehindBlank cs (.bool b :: (ls ++ [.finish])) := by
  cases tiled with
  | done =>
    obtain ⟨word, rest, split, spelled, -⟩ := boolean
    rw [(List.append_eq_nil_iff.mp split.symm).1] at spelled
    cases spelled
  | @tile _ following _ tile tiles takes more =>
    obtain ⟨name, b, known, spelled, taken⟩ :=
      takes.freed touched boolean more.noForeignDigit
    refine ⟨name, b, lexemesOf tiles, ?_, spelled, fun c blank => ?_⟩
    · rw [lexemesOf, List.flatMap_cons, known]
      rfl
    · have inner := more.yields_all
      rw [List.getLast?_append_of_ne_nil _ takes.ne_nil] at inner
      exact (taken (some c) (touches_of_isBlank blank)).yields inner

/-- Behind the whole of a tiled text, layout changes nothing: it stands alone, or goes on with the
blanks or the comment that the text ends with. -/
theorem Tiled.yields_ended {layout : List Char} (tiled : Tiled front cs tiles [])
    (spaced : Layout layout) : Yields front.getLast? (cs ++ layout) (lexemesOf tiles ++ [.finish]) := by
  induction tiles generalizing front cs with
  | nil =>
    cases tiled
    exact spaced.yields_alone
  | cons tile tiles ih =>
    cases tiled with
    | @tile _ following _ _ _ takes more =>
      have inner := ih more
      rw [List.getLast?_append_of_ne_nil _ takes.ne_nil] at inner
      rw [lexemesOf, List.flatMap_cons, List.append_assoc, List.append_assoc]
      cases tiles with
      | nil =>
        cases more
        exact takes.yields_ended spaced
      | cons next tiles =>
        have left : following ≠ [] := by
          cases more with
          | tile takes' _ => exact fun none => takes'.ne_nil (List.append_eq_nil_iff.mp none).1
        exact (takes.congr (List.head?_append_of_ne_nil _ left).symm).yields inner

end

/-! ## Whole texts -/

/-- The token is read from `raw`, with `before` in front of it and `behind` behind it: it is the piece
that is taken there, or the end of the text. -/
structure ReadAt (t : Token) (before raw behind : List Char) : Prop where
  place : t.position = placeBehind before
  piece : Takes before.getLast? behind raw (some t.lexeme) ∨
    t.lexeme = .finish ∧ raw = [] ∧ behind = []

/-- What is read from `raw` touches a word that spells a boolean. -/
def Glued (raw behind : List Char) : Prop :=
  raw.getLast?.any touches = true ∧ BooleanFirst behind

/-- What touches a word that spells a boolean is a number. -/
theorem exists_number_of_glued {before : Option Char} {raw behind : List Char} {l : Lexeme}
    (takes : Takes before behind raw (some l)) (glued : Glued raw behind) : ∃ n, l = .number n := by
  obtain ⟨touched, boolean⟩ := glued
  obtain ⟨c, head, start⟩ := boolean.head
  have wordChar : isWordChar c = true := isWordChar_iff.mpr (.inl start)
  cases takes with
  | mark m =>
    rw [List.getLast?_singleton, Option.any_some, touches_char] at touched
    cases touched
  | @text quote body opens inner =>
    rw [← List.cons_append, List.getLast?_append_of_ne_nil _ (List.cons_ne_nil _ _),
      List.getLast?_singleton, Option.any_some] at touched
    have untouched : touches quote = false := by rcases opens with rfl | rfl <;> decide +kernel
    rw [untouched] at touched
    cases touched
  | number => exact ⟨_, rfl⟩
  | bool spelled alone stop =>
    rw [stopsAt_isWordChar stop c head] at wordChar
    cases wordChar
  | word word stop other =>
    rw [stop c head] at wordChar
    cases wordChar

/-- What layout behind a token of a text leads to. `before`, `raw` and `behind` are the text in front of
the token, the token's own and the text behind it. The text with layout is scanned, and its lexemes are
those of the text, so that it is read alike. Only where the token is a number that touches a word that
spells a boolean, the word is a boolean with layout in front of it. -/
structure Spaced (text : String) (ts : List Token) (t : Token) (before raw behind : List Char) :
    Prop where
  split : text.toList = before ++ raw ++ behind
  read : ReadAt t before raw behind
  alike : ¬ Glued raw behind → ∀ layout, Layout layout →
    ∃ ts', tokenize (String.ofList (before ++ raw ++ layout ++ behind)) = .ok ts' ∧
      lexemes ts' = lexemes ts ∧
      ∀ unknown, (parse unknown (String.ofList (before ++ raw ++ layout ++ behind))).mapError
          PipelineError.placeless = (parse unknown text).mapError PipelineError.placeless
  freed : Glued raw behind → (∃ n, t.lexeme = .number n) ∧
    ∃ ls name b ls', lexemes ts = ls ++ t.lexeme :: .word name :: ls' ∧ boolean? name = some b ∧
      ∀ layout, Layout layout →
        ∃ ts', tokenize (String.ofList (before ++ raw ++ layout ++ behind)) = .ok ts' ∧
          lexemes ts' = ls ++ t.lexeme :: .bool b :: ls'

/-- What a whole text yields are the lexemes of its tokens. -/
theorem tokenize_of_yields {cs : List Char} {ls : List Lexeme} (yields : Yields none cs ls) :
    ∃ ts, tokenize (String.ofList cs) = .ok ts ∧ lexemes ts = ls := by
  rw [tokenize, String.toList_ofList]
  exact yields .start

/-- A text that yields the lexemes of another is read alike. -/
theorem read_of_yields {text : String} {ts : List Token} (scanned : tokenize text = .ok ts)
    {cs : List Char} (yields : Yields none cs (lexemes ts)) :
    ∃ ts', tokenize (String.ofList cs) = .ok ts' ∧ lexemes ts' = lexemes ts ∧
      ∀ unknown, (parse unknown (String.ofList cs)).mapError PipelineError.placeless =
        (parse unknown text).mapError PipelineError.placeless := by
  obtain ⟨ts', scanned', same⟩ := tokenize_of_yields yields
  exact ⟨ts', scanned', same, fun unknown => parse_placeless scanned' scanned same⟩

/-- A text that is scanned is tiled to its end, and its tokens are those of the pieces and the end. -/
theorem exists_tiled_of_tokenize {text : String} {ts : List Token} (scanned : tokenize text = .ok ts) :
    ∃ tiles, Tiled [] text.toList tiles [] ∧ ts = tokensOf [] tiles ++ [finishBehind text.toList] := by
  obtain ⟨tiles, rest, tiled, outcome⟩ := exists_tiled text.toList []
  rcases outcome with ⟨rfl, ok⟩ | ⟨-, -, failed⟩
  · have covers : rawText tiles = text.toList := by rw [tiled.split, List.append_nil]
    rw [covers] at ok
    exact ⟨tiles, tiled, Except.ok.inj (scanned.symm.trans ok)⟩
  · cases scanned.symm.trans failed

/-- **Layout between tokens is insignificant**, but between a number and a boolean that touch. For
every token of a text that is scanned, the text with layout put in directly behind the token is scanned
too. Its tokens have the kinds and values that they had, and its parse gives the same pipeline or the
same error, up to places; if the token is a number whose last character touches a word that spells a
boolean, then this word is the boolean instead, and every other token is as it was. -/
theorem layout_behind_token {text : String} {ts : List Token} (scanned : tokenize text = .ok ts)
    {t : Token} (mem : t ∈ ts) : ∃ before raw behind, Spaced text ts t before raw behind := by
  obtain ⟨tiles, tiled, split⟩ := exists_tiled_of_tokenize scanned
  have all : lexemes ts = lexemesOf tiles ++ [.finish] := by
    rw [split, lexemes, List.map_append, ← lexemes, lexemes_tokensOf]
    rfl
  rw [split] at mem
  rcases List.mem_append.mp mem with inside | last
  case inr =>
    -- The end: layout goes behind the whole text.
    obtain rfl := List.mem_singleton.mp last
    have free : ¬ Glued [] [] := fun glued => Bool.false_ne_true glued.1
    refine ⟨text.toList, [], [], by simp, ⟨rfl, .inr ⟨rfl, rfl, rfl⟩⟩, fun _ layout spaced => ?_,
      fun glued => absurd glued free⟩
    rw [List.append_nil, List.append_nil]
    exact read_of_yields scanned (all ▸ tiled.yields_ended spaced)
  case inl =>
    obtain ⟨tiles₁, ⟨raw, _⟩, tiles₂, rfl, rfl, place⟩ := exists_tile inside
    obtain ⟨mid, front, cut⟩ := tiled.cut
    cases cut with
    | @tile _ behind _ _ _ takes more =>
    have touching : (rawText tiles₁ ++ raw).getLast? = raw.getLast? :=
      List.getLast?_append_of_ne_nil _ takes.ne_nil
    have spelled : lexemes ts = lexemesOf tiles₁ ++ t.lexeme :: (lexemesOf tiles₂ ++ [.finish]) := by
      rw [all, lexemesOf, List.flatMap_append, List.flatMap_cons, List.append_assoc]
      rfl
    refine ⟨rawText tiles₁, raw, behind, ?split, ⟨place, .inl takes⟩, fun free layout spaced => ?alike,
      fun glued => ⟨exists_number_of_glued takes glued, ?freed⟩⟩
    case split =>
      rw [List.append_assoc]
      exact front.split
    case alike =>
      rw [Glued, ← touching] at free
      have yields := front.yields_to takes more.noForeignDigit spaced (more.yields_untouched free)
      exact read_of_yields scanned (spelled ▸ yields)
    case freed =>
      obtain ⟨name, b, ls, first, boolean, yields⟩ :=
        more.yields_freed (touching.symm ▸ glued.1) glued.2
      refine ⟨lexemesOf tiles₁, name, b, ls ++ [.finish], ?_, boolean, fun layout spaced => ?_⟩
      · rw [spelled, first]
        rfl
      · exact tokenize_of_yields (front.yields_to takes more.noForeignDigit spaced yields)

/-- In a list, layout behind any token of it. -/
theorem layout_in_list : ∃ ts, tokenize "[1true,'a']" = .ok ts ∧ ts.length = 7 ∧
    ∀ t ∈ ts, ∃ before raw behind, Spaced "[1true,'a']" ts t before raw behind := by
  have scanned : tokenize "[1true,'a']" =
      .ok ((tokenize "[1true,'a']").toOption.getD []) := by decide +kernel
  exact ⟨_, scanned, by decide +kernel, fun t mem => layout_behind_token scanned mem⟩

/-- In `1true` a blank directly behind the number makes a boolean of the word. -/
theorem blank_frees_boolean :
    ∃ t ts ts', tokenize (String.ofList (['1'] ++ ['t', 'r', 'u', 'e'])) = .ok ts ∧ t ∈ ts ∧
      ReadAt t [] ['1'] ['t', 'r', 'u', 'e'] ∧ Layout [' '] ∧
      tokenize (String.ofList (['1'] ++ [' '] ++ ['t', 'r', 'u', 'e'])) = .ok ts' ∧
      lexemes ts = [.number (.ofNat 1), .word "true", .finish] ∧
      lexemes ts' = [.number (.ofNat 1), .bool true, .finish] := by
  have one : Numeral ['1'] :=
    .whole (.inl rfl) (List.cons_ne_nil _ _) (List.forall_mem_singleton.mpr (by decide +kernel))
  have value : numeralValue? ['1'] = some (.ofNat 1) := by decide +kernel
  refine ⟨⟨.number (.ofNat 1), .start⟩, [⟨.number (.ofNat 1), .start⟩, ⟨.word "true", ⟨1, 1, 2⟩⟩,
    ⟨.finish, ⟨5, 1, 6⟩⟩], [⟨.number (.ofNat 1), .start⟩, ⟨.bool true, ⟨2, 1, 3⟩⟩,
    ⟨.finish, ⟨6, 1, 7⟩⟩], by decide +kernel, List.mem_cons_self, ⟨rfl, .inl ?_⟩,
    .blanks (List.cons_ne_nil _ _) (List.forall_mem_singleton.mpr (by decide)), by decide +kernel, rfl, rfl⟩
  exact .number one value (Text.stopsAt_cons (by decide +kernel)) (.inr (by decide))

end Pipework.Script
