import Pipework.Proofs.Yaml.Scalars

/-!
# Texts on lines of their own

Behind a bar, a text stands as it is, indented. The header says how deep where the text does not show
it, and what becomes of the line ends at its end, so that the text has those that were written.
-/

namespace Pipework.Yaml

variable {c : Char} {cs rest : List Char} {mark : Mark} {indent n : Nat}

/-! ## Lines -/

namespace BlockText

/-- The text as far as it has been read, with all of its line ends. -/
def all (b : BlockText) : List Char :=
  b.out.reverse ++ b.ending ++ b.empty

/-- One more character of the text, where the flag says whether its line has begun. -/
def feed : BlockText × Bool → Char → BlockText × Bool
  | (b, inside), c =>
    if inside then
      if isBreak c then ({ b with ending := [c], empty := [] }, false)
      else ({ b with out := c :: b.out }, true)
    else if isBreak c then ({ b with empty := b.empty ++ [c] }, false)
    else ({ out := c :: b.join false c, blankStart := isBlank c }, true)

/-- Within a line there are no line ends to come. -/
def Fed (state : BlockText × Bool) (text : List Char) : Prop :=
  state.1.all = text ∧ (state.2 = true → state.1.ending = [] ∧ state.1.empty = [])

theorem Fed.feed {state : BlockText × Bool} {text : List Char} (fed : Fed state text) (c : Char) :
    Fed (feed state c) (text ++ [c]) := by
  obtain ⟨b, inside⟩ := state
  obtain ⟨rfl, line⟩ := fed
  cases inside with
  | false =>
    unfold BlockText.feed
    by_cases isEnd : isBreak c = true <;> simp [isEnd, Fed, all, join]
  | true =>
    obtain ⟨ending, empty⟩ : b.ending = [] ∧ b.empty = [] := line rfl
    unfold BlockText.feed
    by_cases isEnd : isBreak c = true <;> simp [isEnd, Fed, all, ending, empty]

theorem Fed.foldl {state : BlockText × Bool} {text : List Char} (fed : Fed state text)
    (cs : List Char) : Fed (cs.foldl BlockText.feed state) (text ++ cs) := by
  induction cs generalizing state text with
  | nil => rwa [List.append_nil]
  | cons c cs ih =>
    have more := ih (fed.feed c)
    rwa [List.append_assoc] at more

theorem fed_foldl (cs : List Char) : Fed (cs.foldl feed ({}, false)) cs := by
  have start : Fed ({}, false) [] := ⟨rfl, nofun⟩
  exact start.foldl cs

theorem feed_snd (state : BlockText × Bool) (c : Char) : (feed state c).2 = !isBreak c := by
  obtain ⟨b, inside⟩ := state
  cases inside <;> cases isEnd : isBreak c <;> simp [feed, isEnd]

/-- Behind the end of a line, there are no empty lines yet. -/
theorem empty_feed {state : BlockText × Bool} (inside : state.2 = true) (isEnd : isBreak c = true) :
    (feed state c).1.empty = [] := by
  obtain ⟨b, flag⟩ := state
  obtain rfl : flag = true := inside
  simp [feed, isEnd]

/-- The text with the line end that is put behind it. -/
def closeLine : BlockText × Bool → BlockText
  | (b, true) => { b with ending := ['\n'], empty := [] }
  | (b, false) => b

end BlockText

/-- What has to become of the line ends at the end of a text, if one is put behind a last line that
has none. -/
def chompingFor (cs : List Char) : Chomping :=
  match cs.reverse with
  | [] => .strip
  | [c] => if isBreak c then .keep else .strip
  | c :: d :: _ => if isBreak c then if isBreak d then .keep else .clip else .strip

theorem chompingFor_line (line : isBreak c = false) : chompingFor (cs ++ [c]) = .strip := by
  rw [chompingFor, List.reverse_append]
  cases cs.reverse <;> simp [line]

/-- Either all line ends at the end of a text are kept, or there is but one. -/
theorem chompingFor_break (isEnd : isBreak c = true) :
    chompingFor (cs ++ [c]) = .keep ∨
      chompingFor (cs ++ [c]) = .clip ∧ ∃ ds d, cs = ds ++ [d] ∧ isBreak d = false := by
  rcases List.eq_nil_or_concat cs with rfl | ⟨ds, d, split⟩
  · simp [chompingFor, isEnd]
  · rw [List.concat_eq_append] at split
    subst split
    simp only [chompingFor, List.reverse_append, List.reverse_cons, List.reverse_nil,
      List.nil_append, List.cons_append, isEnd, ↓reduceIte]
    cases line : isBreak d with
    | true => exact .inl rfl
    | false => exact .inr ⟨rfl, ds, d, rfl, line⟩

open BlockText in
/-- The text is what was written. -/
theorem finish_closeLine (cs : List Char) :
    (closeLine (cs.foldl feed ({}, false))).finish (chompingFor cs) = String.ofList cs := by
  rcases List.eq_nil_or_concat cs with rfl | ⟨ds, c, split⟩
  · rfl
  rw [List.concat_eq_append] at split
  subst split
  have fed := fed_foldl (ds ++ [c])
  rw [List.foldl_append, List.foldl_cons, List.foldl_nil] at fed ⊢
  cases state : feed (ds.foldl feed ({}, false)) c with
  | mk b inside =>
  have flag := feed_snd (ds.foldl feed ({}, false)) c
  rw [state] at fed flag
  obtain ⟨all, line⟩ := fed
  cases isEnd : isBreak c with
  | false =>
    obtain rfl : inside = true := by simpa [isEnd] using flag
    obtain ⟨ending, empty⟩ : b.ending = [] ∧ b.empty = [] := line rfl
    rw [chompingFor_line isEnd, ← all]
    simp [closeLine, finish, BlockText.all, ending, empty]
  | true =>
    obtain rfl : inside = false := by simpa [isEnd] using flag
    rw [← all]
    rcases chompingFor_break isEnd with keep | ⟨clip, es, d, split, inner⟩
    · rw [all, keep, ← all]
      simp [closeLine, finish, BlockText.all]
    · have within : (ds.foldl feed ({}, false)).2 = true := by
        rw [split, List.foldl_append]
        exact (feed_snd _ d).trans (by rw [inner]; rfl)
      have empty : b.empty = [] := by
        have := empty_feed within isEnd
        rwa [state] at this
      rw [all, clip, ← all]
      simp [closeLine, finish, BlockText.all, empty]

/-! ## Reading lines -/

/-- The blanks that indent a line are passed over. -/
theorem readLines_blanks {b : BlockText} {k : Nat} (low : mark.column + k ≤ n) :
    readLines false n b false mark (blanks k ++ cs) =
      readLines false n b false (mark.after (blanks k)) cs := by
  induction k generalizing mark with
  | zero => rfl
  | succ k ih =>
    have here : mark.column < n := by omega
    have next : mark.next ' ' = ⟨_, _, _⟩ := Mark.next_of_not_break rfl
    show readLines false n b false mark (' ' :: (blanks k ++ cs)) = _
    rw [readLines, decide_eq_true here]
    refine ih ?_
    rw [next]
    show mark.column + 1 + k ≤ n
    omega

/-- The end of a line belongs to the text. -/
theorem readLines_break (state : BlockText × Bool) (isEnd : isBreak c = true) :
    readLines false n state.1 state.2 mark (c :: cs) =
      readLines false n (BlockText.feed state c).1 (BlockText.feed state c).2 (mark.next c) cs := by
  obtain ⟨b, inside⟩ := state
  have noBlank : c ≠ ' ' := ne_of_class isEnd rfl
  have noTab : c ≠ '\t' := ne_of_class isEnd rfl
  cases inside <;> simp [readLines, BlockText.feed, isEnd, noBlank, noTab]

/-- A character of a line belongs to the text, if its indentation stands in front of it. -/
theorem readLines_char (state : BlockText × Bool) (line : isBreak c = false)
    (start : state.2 = false → mark.column = n) :
    readLines false n state.1 state.2 mark (c :: cs) =
      readLines false n (BlockText.feed state c).1 (BlockText.feed state c).2 (mark.next c) cs := by
  obtain ⟨b, inside⟩ := state
  cases inside with
  | true => simp [readLines, BlockText.feed, line]
  | false =>
    have reached : mark.column = n := start rfl
    simp [readLines, BlockText.feed, line, reached]

/-- Indented lines are fed to a text. -/
theorem readLines_indented (state : BlockText × Bool) (mark : Mark)
    (start : state.2 = false → mark.column = 0) :
    readLines false n state.1 state.2 mark (indented n (!state.2) cs ++ rest) =
      readLines false n (cs.foldl BlockText.feed state).1 (cs.foldl BlockText.feed state).2
        (mark.after (indented n (!state.2) cs)) rest := by
  induction cs generalizing state mark with
  | nil => rfl
  | cons c cs ih =>
    have flag := BlockText.feed_snd state c
    have more := ih (BlockText.feed state c)
    rw [flag, Bool.not_not] at more
    rw [List.foldl_cons]
    cases isEnd : isBreak c with
    | true =>
      rw [isEnd] at flag more
      have fresh : (mark.next c).column = 0 := by rw [Mark.next_of_break isEnd]
      have text : indented n (!state.2) (c :: cs) = c :: indented n true cs := by
        rw [indented, isEnd]
        rfl
      rw [text, List.cons_append, readLines_break state isEnd, Mark.after_cons, flag]
      exact more _ fun _ => fresh
    | false =>
      rw [isEnd] at flag more
      obtain ⟨b, inside⟩ := state
      cases inside with
      | true =>
        have text : indented n (!true) (c :: cs) = c :: indented n false cs := by
          rw [Bool.not_true, indented, isEnd]
          rfl
        rw [text, List.cons_append, readLines_char (b, true) isEnd nofun, Mark.after_cons, flag]
        exact more _ nofun
      | false =>
        have text : indented n (!false) (c :: cs) = blanks n ++ c :: indented n false cs := by
          rw [Bool.not_false, indented, isEnd]
          rfl
        have reached : (mark.after (blanks n)).column = n := by
          rw [Mark.after_blanks, start rfl]
          exact Nat.zero_add n
        have low : mark.column + n ≤ n := Nat.le_of_eq (by rw [start rfl, Nat.zero_add])
        have skipped : readLines false n b false mark (blanks n ++ (c :: indented n false cs ++ rest)) =
            readLines false n b false (mark.after (blanks n)) (c :: (indented n false cs ++ rest)) :=
          readLines_blanks low
        rw [text, List.append_assoc, skipped, readLines_char (b, false) isEnd fun _ => reached,
          Mark.after_append, Mark.after_cons, flag]
        exact more _ nofun

/-- A text ends in front of a line that is indented less. -/
theorem readLines_end {b : BlockText} {column k : Nat} {text : List Char} (start : mark.column = 0)
    (deep : column < n) (next : NextLine column text k rest) :
    ∃ behind, readLines false n b false mark text = .ok (b, ⟨behind, rest⟩) ∧
      mark.line ≤ behind.line ∧ behind.column = k := by
  have le := next.le
  have reached : (mark.after (blanks k)).column = k := by
    rw [Mark.after_blanks, start]
    exact Nat.zero_add k
  refine ⟨mark.after (blanks k), ?_, Mark.line_le_after _ _, reached⟩
  rw [next.text_eq, readLines_blanks (by rw [start]; omega)]
  cases rest with
  | nil => rfl
  | cons c cs =>
    obtain ⟨line, solid, -, -⟩ := isVisible_iff.mp (next.visible c rfl)
    have noBlank : c ≠ ' ' := ne_of_not_class solid rfl
    have noTab : c ≠ '\t' := ne_of_not_class solid rfl
    have other : k ≠ n := by omega
    simp [readLines, line, noBlank, noTab, reached, other]

/-- A line that has ended is not indented again. -/
theorem indented_concat (fresh : Bool) (isEnd : isBreak c = true) :
    indented n fresh (cs ++ [c]) = indented n fresh cs ++ [c] := by
  induction cs generalizing fresh with
  | nil =>
    show indented n fresh [c] = [c]
    simp [indented, isEnd]
  | cons d ds ih =>
    rw [List.cons_append, indented, indented, ih, ih]
    split
    · rfl
    · rw [List.append_assoc]
      rfl

/-- The line end that a text has not got itself. -/
def missingEnd (cs : List Char) : List Char :=
  if cs.getLast?.any isBreak then [] else ['\n']

/-- A text on lines of its own is read up to the next line. -/
theorem readLines_text (mark : Mark) {column k : Nat} {text : List Char} (some : cs ≠ [])
    (start : mark.column = 0) (deep : column < n) (next : NextLine column text k rest) :
    ∃ behind, readLines false n {} false mark (indented n true cs ++ (missingEnd cs ++ text)) =
        .ok (BlockText.closeLine (cs.foldl BlockText.feed ({}, false)), ⟨behind, rest⟩) ∧
      mark.line ≤ behind.line ∧ behind.column = k := by
  have fed : readLines false n {} false mark (indented n true cs ++ (missingEnd cs ++ text)) = _ :=
    readLines_indented ({}, false) mark fun _ => start
  obtain ⟨ds, c, rfl⟩ : ∃ ds c, cs = ds ++ [c] := ⟨_, _, (List.dropLast_concat_getLast some).symm⟩
  have flag : ((ds ++ [c]).foldl BlockText.feed ({}, false)).2 = !isBreak c := by
    rw [List.foldl_append]
    exact BlockText.feed_snd _ c
  have later := Mark.line_le_after mark (indented n true (ds ++ [c]))
  rw [fed]
  cases state : (ds ++ [c]).foldl BlockText.feed ({}, false) with
  | mk b inside =>
  rw [state] at flag
  cases isEnd : isBreak c with
  | true =>
    obtain rfl : inside = false := by simpa [isEnd] using flag
    have closed : missingEnd (ds ++ [c]) = [] := by simp [missingEnd, isEnd]
    have fresh : (mark.after (indented n true (ds ++ [c]))).column = 0 := by
      rw [indented_concat true isEnd, Mark.after_append, Mark.after_cons, Mark.next_of_break isEnd]
      rfl
    rw [closed]
    obtain ⟨behind, lines, more, at_column⟩ := readLines_end (b := b) fresh deep next
    exact ⟨behind, lines, Nat.le_trans later more, at_column⟩
  | false =>
    obtain rfl : inside = true := by simpa [isEnd] using flag
    have open_line : missingEnd (ds ++ [c]) = ['\n'] := by simp [missingEnd, isEnd]
    have fresh : ((mark.after (indented n true (ds ++ [c]))).next '\n').column = 0 := by
      rw [Mark.next_of_break rfl]
    rw [open_line, List.singleton_append, readLines_break (b, true) rfl]
    obtain ⟨behind, lines, more, at_column⟩ := readLines_end (b := { b with ending := ['\n'], empty := [] })
      fresh deep next
    exact ⟨behind, lines, Nat.le_trans later (Nat.le_trans Mark.line_le_next more), at_column⟩

/-! ## The header -/

/-- The sign of what becomes of line ends. -/
def Chomping.sign : Chomping → List Char
  | .strip => ['-']
  | .clip => []
  | .keep => ['+']

theorem literalHeader_eq (cs : List Char) : literalHeader cs =
    (if cs.head?.any isEdge then ['2'] else []) ++ (chompingFor cs).sign := by
  unfold literalHeader chompingFor
  rcases cs.reverse with _ | ⟨c, _ | ⟨d, ds⟩⟩
  · rfl
  · cases isEnd : isBreak c <;> simp [Chomping.sign, isEnd]
  · cases isEnd : isBreak c <;> cases inner : isBreak d <;> simp [Chomping.sign, isEnd, inner]

theorem readHeader_append (shown : Bool) (chomping : Chomping) :
    readHeader ((if shown then ['2'] else []) ++ chomping.sign ++ '\n' :: cs) =
      .ok (⟨chomping, if shown then some 2 else none⟩, '\n' :: cs) := by
  cases shown <;> cases chomping <;> rfl

/-- The indentation of a text is found where its first line shows it. -/
theorem detectIndent_blanks (deepest column : Nat) (solid : isSpace c = false) (n : Nat) :
    detectIndent deepest column (blanks n ++ c :: cs) = .ok (max deepest (column + n)) := by
  induction n generalizing column with
  | zero =>
    have noBlank : c ≠ ' ' := ne_of_not_class solid rfl
    have noTab : c ≠ '\t' := ne_of_not_class solid rfl
    have line : isBreak c = false := (Bool.or_eq_false_iff.mp solid).2
    show detectIndent deepest column (c :: cs) = _
    simp [detectIndent, noBlank, noTab, line]
  | succ n ih =>
    show detectIndent deepest column (' ' :: (blanks n ++ c :: cs)) = _
    rw [detectIndent, if_pos (beq_self_eq_true ' '), ih, Nat.add_assoc, Nat.add_comm 1 n]

theorem skipComment_break (mark : Mark) (cs : List Char) :
    Cursor.skipComment ⟨mark, '\n' :: cs⟩ = ⟨mark, '\n' :: cs⟩ := rfl

/-- The indentation that the header says or the text shows. -/
theorem indentation_shown {column : Nat} (some : cs ≠ []) (printable : ∀ c ∈ cs, isPrintable c = true)
    (hidden : cs.head?.any isEdge = false) :
    detectIndent 0 0 (indented (column + 2) true cs ++ rest) = .ok (column + 2) := by
  obtain ⟨c, ds, rfl⟩ := List.exists_cons_of_ne_nil some
  obtain ⟨noBlank, line⟩ := Bool.or_eq_false_iff.mp (show isEdge c = false from hidden)
  have solid : isSpace c = false := by
    rw [isSpace, isBlank_of_isPrintable (printable c List.mem_cons_self), noBlank, line]
    rfl
  have text : indented (column + 2) true (c :: ds) =
      blanks (column + 2) ++ c :: indented (column + 2) false ds := by
    rw [indented, line]
    rfl
  rw [text, List.append_assoc, List.cons_append, detectIndent_blanks 0 0 solid]
  simp

/-- A text behind its bar is read up to the next line. -/
theorem readBlock_text (mark : Mark) {column k : Nat} {text : List Char} (some : cs ≠ [])
    (printable : ∀ c ∈ cs, isPrintable c = true) (next : NextLine column text k rest) :
    ∃ behind, readBlock false column ⟨mark, literalHeader cs ++
        '\n' :: (indented (column + 2) true cs ++ (missingEnd cs ++ text))⟩ =
      .ok (String.ofList cs, ⟨behind, rest⟩) ∧ mark.line < behind.line ∧ behind.column = k := by
  obtain ⟨body, body_eq⟩ : ∃ body, body =
      indented (column + 2) true cs ++ (missingEnd cs ++ text) := ⟨_, rfl⟩
  have isEnd : (mark.after (literalHeader cs)).next '\n' = ⟨_, _, _⟩ := Mark.next_of_break rfl
  obtain ⟨behind, lines, later, at_column⟩ := readLines_text
    ((mark.after (literalHeader cs)).next '\n') some (by rw [isEnd])
    (Nat.lt_add_of_pos_right (Nat.succ_pos 1)) next
  rw [← body_eq] at lines ⊢
  have header : readHeader (literalHeader cs ++ '\n' :: body) =
      .ok (⟨chompingFor cs, if cs.head?.any isEdge then .some 2 else none⟩, '\n' :: body) := by
    rw [literalHeader_eq]
    exact readHeader_append _ _
  have skipped : Cursor.skip ((literalHeader cs ++ '\n' :: body).length - ('\n' :: body).length)
      ⟨mark, literalHeader cs ++ '\n' :: body⟩ = ⟨mark.after (literalHeader cs), '\n' :: body⟩ := by
    rw [List.length_append, Nat.add_sub_cancel]
    exact Cursor.skip_append _ _ _
  have atEnd : Cursor.atLineEnd ⟨mark.after (literalHeader cs), '\n' :: body⟩ = true := rfl
  have opened : Cursor.skipBreak ⟨mark.after (literalHeader cs), '\n' :: body⟩ =
      ⟨(mark.after (literalHeader cs)).next '\n', body⟩ := rfl
  refine ⟨behind, ?_, ?_, at_column⟩
  · unfold readBlock
    simp only [header, skipped, bind, Except.bind, skipComment_break, opened, atEnd, Bool.not_true,
      Bool.false_eq_true, ↓reduceIte]
    -- The text shows its indentation, unless it begins with a blank or the end of a line.
    cases hidden : cs.head?.any isEdge with
    | true =>
      have nonneg : (0 : Int) ≤ column := Int.natCast_nonneg column
      simp only [↓reduceIte, nonneg, Int.toNat_natCast, lines, finish_closeLine]
    | false =>
      have shown : detectIndent 0 0 body = .ok (column + 2) := by
        rw [body_eq]
        exact indentation_shown some printable hidden
      have deepest : max (max (column + 2) ((column : Int) + 1).toNat) 1 = column + 2 := by omega
      simp only [Bool.false_eq_true, ↓reduceIte, shown, deepest, lines, finish_closeLine]
  · rw [isEnd] at later
    exact Nat.lt_of_le_of_lt (Mark.line_le_after _ _) later

/-! ## As scalars -/

namespace Scanner

/-- A text behind its bar. -/
theorem takesLines_literal {column k : Nat} {text : List Char} (some : cs ≠ [])
    (printable : ∀ c ∈ cs, isPrintable c = true) (next : NextLine column text k rest) :
    TakesLines ('|' :: (literalHeader cs ++
        '\n' :: (indented (column + 2) true cs ++ (missingEnd cs ++ text))))
      .literal (String.ofList cs) column k rest := by
  refine ⟨'|', _, rfl, rfl, ?_, fun s outside unkeyed at_text at_indent _ => ?_⟩
  · rw [next.text_eq]
    simp only [List.length_append, List.length_cons]
    omega
  have flow : s.inFlow = false := by rw [inFlow, outside]; rfl
  have skipped := skip_one at_text
  obtain ⟨behind, reads, later, at_column⟩ :=
    readBlock_text (s.cursor.mark.next '|') some printable next
  have taken : s.takeToken '|' (literalHeader cs ++
      '\n' :: (indented (column + 2) true cs ++ (missingEnd cs ++ text))) = s.takeBlock .literal := by
    simp [takeToken, isDocumentMark_of_ne, flow]
  have dropped : s.dropKey = .ok { s with keyStart := none } := by
    simp only [dropKey, unkeyed, Option.any_none, Bool.false_eq_true, ↓reduceIte]
  refine ⟨none, behind, ?_, .inl rfl, Nat.lt_of_le_of_lt Mark.line_le_next later, at_column⟩
  have folded : (ScalarStyle.literal == ScalarStyle.folded) = false := rfl
  rw [taken, takeBlock, dropped]
  simp only [bind, Except.bind, takeBy, allowKey, skipped, at_indent, folded, reads]

end Scanner

end Pipework.Yaml
